import Longhand.Proofs.Line
import Longhand.Proofs.Patchable
import Longhand.Proofs.Rebound

/-!
# Justified edits

Each edit of a rewriting has a reason in the text.  It stands at the name of a keyword argument of a
call, an import statement before the call binds the first name of the callee to a path that the other
names complete to that of a tracked module, and the table of this module gives the keyword its long
name.
-/

namespace Longhand

namespace Text

/-! ## Positions -/

/-- Whether a position is that of an offset of a text: the line counts the line feeds before the
offset, and the column the bytes behind the last of them, both from one. -/
def IsPosition (source : List Char) (offset : Nat) (p : Position) : Prop :=
  ∃ above line rest, source = above ++ line ++ rest ∧
    (above = [] ∨ above.getLast? = some '\n') ∧ '\n' ∉ line ∧
    offset = byteSize above + byteSize line ∧
    p = ⟨above.count '\n' + 1, byteSize line + 1⟩

/-- The position behind two texts is that behind the second one, counted on from the first. -/
theorem advance_append (p : Position) (a b : List Char) (n : Nat) :
    p.advance (a ++ b) (byteSize a + n) = (p.advance a (byteSize a)).advance b n := by
  induction a generalizing p with
  | nil => simp [Position.advance]
  | cons c a ih =>
      have hpos := c.utf8Size_pos
      obtain ⟨m, hm⟩ : ∃ m, c.utf8Size = m + 1 := ⟨c.utf8Size - 1, by omega⟩
      have hlong : byteSize (c :: a) + n = (m + byteSize a + n) + 1 := by
        rw [byteSize_cons]
        omega
      have hshort : byteSize (c :: a) = (m + byteSize a) + 1 := by
        rw [byteSize_cons]
        omega
      have hrest : m + byteSize a + n + 1 - c.utf8Size = byteSize a + n := by omega
      have hrest' : m + byteSize a + 1 - c.utf8Size = byteSize a := by omega
      rw [hlong, hshort, List.cons_append, Position.advance, Position.advance, hrest, hrest', ih]

/-- On one line only the column goes on. -/
theorem advance_of_notMem {line : List Char} (hline : '\n' ∉ line) (p : Position)
    (rest : List Char) :
    p.advance (line ++ rest) (byteSize line) = ⟨p.line, p.column + byteSize line⟩ := by
  induction line generalizing p with
  | nil => cases rest <;> rfl
  | cons c line ih =>
      obtain ⟨hc, hline⟩ : ¬ '\n' = c ∧ '\n' ∉ line := by simpa using hline
      have hfeed : (c == '\n') = false := by simpa using Ne.symm hc
      have hone : byteSize [c] = c.utf8Size := by simp
      have hstep : p.advance [c] (byteSize [c]) = ⟨p.line, p.column + c.utf8Size⟩ := by
        have hpos := c.utf8Size_pos
        obtain ⟨m, hm⟩ : ∃ m, byteSize [c] = m + 1 := ⟨byteSize [c] - 1, by omega⟩
        rw [hm, Position.advance]
        simp [hfeed, Position.advance]
      have hsplit : byteSize (c :: line) = byteSize [c] + byteSize line := by simp
      rw [hsplit, List.cons_append, ← List.singleton_append, advance_append, hstep, ih hline, hone,
        Nat.add_assoc]

/-- A text is the lines that end in it and what follows them. -/
theorem exists_lastLine (cs : List Char) : ∃ above line, cs = above ++ line ∧
    (above = [] ∨ above.getLast? = some '\n') ∧ '\n' ∉ line := by
  induction cs with
  | nil => exact ⟨[], [], rfl, .inl rfl, List.not_mem_nil⟩
  | cons c cs ih =>
      obtain ⟨above, line, rfl, habove, hline⟩ := ih
      rcases habove with rfl | hlast
      · by_cases hc : c = '\n'
        · exact ⟨[c], line, rfl, .inr (by rw [hc]; rfl), hline⟩
        · exact ⟨[], c :: line, rfl, .inl rfl, by simp [hline, Ne.symm hc]⟩
      · obtain ⟨d, above, rfl⟩ := List.exists_cons_of_ne_nil (l := above) (by
          rintro rfl
          cases hlast)
        exact ⟨c :: d :: above, line, rfl, .inr (by rwa [List.getLast?_cons_cons]), hline⟩

/-- The position that is computed for a place between two characters is that of the place. -/
theorem isPosition_positionAt (a b : List Char) :
    IsPosition (a ++ b) (byteSize a) (positionAt (a ++ b) (byteSize a)) := by
  obtain ⟨above, line, rfl, habove, hline⟩ := exists_lastLine a
  refine ⟨above, line, b, rfl, habove, hline, byteSize_append _ _, ?_⟩
  have hbehind : Position.advance ⟨1, 1⟩ above (byteSize above) = ⟨above.count '\n' + 1, 1⟩ := by
    have hcount := advance_line ⟨1, 1⟩ above []
    rw [List.append_nil] at hcount
    rcases habove with rfl | hlast
    · rfl
    · -- Behind a line feed the columns begin anew.
      obtain ⟨init, rfl⟩ := List.getLast?_eq_some_iff.1 hlast
      have hfeed : ∀ p : Position, p.advance ['\n'] (byteSize ['\n']) = ⟨p.line + 1, 1⟩ :=
        fun _ => rfl
      rw [byteSize_append, advance_append, hfeed] at hcount ⊢
      exact congrArg (Position.mk · 1) (hcount.trans (Nat.add_comm _ _))
  rw [positionAt, byteSize_append, List.append_assoc, advance_append, hbehind,
    advance_of_notMem hline, Nat.add_comm 1]

end Text

namespace Scope

open Syntax Text Tracked

variable {tracked : Tracked.Set} {t u w item : Tree} {path command name localName : String}
  {names after : List String} {place offset k : Nat} {p : Place} {n : Numbering} {e : Event}
  {b : Binding} {v : Visit}

/-! ## Paths of bindings -/

/-- The path that an item of an import statement binds a name to. -/
inductive Binds (u item : Tree) : String → List String → Prop
  /-- Without another name for it, a dotted path binds its first name, and to this name alone. -/
  | first {head : String} {rest : List String} : u.kind = .importStatement →
      item.kind = .dottedName → segments? item = some (head :: rest) → Binds u item head [head]
  | renamed {path other : Tree} {names : List String} : u.kind = .importStatement →
      item.kind = .aliasedImport → item.child? .name = some path → segments? path = some names →
      item.child? .alias = some other → Binds u item other.text names
  | member {names : List String} {name localName : String} : ImportsFrom u names →
      Brings item name localName → Binds u item localName (names ++ [name])

/-- Whether an item of an import statement makes a dotted callee stand for a command of the module
with some path. -/
inductive Supplies (path command : String) (u item : Tree) : List String → Prop
  /-- The path of the first name, extended by the names before the command, is that of the module. -/
  | module {localName : String} {names between : List String} : Binds u item localName names →
      dotted (names ++ between) = path →
      Supplies path command u item (localName :: (between ++ [command]))
  /-- The command itself is imported from the module. -/
  | command {localName : String} {names : List String} : ImportsFrom u names →
      Brings item command localName → dotted names = path →
      Supplies path command u item [localName]

theorem pathBinding_path {q : String} (h : (pathBinding tracked path).path? tracked = some q) :
    q = path := by
  unfold pathBinding at h
  split at h
  · rename_i place hplace
    exact Option.some.inj (h.symm.trans (Set.path?_of_find? hplace))
  · split at h
    · exact (Option.some.inj h).symm
    · cases h

theorem memberBinding_path {origin imported q : String}
    (h : (memberBinding tracked origin imported).path? tracked = some q) :
    q = origin ++ "." ++ imported := by
  unfold memberBinding at h
  dsimp only at h
  split at h
  · rename_i place hplace
    exact Option.some.inj (h.symm.trans (Set.path?_of_find? hplace))
  · split at h
    · cases h
    · split at h
      · exact (Option.some.inj h).symm
      · cases h

/-- What is imported from a module as one of its commands is called so there. -/
theorem memberBinding_name {origin imported : String}
    (h : memberBinding tracked origin imported = .command place command) : command = imported := by
  unfold memberBinding at h
  dsimp only at h
  split at h
  · cases h
  · split at h
    · exact (Binding.command.inj h).2.symm
    · split at h <;> cases h

/-- A name stands for a command by itself, or it stands for a path, which the names behind it but the
last one complete to that of the module. -/
theorem Binding.target?_cases (h : b.target? tracked after = some (place, command)) :
    (after = [] ∧ b = .command place command) ∨
      ∃ path between, b.path? tracked = some path ∧ after = between ++ [command] ∧
        tracked.path? place = some (dotted (path :: between)) := by
  cases hlast : after.getLast? with
  | none =>
      obtain rfl := List.getLast?_eq_none_iff.1 hlast
      exact .inl ⟨rfl, Binding.target?_nil.1 h⟩
  | some last =>
      unfold target? at h
      rw [hlast] at h
      obtain ⟨path, hpath, h⟩ := Option.bind_eq_some_iff.1 h
      obtain ⟨found, hfound, h⟩ := Option.map_eq_some_iff.1 h
      cases h
      exact .inr ⟨path, after.dropLast, hpath, (List.dropLast_append_getLast? _ hlast).symm,
        Set.path?_of_find? hfound⟩

/-- A statement that imports from a path imports from the module with its names. -/
theorem importsFrom_of_originPath? (hkind : u.kind = .importFromStatement)
    (h : originPath? u = some path) : ∃ names, ImportsFrom u names ∧ dotted names = path := by
  unfold originPath? at h
  split at h
  · cases h
  · rename_i origin horigin
    split at h
    · rename_i hdotted
      obtain ⟨names, hsegments, rfl⟩ := Option.map_eq_some_iff.1 h
      exact ⟨names, ⟨hkind, origin, horigin, hdotted, hsegments⟩, rfl⟩
    · cases h

/-- A tracked binding of a statement that imports from a module is that of a name it brings. -/
theorem brings_of_importFromEvents {origin : Option String}
    (he : e ∈ importFromEvents tracked p offset origin item) (htracked : e.binding.isTracked = true) :
    ∃ path name, origin = some path ∧ Brings item name e.name ∧
      e.binding = memberBinding tracked path name := by
  unfold importFromEvents at he
  dsimp only at he
  split at he
  · cases he
  · rename_i imported other hnames
    rw [List.mem_singleton.1 he] at htracked ⊢
    have hbrings : Brings item imported.text other.text := by
      split at hnames
      · cases hnames
        exact .plain ‹_›
      · split at hnames
        · cases hnames
          exact .renamed ‹_› ‹_› ‹_›
        · cases hnames
      · cases hnames
    cases origin with
    | none => cases htracked
    | some path => exact ⟨path, imported.text, rfl, hbrings, rfl⟩

/-- What an item of an import of paths makes names stand for, it supplies. -/
theorem supplies_of_importEvents (hu : u.kind = .importStatement)
    (he : e ∈ importEvents tracked p offset item)
    (h : e.binding.target? tracked after = some (place, command)) :
    ∃ path, tracked.path? place = some path ∧ Supplies path command u item (e.name :: after) := by
  unfold importEvents at he
  split at he
  · rename_i hdotted
    split at he
    · rename_i head rest hsegments
      rw [List.mem_singleton.1 he, Place.event] at h ⊢
      dsimp only at h ⊢
      split at h
      · rcases Binding.target?_cases h with ⟨-, hcommand⟩ | ⟨path, between, hpath, rfl, hfound⟩
        · cases hcommand
        · cases hpath
          exact ⟨_, hfound, .module (.first hu hdotted hsegments) rfl⟩
      · cases Binding.isTracked_of_target? h
    · cases he
  · rename_i haliased
    split at he
    · rename_i path other hpath hother
      split at he
      · rename_i names hsegments
        rw [List.mem_singleton.1 he] at h ⊢
        rcases Binding.target?_cases h with ⟨-, hcommand⟩ | ⟨q, between, hq, rfl, hfound⟩
        · exact absurd hcommand pathBinding_ne_command
        · obtain rfl := pathBinding_path hq
          rw [dotted_dotted (ne_nil_of_segments hsegments)] at hfound
          exact ⟨_, hfound, .module (.renamed hu haliased hpath hsegments hother) rfl⟩
      · cases he
    · cases he
  · cases he

/-- What an item of an import from a module makes names stand for, it supplies. -/
theorem supplies_of_importFromEvents (hu : u.kind = .importFromStatement)
    (he : e ∈ importFromEvents tracked p offset (originPath? u) item)
    (h : e.binding.target? tracked after = some (place, command)) :
    ∃ path, tracked.path? place = some path ∧ Supplies path command u item (e.name :: after) := by
  obtain ⟨origin, name, horigin, hbrings, hbinding⟩ :=
    brings_of_importFromEvents he (Binding.isTracked_of_target? h)
  obtain ⟨names, hfrom, rfl⟩ := importsFrom_of_originPath? hu horigin
  rcases Binding.target?_cases h with ⟨rfl, hcommand⟩ | ⟨q, between, hq, rfl, hfound⟩
  · have hmember := hbinding.symm.trans hcommand
    obtain rfl := memberBinding_name hmember
    exact ⟨_, Set.path?_of_find? (memberBinding_command hmember), .command hfrom hbrings rfl⟩
  · have hne : names ≠ [] := by
      obtain ⟨-, _, -, -, hsegments⟩ := hfrom
      exact ne_nil_of_segments hsegments
    have hjoin : dotted names ++ "." ++ name = dotted (names ++ [name]) :=
      (dotted_append hne (List.cons_ne_nil name [])).symm
    rw [hbinding] at hq
    rw [memberBinding_path hq, hjoin, dotted_dotted (by simp)] at hfound
    exact ⟨_, hfound, .module (.member hfrom hbrings) rfl⟩

/-- What an import statement makes names stand for, it supplies. -/
theorem supplies_of_imported (hkind : isImport u.kind = true) (he : e ∈ importedEvents tracked p u)
    (h : e.binding.target? tracked after = some (place, command)) :
    ∃ item ∈ u.childrenIn .name, ∃ path, tracked.path? place = some path ∧
      Supplies path command u item (e.name :: after) := by
  unfold importedEvents at he
  unfold isImport at hkind
  split at hkind
  · rename_i hu
    rw [hu] at he
    obtain ⟨item, hitem, he⟩ := List.mem_flatMap.1 he
    exact ⟨item, hitem, supplies_of_importEvents hu he h⟩
  · rename_i hu
    rw [hu] at he
    obtain ⟨item, hitem, he⟩ := List.mem_flatMap.1 he
    exact ⟨item, hitem, supplies_of_importFromEvents hu he h⟩
  · cases hkind

/-! ## Where bindings come from -/

theorem not_tracked_of_untracked {es : List Event} (hes : Untracked p es) (he : e ∈ es) :
    e.binding.isTracked = false := by
  rw [(hes e he).2]
  rfl

/-- A tracked binding that a node makes is one of an import statement. -/
theorem imported_of_made
    (he : e ∈ (course tracked p n t).own ∨ e ∈ (course tracked p n t).opened.events)
    (htracked : e.binding.isTracked = true) :
    isImport t.kind = true ∧ p.depth ≤ depthLimit ∧ e ∈ importedEvents tracked p t := by
  have untracked : ∀ {q : Place} {es : List Event}, Untracked q es → e ∉ es := by
    intro q es hes hmem
    rw [not_tracked_of_untracked hes hmem] at htracked
    cases htracked
  rcases he with he | he
  · obtain ⟨hdepth, himport | ⟨-, he⟩⟩ := own_cases he
    · exact ⟨himport.1, hdepth, himport.2⟩
    · exact absurd he (untracked (ownEvents_untracked _ _))
  · rcases course_of_bound he with hcourse | ⟨k, body, -, hbody, hcourse⟩
    · rw [hcourse] at he
      exact absurd he (untracked (clauseEvents_untracked _ _))
    · rw [hcourse] at he
      simp only [bodyCourse, hbody] at he
      exact absurd he (untracked (untracked_names _ _ _))

/-- A tracked binding of a text is made by an import statement that the walk visits. -/
theorem Visited.exists_import (hv : Visited tracked t v) (he : e ∈ (v.found tracked).events)
    (htracked : e.binding.isTracked = true) :
    ∃ u, Visited tracked t u ∧ isImport u.tree.kind = true ∧ u.place.depth ≤ depthLimit ∧
      e ∈ importedEvents tracked u.place u.tree := by
  revert hv he
  refine Visit.induction tracked (P := fun v => Visited tracked t v → e ∈ (v.found tracked).events →
    _) (fun v ih hv he => ?_) v
  rcases mem_walk_events.1 he with hown | hopened | ⟨w, hw, he⟩
  · obtain ⟨hkind, hdepth, hmem⟩ := imported_of_made (.inl hown) htracked
    exact ⟨v, hv, hkind, hdepth, hmem⟩
  · obtain ⟨hkind, hdepth, hmem⟩ := imported_of_made (.inr hopened) htracked
    exact ⟨v, hv, hkind, hdepth, hmem⟩
  · exact ih w hw (hv.next hw) he

/-- What a name stands for is said by the bindings of a scope that holds the offset. -/
theorem exists_holding (ht : Ordered t) : ∀ (steps : Nat) (innermost : Bool) (i : Nat),
    (resolve tracked t).holds offset i = true →
    (resolve tracked t).lookupFrom localName offset steps innermost i = some b →
      ∃ k scope, (resolve tracked t).scopes[k]? = some scope ∧
        (resolve tracked t).holds offset k = true ∧ visible? scope.events localName offset = some b
  | 0, _, _, _, h => by cases h
  | steps + 1, innermost, i, hi, h => by
      obtain ⟨scope, hscope, -⟩ := Scopes.holds_iff.1 hi
      rw [Scopes.lookupFrom, hscope] at h
      dsimp only at h
      split at h
      · rename_i found hfound
        cases h
        split at hfound
        · exact ⟨i, scope, hscope, hi, hfound⟩
        · cases hfound
      · rename_i parent hnone hparent
        rcases holds_cases ht hi with ⟨-, hnone⟩ | ⟨around, haround, -, hholds, -⟩
        · rw [Scopes.parent?, hscope, Option.bind_some, hparent] at hnone
          cases hnone
        · rw [Scopes.parent?, hscope, Option.bind_some, hparent] at haround
          obtain rfl : parent = around := Option.some.inj haround
          exact exists_holding ht steps false parent hholds h
      · cases h

/-! ## Reasons for calls -/

/-- Whether an import statement of a text makes a call one of a command of a tracked module. -/
structure Grounds (tracked : Tracked.Set) (t w u : Tree) (command : String) (m : Member) : Prop where
  isNode : IsNode u t
  /-- The statement ends before the call begins. -/
  before : u.span.stop ≤ w.span.start
  /-- The call lies in the scope in which the statement stands. -/
  scope : ∃ scope, (resolve tracked t).scopes[(resolve tracked t).scopeAt u.span.start]? = some scope ∧
    w.span.Within scope.frame.region
  supplies : ∃ names, Calls w names ∧ ∃ item ∈ u.childrenIn .name,
    Supplies m.spec.path command u item names

/-- A scope that holds the start of a call of a name or of a dotted name holds the call. -/
theorem Visited.within_of_holds (ht : Sourced t) (hv : Visited tracked t v) (hcall : NamedCall v.tree)
    {scope : Scope} (hscope : (resolve tracked t).scopes[k]? = some scope)
    (hk : (resolve tracked t).holds v.tree.span.start k = true) :
    v.tree.span.Within scope.frame.region := by
  obtain ⟨inner, hinner, hwithin⟩ := hv.inside ht.ordered
  have hat := hv.scopeAt_start ht hcall
  obtain ⟨hholds, hlast⟩ := Scopes.scopeAt_spec hk
  rw [hat] at hholds hlast
  rw [resolve_getElem?] at hscope
  obtain ⟨frame, hframe, rfl⟩ := Option.map_eq_some_iff.1 hscope
  rcases Nat.lt_trichotomy k v.place.scope with hlt | rfl | hlt
  · exact hwithin.trans (region_within_of_holds ht.ordered hk hholds hlt hframe hinner)
  · rw [hinner] at hframe
    cases hframe
    exact hwithin
  · rw [hlast k hlt] at hk
    cases hk

/-- Each call that is found is that of a command which an import statement supplies. -/
theorem exists_grounds {source : List Char} {call : Edit.Call} (ht : Sourced t) (hw : Searched w 0 t)
    (hcall : call? source (resolve tracked t) w = some call) :
    ∃ m, tracked.members[call.place]? = some m ∧ ∃ u, Grounds tracked t w u call.command m := by
  obtain ⟨localName, after, b, hcalls, hlookup, htarget⟩ := exists_tracked_of_call? hcall
  have htracked := Binding.isTracked_of_target? htarget
  obtain ⟨v, hv, rfl, -⟩ := hw.visited tracked ht (.inl hcalls.1)
  have hlt := (start_lt_of_namedCall ht hv ⟨_, hcalls⟩).1
  have hoffset : v.tree.span.start < t.span.stop :=
    Nat.lt_of_lt_of_le hlt (ht.ordered.within hv.isNode).stop
  obtain ⟨k, scope, hscope, hholds, hvisible⟩ := exists_holding ht.ordered _ true _
    (Scopes.scopeAt_spec (holds_zero tracked hoffset)).1 hlookup
  -- The binding is one of the scope, so that an import statement made it there.
  obtain ⟨e, he, rfl, rfl, hle, -⟩ := exists_inner ht hscope hvisible htracked
  obtain ⟨hfound, rfl⟩ := (mem_scope_events hscope).1 he
  obtain ⟨u, hu, hkind, hdepth, hmade⟩ := Visited.whole.exists_import hfound htracked
  obtain ⟨⟨hplace, -⟩, hstop, -⟩ := importedEvents_at hmade
  obtain ⟨item, hitem, path, hpath, hsupplies⟩ := supplies_of_imported hkind hmade htarget
  obtain ⟨m, hm, rfl⟩ := Option.map_eq_some_iff.1 hpath
  refine ⟨m, hm, u.tree, hu.isNode, hstop ▸ hle, ⟨scope, ?_, ?_⟩, _, hcalls, item, hitem, hsupplies⟩
  · rw [hu.scopeAt_import ht hkind hdepth hmade, ← hplace]
    exact hscope
  · exact hv.within_of_holds ht ⟨_, hcalls⟩ hscope hholds

/-- Whether a span is that of the name of a keyword argument of a call. -/
def WritesKeyword (w : Tree) (name : String) (span : Span) : Prop :=
  ∃ arguments, w.child? .arguments = some arguments ∧ arguments.kind = .argumentList ∧
    ∃ a ∈ arguments.children, a.kind = .keywordArgument ∧
      ∃ id, a.child? .name = some id ∧ id.kind = .identifier ∧ id.text = name ∧ id.span = span

theorem writesKeyword_of_mem {source : List Char} {k : Edit.Keyword} (hk : k ∈ keywords source w) :
    WritesKeyword w k.name k.span := by
  obtain ⟨arguments, harguments, hkind, a, ha, hka⟩ : ∃ arguments,
      w.child? .arguments = some arguments ∧ arguments.kind = .argumentList ∧
        ∃ a ∈ arguments.children, keyword? source a = some k := by
    unfold keywords at hk
    split at hk
    · cases hk
    · split at hk
      · exact ⟨_, ‹_›, ‹_›, List.mem_filterMap.1 hk⟩
      · cases hk
  refine ⟨arguments, harguments, hkind, a, ha, ?_⟩
  unfold keyword? at hka
  split at hka
  · rename_i hargument
    split at hka
    · split at hka
      · cases hka
        exact ⟨hargument, _, ‹_›, ‹_›, rfl, rfl⟩
      · cases hka
    · cases hka
  · cases hka

end Scope

/-! ## Reasons for edits -/

namespace Rewrite

open Edit Text Syntax

/-- Whether a rename tells what an edit of a text does, and where. -/
structure Tells (source : List Char) (e : Edit) (rename : Rename) : Prop where
  short : slice? source e.span = some rename.short.toList
  long : e.text = rename.long.toList
  position : IsPosition source e.span.start rename.position

/-- Whether a call in a text gives a reason for an edit and a rename: the edit stands at a keyword of
the call, an import statement makes the callee a command of a tracked module, and the table for this
module has another name for the keyword. -/
structure Reason (tracked : Tracked.Set) (t w : Tree) (e : Edit) (rename : Rename) : Prop where
  searched : Scope.Searched w 0 t
  keyword : Scope.WritesKeyword w rename.short e.span
  grounds : ∃ m ∈ tracked.members, (∃ u, Scope.Grounds tracked t w u rename.command m) ∧
    (m.table.getD tracked.default).lookup rename.command rename.short = some rename.long
  ne : rename.long ≠ rename.short

/-- The rename of a change tells what its edit does, and there is a reason for them. -/
theorem reason_of_change {tracked : Tracked.Set} {source : List Char} {t : Tree}
    (h : parseChecked source = .ok t) {plan : Plan}
    (hplan : plan? tracked (Scope.calls source (Scope.resolve tracked t) t) = some plan) {c : Change}
    (hc : c ∈ plan.changes) :
    Tells source c.edit c.rename ∧ ∃ w, Reason tracked t w c.edit c.rename := by
  have hsourced := Scope.sourced_of_parseChecked h
  have htwin : (Draft.ofText source).Twin t t := by
    obtain ⟨hreads, rfl⟩ := reads_of_parseChecked h
    exact Draft.twin_parse hreads
  obtain ⟨k, ⟨done, todo, fuel, hsource, hstart, -, hkposition, -⟩, hspan, hposition, -⟩ :=
    exists_keyword htwin hplan hc
  refine ⟨⟨(fits_of_plan htwin hplan).slice c hc, rfl, ?_⟩, ?_⟩
  · rw [Change.edit, hspan, hposition, hkposition, hstart, hsource]
    exact isPosition_positionAt _ _
  obtain ⟨entries, hentries, hchanges, -⟩ := plan?_eq_some hplan
  rw [hchanges, mem_stableSort] at hc
  obtain ⟨call, hcall, k, hk, table, htable, hchange⟩ := mem_changes hentries hc
  obtain ⟨hspan, -, hcommand, hshort, hlookup, hne⟩ := change?_eq_some hchange
  obtain ⟨w, hw, hfound⟩ := Scope.mem_calls_iff.1 hcall
  obtain ⟨-, -, -, hkeywords⟩ := Draft.call?_eq_some hfound
  obtain ⟨m, hm, hgrounds⟩ := Scope.exists_grounds hsourced hw hfound
  have hown : m.table.getD tracked.default = table := by
    rw [Tracked.Set.table?, hm] at htable
    exact Option.some.inj htable
  refine ⟨w, hw, ?_, ⟨m, List.mem_of_getElem? hm, hcommand ▸ hgrounds, ?_⟩, hshort ▸ hne⟩
  · rw [hshort, Change.edit, hspan]
    exact Scope.writesKeyword_of_mem (hkeywords ▸ hk)
  · rw [hown, hcommand, hshort, hlookup]

/-- Each edit is justified.  The edits and the renames of the rewriting of an accepted text belong
together one by one, and there is a reason for each of them in the text. -/
theorem edits_justified (tracked : Tracked.Set) {source : String} {t : Tree}
    (h : parseChecked source.toList = .ok t) :
    ∃ r, ofSource tracked source = .ok r ∧ r.plan.edits.length = r.plan.renames.length ∧
      ∀ (i : Nat) e rename, r.plan.edits[i]? = some e → r.plan.renames[i]? = some rename →
        Tells source.toList e rename ∧ ∃ w, Reason tracked t w e rename := by
  obtain ⟨r, parts, hr, -⟩ := exists_drawn tracked h
  obtain ⟨hplan, -⟩ := plan_of_ofSource h hr
  refine ⟨r, hr, by simp [Plan.edits, Plan.renames], fun i e rename he hrename => ?_⟩
  rw [Plan.edits, List.getElem?_map] at he
  rw [Plan.renames, List.getElem?_map] at hrename
  obtain ⟨c, hc, rfl⟩ := Option.map_eq_some_iff.1 he
  rw [hc] at hrename
  cases hrename
  exact reason_of_change h hplan (List.mem_of_getElem? hc)

/-- The flags of a module that has its own. -/
def paintFlags : Flag.Table where
  commands := [("draw", [("n", "nodes"), ("w", "width")])]
  usable := by decide +kernel

/-- The flags of the others. -/
def listFlags : Flag.Table where
  commands := [("draw", [("n", "never")]), ("list", [("n", "names")])]
  usable := by decide +kernel

/-- A module with a table of its own and one without. -/
def paintAndList : Tracked.Set :=
  ⟨[⟨⟨"my.paint", "api"⟩, some paintFlags⟩, ⟨⟨"maya", "cmds"⟩, none⟩], listFlags⟩

/-- A command is called under another name, and one by way of its package in a function. -/
def twoModules : String :=
  "from my.paint.api import draw as d\nimport maya.other\ndef f():\n    maya.cmds.list(n=1)\nd(n=2)\n"

/-- The keyword of each call gets its name from the table of its module. -/
theorem edits_justified_of_twoModules : ∃ t r, parseChecked twoModules.toList = .ok t ∧
    ofSource paintAndList twoModules = .ok r ∧
    r.plan.renames.map (fun rename => (rename.command, rename.long)) =
      [("list", "names"), ("draw", "nodes")] ∧
    ∃ e rename, r.plan.edits[1]? = some e ∧ r.plan.renames[1]? = some rename ∧
      ∃ w, Reason paintAndList t w e rename := by
  obtain ⟨hfaultless, hrenames⟩ : (parse twoModules.toList).firstFault? 0 = none ∧
      (ofSource paintAndList twoModules).toOption.map (fun r => r.plan.renames.map fun rename =>
        (rename.command, rename.long)) = some [("list", "names"), ("draw", "nodes")] := by
    decide +kernel
  have hsource := parseChecked_of_faultless hfaultless
  obtain ⟨r, hr, hlength, hreasons⟩ := edits_justified paintAndList hsource
  rw [hr] at hrenames
  have hrenames := Option.some.inj hrenames
  have htwo : r.plan.renames.length = 2 := by
    simpa using congrArg List.length hrenames
  obtain ⟨e, he⟩ : ∃ e, r.plan.edits[1]? = some e :=
    ⟨_, List.getElem?_eq_getElem (by omega)⟩
  obtain ⟨rename, hrename⟩ : ∃ rename, r.plan.renames[1]? = some rename :=
    ⟨_, List.getElem?_eq_getElem (by omega)⟩
  exact ⟨_, r, hsource, hr, hrenames, e, rename, he, hrename, (hreasons 1 e rename he hrename).2⟩

end Rewrite

end Longhand
