import Longhand.Proofs.ScopeAt
import Longhand.Proofs.TrackedPath

/-!
# Ways to a module

A module can be imported as a whole, under another name, step by step from its packages, and command
by command.  Whichever way is taken, and wherever the path of the module is split between the import
statement and the call, the call is found to be one of the same command of the same module.
-/

namespace Longhand

namespace Tracked

open Scope (dotted)

namespace Set

variable {s : Set} {p q r : String}

/-- Whether no path of a set of modules is a part of another one at its beginning. -/
def Unnested (s : Set) : Prop :=
  ∀ p ∈ s.paths, ∀ q ∈ s.paths, pathNames p <+: pathNames q → p = q

/-- What is one name or more short of a module is a package, and no module. -/
theorem Unnested.package (h : s.Unnested) (hq : p ++ "." ++ r ∈ s.paths) :
    s.find? p = none ∧ s.hasPackage p = true := by
  constructor
  · rw [find?_eq_none_iff]
    intro hp
    have hsame := h p hp _ hq (pathNames_prefix_iff.2 (.inr ⟨r, rfl⟩))
    have hlength := congrArg String.length hsame
    rw [String.length_append, String.length_append] at hlength
    have hdot : ".".length = 1 := rfl
    omega
  · exact hasPackage_iff.2 ⟨r, hq⟩

/-- What goes on behind a module is no module. -/
theorem Unnested.not_below (h : s.Unnested) (hp : p ∈ s.paths) :
    s.find? (p ++ "." ++ r) = none := by
  rw [find?_eq_none_iff]
  intro hq
  exact find?_eq_none_iff.1 (h.package hq).1 hp

/-- The first names of the path of a module are those of a package, unless they are all. -/
theorem Unnested.take (h : s.Unnested) (hp : p ∈ s.paths) {k : Nat} (hpos : 0 < k)
    (hlt : k < (pathNames p).length) :
    s.find? (dotted ((pathNames p).take k)) = none ∧
      s.hasPackage (dotted ((pathNames p).take k)) = true := by
  apply h.package (r := dotted ((pathNames p).drop k))
  rw [← dotted_append, List.take_append_drop, dotted_pathNames]
  · exact hp
  · exact List.ne_nil_of_length_pos (by rw [List.length_take]; omega)
  · exact List.ne_nil_of_length_pos (by rw [List.length_drop]; omega)

end Set

/-- The path of a module has two names at least. -/
theorem Set.two_le {s : Set} {p : String} (hp : p ∈ s.paths) : 2 ≤ (pathNames p).length := by
  obtain ⟨member, -, rfl⟩ := List.mem_map.1 hp
  have hpackage := List.length_pos_iff.2 (pathNames_ne_nil member.spec.package)
  have hentry := List.length_pos_iff.2 (pathNames_ne_nil member.spec.entry)
  rw [Spec.path, pathNames_append, List.length_append]
  omega

end Tracked

namespace Scope

open Syntax Text Tracked

variable {tracked : Tracked.Set} {t u w item : Tree} {path command name localName : String}
  {names after : List String} {place offset k : Nat} {p : Place} {e : Event} {events : List Event}

/-! ## What a call stands for -/

/-- The path that a name stands for, if it stands for a module or a package. -/
def Binding.path? (tracked : Tracked.Set) : Binding → Option String
  | .module place => tracked.path? place
  | .package path => some path
  | _ => none

/-- The module and the command that a name stands for with some names behind it. -/
def Binding.target? (tracked : Tracked.Set) (after : List String) (b : Binding) :
    Option (Nat × String) :=
  match after.getLast? with
  | none =>
      match b with
      | .command place command => some (place, command)
      | _ => none
  | some command =>
      (b.path? tracked).bind fun path =>
        (tracked.find? (dotted (path :: after.dropLast))).map fun place => (place, command)

theorem Binding.isTracked_of_target? {b : Binding} {target : Nat × String}
    (h : b.target? tracked after = some target) : b.isTracked = true := by
  cases b with
  | untracked =>
      unfold target? at h
      split at h <;> cases h
  | _ => rfl

theorem resolveBare_eq (s : Scopes) (name : String) (offset : Nat) :
    s.resolveBare name offset = (s.lookup name offset).bind (Binding.target? s.tracked []) := by
  unfold Scopes.resolveBare
  cases s.lookup name offset with
  | none => rfl
  | some b => cases b <;> rfl

theorem resolveDotted_eq (s : Scopes) (name : String) (hne : after ≠ []) (offset : Nat) :
    s.resolveDotted (name :: after) offset =
      (s.lookup name offset).bind (Binding.target? s.tracked after) := by
  obtain ⟨rest, command, rfl⟩ := (List.eq_nil_or_concat' after).resolve_left hne
  unfold Scopes.resolveDotted
  split
  · rename_i heq
    cases heq
  · rename_i heq
    exact absurd (List.cons.inj heq).2 hne
  · rename_i head rest' _ heq
    obtain ⟨rfl, rfl⟩ := List.cons.inj heq
    cases s.lookup name offset with
    | none => simp
    | some b =>
        cases b with
        | module place =>
            cases hpath : s.tracked.path? place <;>
              simp [Binding.target?, Binding.path?, dotted, hpath]
        | _ => simp [Binding.target?, Binding.path?, dotted]

/-- There are two names at least in an expression with a dot. -/
theorem ne_nil_of_attribute (h : segments? t = some (name :: after)) (hkind : t.kind = .attribute) :
    after ≠ [] := by
  rintro rfl
  rcases segments_cases h with ⟨hidentifier, -⟩ | ⟨-, object, last, names, -, hobject, heq⟩ |
    ⟨hdotted, -⟩
  · rw [hkind] at hidentifier
    cases hidentifier
  · have hnil : names = [] := by
      have hlength := congrArg List.length heq
      rw [List.length_append, List.length_singleton, List.length_singleton] at hlength
      exact List.eq_nil_of_length_eq_zero (by omega)
    exact ne_nil_of_segments hobject hnil
  · rw [hkind] at hdotted
    cases hdotted

/-- What a call stands for is what its first name stands for with the other names behind it. -/
theorem callee?_eq {s : Scopes} (h : Calls w (name :: after)) :
    callee? s w =
      (s.lookup name w.span.start).bind (Binding.target? s.tracked after) := by
  obtain ⟨-, callee, hcallee, hkind, hsegments⟩ := h
  unfold callee?
  rw [hcallee]
  rcases hkind with hkind | hkind
  · rw [segments_of_identifier hkind] at hsegments
    cases hsegments
    simp only [hkind]
    exact resolveBare_eq s _ _
  · simp only [hkind, hsegments]
    exact resolveDotted_eq s name (ne_nil_of_attribute hsegments hkind) _

theorem Binding.target?_nil {b : Binding} {place : Nat} {command : String} :
    b.target? s [] = some (place, command) ↔ b = .command place command := by
  cases b <;> simp [Binding.target?]

/-! ## Modules of calls -/

/-- Only what is imported from a module is a command, and a command of that module. -/
theorem memberBinding_command {origin imported : String}
    (h : memberBinding tracked origin imported = .command place command) :
    tracked.find? origin = some place := by
  unfold memberBinding at h
  dsimp only at h
  split at h
  · cases h
  · split at h
    · rename_i horigin
      cases h
      exact horigin
    · split at h <;> cases h

theorem pathBinding_ne_command : pathBinding tracked path ≠ .command place command := by
  unfold pathBinding
  split
  · simp
  · split <;> simp

theorem find?_of_imported {root : Tree} {region : Span} (h : Imported tracked root region e)
    (hbinding : e.binding = .command place command) : ∃ q, tracked.find? q = some place := by
  obtain ⟨u, -, -, c, -, p, ⟨-, he⟩ | ⟨-, he⟩⟩ := h
  · unfold importEvents at he
    split at he
    · split at he
      · rw [List.mem_singleton.1 he, Place.event] at hbinding
        dsimp only at hbinding
        split at hbinding <;> cases hbinding
      · cases he
    · split at he
      · split at he
        · rw [List.mem_singleton.1 he] at hbinding
          exact absurd hbinding pathBinding_ne_command
        · cases he
      · cases he
    · cases he
  · unfold importFromEvents at he
    dsimp only at he
    split at he
    · cases he
    · rw [List.mem_singleton.1 he, Place.event] at hbinding
      dsimp only at hbinding
      split at hbinding
      · exact ⟨_, memberBinding_command hbinding⟩
      · cases hbinding

/-- The binding that a name stands for is a binding of a scope. -/
theorem exists_event_of_lookup {s : Scopes} {b : Binding} (h : s.lookup name offset = some b) :
    ∃ scope ∈ s.scopes, ∃ e ∈ scope.events, e.name = name ∧ e.offset ≤ offset ∧ e.binding = b := by
  obtain ⟨scope, hscope, hvisible⟩ := lookupFrom_eq_some h
  rw [visible?_eq] at hvisible
  obtain ⟨⟨newer, e⟩, hdeciding, rfl⟩ := Option.map_eq_some_iff.1 hvisible
  obtain ⟨⟨older, holder⟩, -⟩ := deciding?_eq_some hdeciding
  have hmem : e ∈ visibleEvents scope.events name offset := by
    rw [holder]
    exact List.mem_append_right _ List.mem_cons_self
  obtain ⟨hevents, hname, hle⟩ := mem_visibleEvents.1 hmem
  exact ⟨scope, hscope, e, hevents, hname, hle, rfl⟩

/-- The module that a call stands for is one of the set. -/
theorem exists_path_of_callee (ht : Sourced t) (hw : Calls w (name :: after))
    (h : callee? (resolve tracked t) w = some (place, command)) :
    ∃ q, tracked.path? place = some q := by
  rw [callee?_eq hw] at h
  obtain ⟨b, hlookup, htarget⟩ := Option.bind_eq_some_iff.1 h
  cases hlast : after.getLast? with
  | none =>
      have hnil : after = [] := List.getLast?_eq_none_iff.1 hlast
      subst hnil
      obtain ⟨scope, hscope, e, he, -, -, hbinding⟩ := exists_event_of_lookup hlookup
      rw [Binding.target?_nil.1 htarget] at hbinding
      obtain ⟨i, hi⟩ := List.mem_iff_getElem?.1 hscope
      obtain ⟨g, t', htwin⟩ := ht.twin
      have hsane : Sane tracked (framesOf tracked t) t ((wholeVisit t).found tracked) :=
        walk_sane htwin
      obtain ⟨frame, -, himported⟩ := hsane.events e ((mem_scope_events hi).1 he).1
      obtain ⟨q, hq⟩ := find?_of_imported (himported (by rw [hbinding]; rfl)) hbinding
      exact ⟨q, Set.path?_of_find? hq⟩
  | some last =>
      unfold Binding.target? at htarget
      rw [hlast] at htarget
      obtain ⟨q, -, hfound⟩ := Option.bind_eq_some_iff.1 htarget
      obtain ⟨found, hfind, heq⟩ := Option.map_eq_some_iff.1 hfound
      cases heq
      exact ⟨_, Set.path?_of_find? hfind⟩

/-! ## Ways -/

/-- Whether an item of a statement imports a name, and under which name. -/
inductive Brings (item : Tree) : String → String → Prop
  | plain : item.kind = .dottedName → Brings item item.text item.text
  | renamed {imported other : Tree} : item.kind = .aliasedImport →
      item.child? .name = some imported → item.child? .alias = some other →
      Brings item imported.text other.text

/-- Whether a statement imports from the module with some dotted name. -/
def ImportsFrom (u : Tree) (names : List String) : Prop :=
  u.kind = .importFromStatement ∧ ∃ origin, u.child? .moduleName = some origin ∧
    origin.kind = .dottedName ∧ segments? origin = some names

/-- The ways to a command of a module, by the names of its path: an item of an import statement, the
name that it binds, and the names that follow this one in a call of the command. -/
inductive Route (names : List String) (command : String) (u item : Tree) :
    String → List String → Prop
  /-- The path as a whole, all of which is written out in the call. -/
  | whole {first : String} {rest : List String} : u.kind = .importStatement →
      item.kind = .dottedName → segments? item = some names → names = first :: rest →
      Route names command u item first (rest ++ [command])
  /-- The first names of the path under another name. -/
  | renamed {first other : Tree} {k : Nat} : u.kind = .importStatement →
      item.kind = .aliasedImport → item.child? .name = some first →
      segments? first = some (names.take k) → item.child? .alias = some other → 0 < k →
      Route names command u item other.text (names.drop k ++ [command])
  /-- A name of the path from the package that the names before it are. -/
  | member {name localName : String} {k : Nat} : ImportsFrom u (names.take k) →
      names[k]? = some name → Brings item name localName → 0 < k →
      Route names command u item localName (names.drop (k + 1) ++ [command])
  /-- The command from the module. -/
  | command {localName : String} : ImportsFrom u names → Brings item command localName →
      Route names command u item localName []

theorem Route.isImport (h : Route names command u item localName after) :
    isImport u.kind = true := by
  cases h with
  | whole hu | renamed hu =>
      rw [hu]
      rfl
  | member hu | command hu =>
      rw [hu.1]
      rfl

theorem importFromEvents_of_brings (hu : ImportsFrom u names) (hitem : Brings item name localName) :
    importFromEvents tracked p offset (originPath? u) item =
      [p.event localName offset (memberBinding tracked (dotted names) name)] := by
  obtain ⟨-, origin, horigin, hkind, hsegments⟩ := hu
  have hpath : originPath? u = some (dotted names) := by
    unfold originPath?
    rw [horigin]
    dsimp only
    rw [if_pos hkind, hsegments]
    rfl
  rw [hpath]
  unfold importFromEvents
  cases hitem with
  | plain hitem => simp only [hitem]
  | renamed hitem himported hother => simp only [hitem, himported, hother]

/-! ## What a way leads to -/

/-- A path that is joined first reads the same. -/
theorem dotted_dotted (hne : names ≠ []) (rest : List String) :
    dotted (dotted names :: rest) = dotted (names ++ rest) := by
  by_cases hnil : rest = []
  · rw [hnil, List.append_nil]
    exact String.intercalate_singleton
  · rw [dotted_append hne hnil]
    exact String.intercalate_cons_of_ne_nil hnil

section Bindings

variable (h : tracked.Unnested) (hplace : tracked.find? path = some place)

include hplace in
/-- The rest of a path behind its first names, joined to them, is the path. -/
theorem find?_split {before rest : List String} (hne : before ≠ [])
    (hnames : pathNames path = before ++ rest) :
    tracked.find? (dotted (dotted before :: rest)) = some place := by
  rw [dotted_dotted hne, ← hnames, dotted_pathNames, hplace]

include h hplace in
/-- The first names of the path of a module lead to its commands by way of the other ones. -/
theorem pathBinding_target (hpos : 0 < k) :
    (pathBinding tracked (dotted ((pathNames path).take k))).target? tracked
      ((pathNames path).drop k ++ [command]) = some (place, command) := by
  unfold pathBinding Binding.target?
  by_cases hlt : k < (pathNames path).length
  · obtain ⟨hnone, hpackage⟩ := h.take (Set.mem_of_find? hplace) hpos hlt
    have hne : (pathNames path).take k ≠ [] :=
      List.ne_nil_of_length_pos (by rw [List.length_take]; omega)
    have hfind := find?_split hplace hne (List.take_append_drop k _).symm
    simp [hnone, hpackage, Binding.path?, hfind]
  · have hge := Nat.le_of_not_lt hlt
    have hfind := find?_split hplace (pathNames_ne_nil path) (List.append_nil _).symm
    rw [dotted_pathNames] at hfind
    rw [List.take_of_length_le hge, List.drop_of_length_le hge, dotted_pathNames, hplace]
    simp [Binding.path?, Set.path?_of_find? hplace, hfind]

include h hplace in
/-- A name of the path of a module, imported from the package before it, leads to its commands. -/
theorem memberBinding_target (hpos : 0 < k) (hname : (pathNames path)[k]? = some name) :
    (memberBinding tracked (dotted ((pathNames path).take k)) name).target? tracked
      ((pathNames path).drop (k + 1) ++ [command]) = some (place, command) := by
  obtain ⟨hlt, hget⟩ := List.getElem?_eq_some_iff.1 hname
  obtain ⟨hnone, -⟩ := h.take (Set.mem_of_find? hplace) hpos hlt
  have hne : (pathNames path).take k ≠ [] :=
    List.ne_nil_of_length_pos (by rw [List.length_take]; omega)
  have hpath : dotted ((pathNames path).take k) ++ "." ++ name =
      dotted ((pathNames path).take (k + 1)) := by
    rw [List.take_succ_eq_append_getElem hlt, dotted_append hne (List.cons_ne_nil _ _), hget]
    rfl
  rw [← pathBinding_target h hplace (Nat.succ_pos k), ← hpath, memberBinding, hnone]
  rfl

include h hplace in
/-- An item of an import statement on the way to a command binds a name to what leads there. -/
theorem Route.event (hitem : item ∈ u.childrenIn .name)
    (hroute : Route (pathNames path) command u item localName after) (p : Place) :
    ∃ e ∈ importedEvents tracked p u, e.scope = p.scope ∧ e.name = localName ∧
      e.offset = u.span.stop ∧ e.binding.target? tracked after = some (place, command) := by
  have ofImport : ∀ {b : Binding}, u.kind = .importStatement →
      importEvents tracked p u.span.stop item = [p.event localName u.span.stop b] →
      p.event localName u.span.stop b ∈ importedEvents tracked p u := by
    intro b hkind heq
    unfold importedEvents
    rw [hkind]
    exact List.mem_flatMap.2 ⟨item, hitem, by rw [heq]; exact List.mem_singleton.2 rfl⟩
  have ofMember : ∀ {names : List String} {name : String}, ImportsFrom u names →
      Brings item name localName →
      p.event localName u.span.stop (memberBinding tracked (dotted names) name) ∈
        importedEvents tracked p u := by
    intro names name hu hbrings
    unfold importedEvents
    rw [hu.1]
    refine List.mem_flatMap.2 ⟨item, hitem, ?_⟩
    rw [importFromEvents_of_brings hu hbrings]
    exact List.mem_singleton.2 rfl
  -- One case for each way in which an item leads on to the command.
  cases hroute with
  | @whole _ rest hu hkind hsegments hnames =>
      have htwo := Set.two_le (Set.mem_of_find? hplace)
      have hone : dotted [localName] = localName := String.intercalate_singleton
      obtain ⟨-, hpackage⟩ := h.take (Set.mem_of_find? hplace) Nat.zero_lt_one (by omega)
      rw [hnames, List.take_succ_cons, List.take_zero, hone] at hpackage
      refine ⟨_, ofImport (b := .package localName) hu ?_, rfl, rfl, rfl, ?_⟩
      · unfold importEvents
        simp only [hkind, hsegments, hnames, hpackage, if_true]
      · have hfind := find?_split hplace (List.cons_ne_nil localName []) hnames
        rw [hone] at hfind
        simp [Place.event, Binding.target?, Binding.path?, hfind]
  | renamed hu hkind hfirst hsegments hother hpos =>
      refine ⟨_, ofImport hu ?_, rfl, rfl, rfl, pathBinding_target h hplace hpos⟩
      unfold importEvents
      simp only [hkind, hfirst, hother, hsegments]
      rfl
  | member hu hname hbrings hpos =>
      exact ⟨_, ofMember hu hbrings, rfl, rfl, rfl, memberBinding_target h hplace hpos hname⟩
  | command hu hbrings =>
      refine ⟨_, ofMember hu hbrings, rfl, rfl, rfl, ?_⟩
      rw [Place.event, dotted_pathNames, memberBinding, h.not_below (Set.mem_of_find? hplace), hplace]
      rfl

end Bindings

/-! ## The only binding of a name -/

/-- The bindings of a name in the scope with a number. -/
def Scopes.bindings (s : Scopes) (id : Nat) (name : String) : List Event :=
  ((s.scopes[id]?.map Scope.events).getD []).filter fun e => e.name == name

/-- If a name has one binding at most, a tracked one, then that is what it stands for. -/
theorem visible?_of_only (he : e ∈ events) (htracked : e.binding.isTracked = true)
    (hle : e.offset ≤ offset) (honly : (events.filter fun f => f.name == e.name).length ≤ 1) :
    visible? events e.name offset = some e.binding := by
  have hmem : e ∈ events.filter fun f => f.name == e.name :=
    List.mem_filter.2 ⟨he, by simp⟩
  have hone : events.filter (fun f => f.name == e.name) = [e] := by
    obtain ⟨f, hf⟩ := List.length_eq_one_iff.1
      (Nat.le_antisymm honly (List.length_pos_of_mem hmem))
    rw [hf] at hmem ⊢
    rw [List.mem_singleton.1 hmem]
  have hvisible : events.reverse.filter (fun f => f.name == e.name && f.offset ≤ offset) = [e] := by
    rw [List.filter_congr fun f _ => Bool.and_comm _ _, ← List.filter_filter, List.filter_reverse,
      hone]
    simp [hle]
  unfold visible?
  rw [hvisible]
  simp [htracked]

theorem lookup_of_visible {s : Scopes} {scope : Scope} {b : Binding}
    (hscope : s.scopes[s.scopeAt offset]? = some scope)
    (hvisible : visible? scope.events name offset = some b) : s.lookup name offset = some b := by
  obtain ⟨steps, hsteps⟩ := Nat.exists_eq_add_one_of_ne_zero
    (Nat.ne_of_gt (Nat.zero_lt_of_lt (List.getElem?_eq_some_iff.1 hscope).1))
  rw [Scopes.lookup, hsteps, Scopes.lookupFrom, hscope]
  simp [hvisible]

/-! ## Import statements -/

/-- What the walk over a part of the tree finds is found by the walk over the whole tree. -/
theorem Visited.mem_events {v : Visit} (hv : Visited tracked t v)
    (he : e ∈ (v.found tracked).events) : e ∈ ((wholeVisit t).found tracked).events := by
  induction hv with
  | whole => exact he
  | next _ hw ih => exact ih (mem_walk_events.2 (.inr (.inr ⟨_, hw, he⟩)))

/-- The innermost scope at the start of an import statement is the one in which the statement was
visited. -/
theorem Visited.scopeAt_import {v : Visit} (ht : Sourced t) (hv : Visited tracked t v)
    (hkind : Scope.isImport v.tree.kind = true) (hdepth : v.place.depth ≤ depthLimit)
    (he : e ∈ importedEvents tracked v.place v.tree) :
    (resolve tracked t).scopeAt v.tree.span.start = v.place.scope := by
  have hordered := hv.ordered ht.ordered
  obtain ⟨-, c, hc, hlt, hle⟩ := importedEvents_behind (ht.node hv.isNode) hkind he
  have hwithin := hordered.within_child hc
  have hstart := hwithin.start
  have hstop := hwithin.stop
  refine hv.scopeAt_of_behind ht.ordered (by omega) fun k frame hk _ => ?_
  -- An import statement opens no scopes.
  rcases numbers_cases hordered hk with ⟨w, hw, -⟩ | ⟨-, frame, hopened⟩
  · rw [Visit.next, course_import hkind hdepth] at hw
    cases hw
  · have hpos := hopened.pos
    rw [course_import hkind hdepth] at hpos
    cases hpos

/-- The way to a command of a module does not matter.  Let no path of the tracked modules begin
another one.  If an import statement takes some way to a command, and a call behind it in the same
scope goes on from the name that the statement binds, which has no other binding there, then the call
is found to be one of that command of that module. -/
theorem routes_agree {source : List Char} (hsource : parseChecked source = .ok t)
    (hunnested : tracked.Unnested) (hplace : tracked.find? path = some place)
    (hu : Searched u 0 t) (hitem : item ∈ u.childrenIn .name)
    (hroute : Route (pathNames path) command u item localName after)
    (hcall : Calls w (localName :: after)) (hbehind : u.span.stop ≤ w.span.start)
    (hscope : (resolve tracked t).scopeAt w.span.start =
      (resolve tracked t).scopeAt u.span.start)
    (honly : ((resolve tracked t).bindings ((resolve tracked t).scopeAt u.span.start)
      localName).length ≤ 1) :
    callee? (resolve tracked t) w = some (place, command) ∧
      (Searched w 0 t →
        ⟨place, command, w.span, keywords source w⟩ ∈ calls source (resolve tracked t) t) := by
  have hsourced := sourced_of_parseChecked hsource
  have himport := hroute.isImport
  obtain ⟨v, hv, rfl, hdepth⟩ := hu.visited tracked hsourced (.inr himport)
  obtain ⟨e, he, hescope, rfl, heoffset, htarget⟩ := hroute.event hunnested hplace hitem v.place
  have hvscope := hv.scopeAt_import hsourced himport hdepth he
  obtain ⟨frame, hframe, -⟩ := hv.inside hsourced.ordered
  have hfound : (resolve tracked t).scopes[v.place.scope]? =
      some (scopeOf tracked t frame v.place.scope) := by
    rw [resolve_getElem?, hframe]
    rfl
  have hmem : e ∈ (scopeOf tracked t frame v.place.scope).events := by
    refine (mem_scope_events hfound).2 ⟨hv.mem_events (mem_walk_events.2 (.inl ?_)), hescope⟩
    rw [course_import himport hdepth]
    exact he
  have hlookup : (resolve tracked t).lookup e.name w.span.start = some e.binding := by
    rw [hvscope] at hscope honly
    refine lookup_of_visible (by rw [hscope]; exact hfound) ?_
    refine visible?_of_only hmem (Binding.isTracked_of_target? htarget) (by omega) ?_
    rw [Scopes.bindings, hfound] at honly
    exact honly
  have hfinal : callee? (resolve tracked t) w = some (place, command) := by
    rw [callee?_eq hcall, hlookup]
    exact htarget
  refine ⟨hfinal, fun hw => mem_calls_iff.2 ⟨w, hw, ?_⟩⟩
  rw [call?, if_pos hcall.1, hfinal]

/-- An import of a package under another name. -/
def packageImport : List Char :=
  "import maya as m\nm.cmds.ls(l=1)\n".toList

/-- The call goes on from the package to the module. -/
theorem routes_agree_package : mayaCmds.Unnested ∧ mayaCmds.find? "maya.cmds" = some 0 ∧
    ∃ t, parseChecked packageImport = .ok t ∧ ∃ u ∈ t.children, ∃ item ∈ u.childrenIn .name,
      Route ["maya", "cmds"] "ls" u item "m" ["cmds", "ls"] ∧
      ∃ s ∈ t.children, ∃ w ∈ s.children, Calls w ["m", "cmds", "ls"] ∧
        callee? (resolve mayaCmds t) w = some (0, "ls") := by
  have hunnested : mayaCmds.Unnested := by
    intro p hp q hq _
    rw [List.mem_singleton.1 hp, List.mem_singleton.1 hq]
  obtain ⟨hplace, hnames⟩ : mayaCmds.find? "maya.cmds" = some 0 ∧
      pathNames "maya.cmds" = ["maya", "cmds"] := by
    decide +kernel
  obtain ⟨hfaultless, hscope, honly, ⟨u, hu, item, hitem, huspan, hukind, hkind, hfirst, hother⟩,
      s, hs, w, hw, hwspan, hwkind, hcallee, hattribute⟩ :
      (parse packageImport).firstFault? 0 = none ∧
      (resolve mayaCmds (parse packageImport)).scopeAt 17 =
        (resolve mayaCmds (parse packageImport)).scopeAt 0 ∧
      ((resolve mayaCmds (parse packageImport)).bindings
        ((resolve mayaCmds (parse packageImport)).scopeAt 0) "m").length ≤ 1 ∧
      (∃ u ∈ (parse packageImport).children, ∃ item ∈ u.childrenIn .name, u.span = ⟨0, 16⟩ ∧
        u.kind = .importStatement ∧ item.kind = .aliasedImport ∧
        (item.child? .name).bind segments? = some ["maya"] ∧
        (item.child? .alias).map Tree.text = some "m") ∧
      ∃ s ∈ (parse packageImport).children, ∃ w ∈ s.children, w.span = ⟨17, 31⟩ ∧ w.kind = .call ∧
        (w.child? .callee).bind segments? = some ["m", "cmds", "ls"] ∧
        (w.child? .callee).map Tree.kind = some .attribute := by
    decide +kernel
  have hsource : parseChecked packageImport = .ok (parse packageImport) :=
    parseChecked_of_faultless hfaultless
  obtain ⟨first, hchild, hsegments⟩ := Option.bind_eq_some_iff.1 hfirst
  obtain ⟨other, halias, hm⟩ := Option.map_eq_some_iff.1 hother
  obtain ⟨callee, hfound, hdotted⟩ := Option.bind_eq_some_iff.1 hcallee
  have hroute : Route ["maya", "cmds"] "ls" u item "m" ["cmds", "ls"] :=
    hm ▸ .renamed (k := 1) hukind hkind hchild hsegments halias Nat.zero_lt_one
  have hcall : Calls w ["m", "cmds", "ls"] := by
    rw [hfound] at hattribute
    exact ⟨hwkind, callee, hfound, .inr (Option.some.inj hattribute), hdotted⟩
  have hsearched : Searched u 0 (parse packageImport) :=
    .inside (Nat.zero_le _) hu (.here (by decide))
  refine ⟨hunnested, hplace, parse packageImport, hsource, u, hu, item, hitem, hroute, s, hs, w, hw,
    hcall, (routes_agree hsource hunnested hplace hsearched hitem (hnames ▸ hroute) hcall ?_ ?_
      ?_).1⟩
  · rw [huspan, hwspan]
    decide
  · rw [huspan, hwspan]
    exact hscope
  · rw [huspan]
    exact honly

/-- A module in a package whose imports are a kind of statement of its own. -/
def futureModule : Tracked.Set :=
  ⟨[⟨⟨"__future__", "x"⟩, none⟩], default⟩

def futureImport : List Char :=
  "from __future__ import x\nx.f(a=1)\n".toList

/-- A statement inside others, two levels deeper for each of them. -/
def nested (t : Tree) : Nat → Tree
  | 0 => t
  | n + 1 =>
      .node .whileStatement none t.span ""
        [.node .true none ⟨t.span.start, t.span.start⟩ "" [],
          .node .block (some .body) t.span "" [nested t n]]

/-- Neither an import from that package binds a name, nor one that is too deep in the tree. -/
theorem import_unseen :
    (∃ t, parseChecked futureImport = .ok t ∧ futureModule.Unnested ∧
      futureModule.find? "__future__.x" = some 0 ∧
      ∃ u ∈ t.children, slice? futureImport u.span = some "from __future__ import x".toList ∧
      ∃ s ∈ t.children, ∃ w ∈ s.children, Calls w ["x", "f"] ∧ u.span.stop ≤ w.span.start ∧
        (resolve futureModule t).scopeAt w.span.start =
          (resolve futureModule t).scopeAt u.span.start ∧
        (resolve futureModule t).bindings ((resolve futureModule t).scopeAt u.span.start) "x" = [] ∧
        callee? (resolve futureModule t) w = none) ∧
    ∃ u ∈ (parse packageImport).children, ∃ s ∈ (parse packageImport).children, ∃ w ∈ s.children,
      callee? (resolve mayaCmds (.node .module none ⟨0, 31⟩ "" [nested u 511, s])) w =
        some (0, "ls") ∧
      callee? (resolve mayaCmds (.node .module none ⟨0, 31⟩ "" [nested u 512, s])) w = none := by
  -- The import from the future, and then the one that is one level too deep.
  constructor
  · have hunnested : futureModule.Unnested := by
      intro p hp q hq _
      rw [List.mem_singleton.1 hp, List.mem_singleton.1 hq]
    obtain ⟨hfaultless, hplace, hslice, hscope, hbindings, u, hu, s, hs, w, hw, huspan, hwspan,
        hwkind, hcallee, hattribute, hnone⟩ :
        (parse futureImport).firstFault? 0 = none ∧
        futureModule.find? "__future__.x" = some 0 ∧
        slice? futureImport ⟨0, 24⟩ = some "from __future__ import x".toList ∧
        (resolve futureModule (parse futureImport)).scopeAt 25 =
          (resolve futureModule (parse futureImport)).scopeAt 0 ∧
        (resolve futureModule (parse futureImport)).bindings
          ((resolve futureModule (parse futureImport)).scopeAt 0) "x" = [] ∧
        ∃ u ∈ (parse futureImport).children, ∃ s ∈ (parse futureImport).children,
          ∃ w ∈ s.children, u.span = ⟨0, 24⟩ ∧ w.span = ⟨25, 33⟩ ∧ w.kind = .call ∧
          (w.child? .callee).bind segments? = some ["x", "f"] ∧
          (w.child? .callee).map Tree.kind = some .attribute ∧
          callee? (resolve futureModule (parse futureImport)) w = none := by
      decide +kernel
    obtain ⟨callee, hfound, hdotted⟩ := Option.bind_eq_some_iff.1 hcallee
    rw [hfound] at hattribute
    refine ⟨parse futureImport, parseChecked_of_faultless hfaultless, hunnested, hplace, u, hu, ?_,
      s, hs, w, hw, ⟨hwkind, callee, hfound, .inr (Option.some.inj hattribute), hdotted⟩, ?_, ?_,
      ?_, hnone⟩
    · rw [huspan]
      exact hslice
    · rw [huspan, hwspan]
      decide
    · rw [huspan, hwspan]
      exact hscope
    · rw [huspan]
      exact hbindings
  · decide +kernel

end Scope

end Longhand
