import Longhand.Proofs.Search

/-!
# Scopes at an offset

The scopes whose regions hold an offset are the innermost one and those around it.  A call of a name
or of a dotted name begins in front of all scopes inside it, so that the innermost scope at its start
is the one in which the walk has visited it.
-/

namespace Longhand.Scope

open Syntax Text

variable {tracked : Tracked.Set} {t u c : Tree} {offset j k : Nat} {v w : Visit} {frame : Frame}
  {name : String} {names : List String} {s : Scopes} {scope : Scope}

/-! ## The innermost scope -/

namespace Scopes

/-- Whether the region of the scope with a number holds an offset. -/
def holds (s : Scopes) (offset id : Nat) : Bool :=
  (s.scopes[id]?).any fun scope => scope.frame.region.contains offset

/-- The scopes whose regions hold an offset, the last one first. -/
def around (s : Scopes) (offset : Nat) : List Nat :=
  (List.range s.scopes.length).reverse.filter (s.holds offset)

/-- The scope around a scope. -/
def parent? (s : Scopes) (id : Nat) : Option Nat :=
  (s.scopes[id]?).bind fun scope => scope.frame.parent

/-- A scope and those around it from the inside out, at most some number of them. -/
def outward (s : Scopes) : Nat → Nat → List Nat
  | 0, _ => []
  | steps + 1, id =>
      match s.parent? id with
      | some parent => id :: outward s steps parent
      | none => [id]

theorem holds_iff : s.holds offset k = true ↔
    ∃ scope, s.scopes[k]? = some scope ∧ scope.frame.region.contains offset = true := by
  simp [holds, Option.any_eq_true]

theorem holds_lt (h : s.holds offset k = true) : k < s.scopes.length := by
  obtain ⟨scope, hscope, -⟩ := holds_iff.1 h
  exact (List.getElem?_eq_some_iff.1 hscope).1

/-- The innermost scope at an offset holds it, and no later one does. -/
theorem scopeAt_spec (h : s.holds offset k = true) :
    s.holds offset (s.scopeAt offset) = true ∧
      ∀ j, s.scopeAt offset < j → s.holds offset j = false := by
  obtain ⟨scope, hscope, hcontains⟩ := holds_iff.1 h
  unfold scopeAt
  cases hfind : s.scopes.reverse.findIdx? fun scope => scope.frame.region.contains offset with
  | none =>
      have hnone := List.findIdx?_eq_none_iff.1 hfind scope
        (List.mem_reverse.2 (List.mem_of_getElem? hscope))
      rw [hcontains] at hnone
      cases hnone
  | some i =>
      obtain ⟨hi, hfound, hbefore⟩ := List.findIdx?_eq_some_iff_getElem.1 hfind
      rw [List.length_reverse] at hi
      rw [List.getElem_reverse] at hfound
      rw [Option.getD_some]
      constructor
      · exact holds_iff.2 ⟨_, List.getElem?_eq_getElem (by omega), hfound⟩
      · intro j hj
        rw [Bool.eq_false_iff]
        intro hholds
        obtain ⟨later, hlater, hcontains'⟩ := holds_iff.1 hholds
        obtain ⟨hlt, rfl⟩ := List.getElem?_eq_some_iff.1 hlater
        have hnot := hbefore (s.scopes.length - 1 - j) (by omega)
        rw [List.getElem_reverse] at hnot
        have hindex : s.scopes.length - 1 - (s.scopes.length - 1 - j) = j := by omega
        simp only [hindex] at hnot
        exact hnot hcontains'

theorem scopeAt_eq (h : s.holds offset k = true)
    (hlater : ∀ j, k < j → s.holds offset j = false) : s.scopeAt offset = k := by
  obtain ⟨hholds, hlast⟩ := scopeAt_spec h
  rcases Nat.lt_trichotomy (s.scopeAt offset) k with hlt | heq | hlt
  · rw [hlast k hlt] at h
    cases h
  · exact heq
  · rw [hlater _ hlt] at hholds
    cases hholds

end Scopes

/-- Numbers at the end of a range that are left out do not matter. -/
theorem filter_range {P : Nat → Bool} (hle : j ≤ k)
    (h : ∀ i, j ≤ i → i < k → P i = false) :
    (List.range k).reverse.filter P = (List.range j).reverse.filter P := by
  induction k, hle using Nat.le_induction with
  | base => rfl
  | succ k hle ih =>
      have hk : P k = false := h k hle (Nat.lt_succ_self k)
      rw [List.range_succ, List.reverse_append, List.reverse_singleton, List.singleton_append,
        List.filter_cons_of_neg (by simp [hk])]
      exact ih fun i hi hik => h i hi (Nat.lt_succ_of_lt hik)

/-! ## The scopes of a tree -/

theorem resolve_holds : (resolve tracked t).holds offset k = true ↔
    ∃ frame, (framesOf tracked t)[k]? = some frame ∧ frame.region.contains offset = true := by
  rw [Scopes.holds_iff, resolve_getElem?]
  constructor
  · rintro ⟨scope, hscope, hcontains⟩
    obtain ⟨frame, hframe, rfl⟩ := Option.map_eq_some_iff.1 hscope
    exact ⟨frame, hframe, hcontains⟩
  · rintro ⟨frame, hframe, hcontains⟩
    exact ⟨_, Option.map_eq_some_iff.2 ⟨frame, hframe, rfl⟩, hcontains⟩

theorem resolve_parent? (k : Nat) :
    (resolve tracked t).parent? k = ((framesOf tracked t)[k]?).bind Frame.parent := by
  rw [Scopes.parent?, resolve_getElem?]
  cases (framesOf tracked t)[k]? <;> rfl

/-- The scope of the whole text holds all offsets. -/
theorem holds_zero (tracked : Tracked.Set) (hoffset : offset < t.span.stop) :
    (resolve tracked t).holds offset 0 = true :=
  resolve_holds.2 ⟨moduleFrame t, rfl, Span.contains_iff.2 ⟨Nat.zero_le _, hoffset⟩⟩

/-- A scope that holds an offset is that of the whole text, or the one around it holds the offset too
and is the next one that does. -/
theorem holds_cases (ht : Ordered t) (h : (resolve tracked t).holds offset k = true) :
    (k = 0 ∧ (resolve tracked t).parent? k = none) ∨
      ∃ parent, (resolve tracked t).parent? k = some parent ∧ parent < k ∧
        (resolve tracked t).holds offset parent = true ∧
          ∀ j, parent < j → j < k → (resolve tracked t).holds offset j = false := by
  obtain ⟨frame, hframe, hcontains⟩ := resolve_holds.1 h
  rw [resolve_parent?, hframe, Option.bind_some]
  by_cases hk : 0 < k
  · obtain ⟨parent, hparent, hlt, ⟨outer, houter, hwithin⟩, hbetween⟩ := parent_spec ht hframe hk
    refine .inr ⟨parent, hparent, hlt, resolve_holds.2 ⟨outer, houter, hwithin.contains hcontains⟩,
      fun j hj hjk => ?_⟩
    rw [Bool.eq_false_iff]
    intro hholds
    obtain ⟨frame', hframe', hcontains'⟩ := resolve_holds.1 hholds
    rw [(hbetween j frame' hj hjk hframe').not_contains hcontains'] at hcontains
    cases hcontains
  · obtain rfl : k = 0 := by omega
    cases hframe
    exact .inl ⟨rfl, rfl⟩

/-- Of the scopes up to one that holds an offset, those that hold it are that scope and the ones
around it. -/
theorem filter_eq_outward (ht : Ordered t) : ∀ (steps k : Nat), k < steps →
    (resolve tracked t).holds offset k = true →
    (List.range (k + 1)).reverse.filter ((resolve tracked t).holds offset) =
      (resolve tracked t).outward steps k
  | 0, _, hk, _ => by cases hk
  | steps + 1, k, hk, h => by
      rw [List.range_succ, List.reverse_append, List.reverse_singleton, List.singleton_append,
        List.filter_cons_of_pos h, Scopes.outward]
      rcases holds_cases ht h with ⟨rfl, hnone⟩ | ⟨parent, hparent, hlt, hholds, hbetween⟩
      · rw [hnone]
        rfl
      · rw [hparent, filter_range hlt fun i hi hik => hbetween i hi hik,
          filter_eq_outward ht steps parent (by omega) hholds]

/-- The scopes at an offset are the innermost one and those around it. -/
theorem around_eq_outward (ht : Ordered t) (hoffset : offset < t.span.stop) :
    (resolve tracked t).around offset = (resolve tracked t).outward
      (resolve tracked t).scopes.length ((resolve tracked t).scopeAt offset) := by
  obtain ⟨hholds, hlast⟩ := Scopes.scopeAt_spec (holds_zero tracked hoffset)
  have hlt := Scopes.holds_lt hholds
  rw [Scopes.around, filter_range (Nat.succ_le_of_lt hlt) fun i hi _ => hlast i hi]
  exact filter_eq_outward ht _ _ hlt hholds

/-! ## The bindings that are looked at -/

/-- Whether some scopes have the regions of others, and the bindings of those that hold an
offset. -/
structure Agree (s s' : Scopes) (offset : Nat) : Prop where
  frames : s.scopes.map Scope.frame = s'.scopes.map Scope.frame
  events : ∀ (k : Nat) scope scope', s.scopes[k]? = some scope → s'.scopes[k]? = some scope' →
    scope'.frame.region.contains offset = true → scope.events = scope'.events

namespace Agree

variable {s' : Scopes}

theorem frame_eq (h : Agree s s' offset) (k : Nat) :
    (s.scopes[k]?).map Scope.frame = (s'.scopes[k]?).map Scope.frame := by
  rw [← List.getElem?_map, ← List.getElem?_map, h.frames]

theorem holds_eq (h : Agree s s' offset) (k : Nat) : s.holds offset k = s'.holds offset k := by
  have hany : ∀ s : Scopes, s.holds offset k =
      ((s.scopes[k]?).map Scope.frame).any fun frame => frame.region.contains offset := by
    intro s
    rw [Scopes.holds]
    cases s.scopes[k]? <;> rfl
  rw [hany, hany, h.frame_eq]

/-- Bindings of scopes that do not hold an offset are not looked at. -/
theorem lookupFrom_eq (ht : Ordered t) (h : Agree s (resolve tracked t) offset) :
    ∀ (steps : Nat) (innermost : Bool) (k : Nat), (resolve tracked t).holds offset k = true →
      s.lookupFrom name offset steps innermost k =
        (resolve tracked t).lookupFrom name offset steps innermost k
  | 0, _, _, _ => rfl
  | steps + 1, innermost, k, hk => by
      obtain ⟨scope', hscope', hcontains⟩ := Scopes.holds_iff.1 hk
      have hframe := h.frame_eq k
      rw [hscope', Option.map_some] at hframe
      obtain ⟨scope, hscope, hframe⟩ := Option.map_eq_some_iff.1 hframe
      have hevents := h.events k scope scope' hscope hscope' hcontains
      have hparent : (resolve tracked t).parent? k = scope'.frame.parent := by
        rw [Scopes.parent?, hscope']
        rfl
      have houter : ∀ parent, scope'.frame.parent = some parent →
          (resolve tracked t).holds offset parent = true := by
        intro parent heq
        rcases holds_cases ht hk with ⟨-, hnone⟩ | ⟨parent', hsome, -, hholds, -⟩
        · rw [hparent, heq] at hnone
          cases hnone
        · rw [hparent, heq] at hsome
          cases hsome
          exact hholds
      rw [Scopes.lookupFrom, Scopes.lookupFrom, hscope, hscope']
      dsimp only
      rw [hframe, hevents]
      cases hhere : (if (innermost || decide (scope'.frame.kind ≠ .classBody)) = true then
        visible? scope'.events name offset else none) with
      | some b => rfl
      | none =>
          cases hout : scope'.frame.parent with
          | none => rfl
          | some parent => exact lookupFrom_eq ht h steps false parent (houter parent hout)

theorem lookup_eq (ht : Ordered t) (hoffset : offset < t.span.stop)
    (h : Agree s (resolve tracked t) offset) :
    s.lookup name offset = (resolve tracked t).lookup name offset := by
  obtain ⟨hholds, hlast⟩ := Scopes.scopeAt_spec (holds_zero tracked hoffset)
  have hscopeAt : s.scopeAt offset = (resolve tracked t).scopeAt offset := by
    refine Scopes.scopeAt_eq (by rw [h.holds_eq, hholds]) fun j hj => ?_
    rw [h.holds_eq, hlast j hj]
  have hlength : s.scopes.length = (resolve tracked t).scopes.length := by
    have := congrArg List.length h.frames
    rwa [List.length_map, List.length_map] at this
  rw [Scopes.lookup, Scopes.lookup, hscopeAt, hlength]
  exact lookupFrom_eq ht h _ _ _ hholds

end Agree

/-! ## Calls -/

/-- Whether a node is a call of a name or of a dotted name. -/
def Calls (u : Tree) (names : List String) : Prop :=
  u.kind = .call ∧ ∃ callee, u.child? .callee = some callee ∧
    (callee.kind = .identifier ∨ callee.kind = .attribute) ∧ segments? callee = some names

/-- Whether a node is a call whose callee is some name or dotted name. -/
def NamedCall (u : Tree) : Prop :=
  ∃ names, Calls u names

theorem segments_of_identifier (h : t.kind = .identifier) : segments? t = some [t.text] := by
  obtain ⟨kind, role, span, text, children⟩ := t
  cases h
  rfl

/-- All calls that are found are of this form. -/
theorem namedCall_of_call? {source : List Char} {call : Edit.Call}
    (h : call? source s u = some call) : NamedCall u ∧ call.span = u.span := by
  obtain ⟨hkind, hcallee, hspan, -⟩ := Draft.call?_eq_some h
  unfold callee? at hcallee
  split at hcallee
  · cases hcallee
  · rename_i callee hfound
    have calls : ∀ {names : List String}, (callee.kind = .identifier ∨ callee.kind = .attribute) →
        segments? callee = some names → NamedCall u :=
      fun hname hsegments => ⟨_, hkind, callee, hfound, hname, hsegments⟩
    refine ⟨?_, hspan⟩
    split at hcallee
    · rename_i hname
      exact calls (.inl hname) (segments_of_identifier hname)
    · rename_i hattribute
      split at hcallee
      · cases hcallee
      · rename_i hsegments
        exact calls (.inr hattribute) hsegments
    · cases hcallee

/-- A dotted expression is a name, a dotted expression with a name behind it, or the dotted name of
an import statement. -/
theorem segments_cases (h : segments? t = some names) :
    (t.kind = .identifier ∧ names = [t.text]) ∨
      (t.kind = .attribute ∧ ∃ object name names', t.children = [object, name] ∧
        segments? object = some names' ∧ names = names' ++ [name.text]) ∨
      (t.kind = .dottedName ∧ ∃ c ∈ t.children, c.kind = .identifier) := by
  obtain ⟨kind, role, span, text, children⟩ := t
  unfold segments? at h
  split at h
  · exact .inl ⟨rfl, (Option.some.inj h).symm⟩
  · split at h
    · rename_i object name
      cases hobject : segments? object with
      | none =>
          rw [hobject] at h
          cases h
      | some names' =>
          rw [hobject] at h
          exact .inr (.inl ⟨rfl, object, name, names', rfl, hobject, (Option.some.inj h).symm⟩)
    · cases h
  · dsimp only at h
    split at h
    · cases h
    · rename_i hne
      rw [List.isEmpty_iff, List.map_eq_nil_iff] at hne
      obtain ⟨c, hc⟩ := List.exists_mem_of_ne_nil _ hne
      obtain ⟨hmem, hkind⟩ := List.mem_filter.1 hc
      exact .inr (.inr ⟨rfl, c, hmem, by simpa using hkind⟩)
  · cases h

theorem ne_nil_of_segments (h : segments? t = some names) : names ≠ [] := by
  rintro rfl
  obtain ⟨kind, role, span, text, children⟩ := t
  unfold segments? at h
  split at h
  · cases h
  · split at h
    · split at h
      · cases h
      · simp at h
    · cases h
  · dsimp only at h
    split at h
    · cases h
    · rename_i hne
      rw [Option.some.inj h] at hne
      exact hne rfl
  · cases h

/-- There is a name in a dotted expression. -/
theorem exists_name {t : Tree} {names : List String} (h : segments? t = some names) :
    ∃ u, IsNode u t ∧ u.kind = .identifier := by
  rcases segments_cases h with ⟨hkind, -⟩ | ⟨-, object, name, names', hcs, hobject, -⟩ |
    ⟨-, c, hc, hkind⟩
  · exact ⟨t, .self, hkind⟩
  · have hmem : object ∈ t.children := by simp [hcs]
    have _ := sizeOf_child hmem
    obtain ⟨u, hu, hkind⟩ := exists_name hobject
    exact ⟨u, .inside hmem hu, hkind⟩
  · exact ⟨c, .child hc, hkind⟩
termination_by sizeOf t

/-- A leaf opens no scopes, unless it is one as a whole. -/
theorem not_numbers_of_leaf (ht : Ordered v.tree) (hleaf : v.tree.children = [])
    (hkind : isComprehension v.tree.kind = false) : ¬ v.Numbers tracked k := by
  intro hk
  have none : ∀ {c : Tree}, c ∉ v.tree.children := by
    intro c hc
    rw [hleaf] at hc
    cases hc
  rcases numbers_cases ht hk with ⟨w, hw, -⟩ | ⟨-, frame, hopened⟩
  · rcases mem_next_tree hw with hmem | ⟨b, hb, -⟩
    · exact none hmem
    · exact none hb
  · have hpos := hopened.pos
    rcases course_opens tracked v.place v.numbering v.tree with ⟨hframes, -⟩ | ⟨h, -⟩ |
      ⟨k, b, -, hbody, -⟩
    · rw [hframes] at hpos
      cases hpos
    · rw [hkind] at h
      cases h
    · exact none (Draft.child?_eq_some hbody).1

/-- What is opened inside a node of a kind that opens nothing by itself is opened inside a child. -/
theorem numbers_child (ht : Ordered v.tree) (hk : v.Numbers tracked k)
    (hkind : v.tree.kind = .attribute ∨ v.tree.kind = .dottedName ∨ v.tree.kind = .call) :
    ∃ w ∈ v.next tracked, w.Numbers tracked k ∧ w.tree ∈ v.tree.children := by
  have hcourse : (course tracked v.place v.numbering v.tree).opened.frames = [] ∧
      ∀ w ∈ v.next tracked, w.tree ∈ v.tree.children := by
    have hplain : isImport v.tree.kind = false ∧ isComprehension v.tree.kind = false ∧
        isBranching v.tree.kind = false ∧ scopeOver? v.tree.kind = none := by
      rcases hkind with hkind | hkind | hkind <;> rw [hkind] <;> exact ⟨rfl, rfl, rfl, rfl⟩
    obtain ⟨himport, hcomprehension, hbranch, hscope⟩ := hplain
    unfold Visit.next course
    simp only [himport, hcomprehension, hbranch, hscope]
    split
    · exact ⟨rfl, fun _ h => nomatch h⟩
    · refine ⟨rfl, fun w hw => ?_⟩
      simp only [Bool.false_eq_true, if_false, Course.next, List.append_nil] at hw
      have htree := List.mem_map_of_mem (f := Visit.tree) hw
      rw [visitsAll_trees] at htree
      exact (List.mem_filter.1 htree).1
  rcases numbers_cases ht hk with ⟨w, hw, hnumbers⟩ | ⟨-, frame, hopened⟩
  · exact ⟨w, hw, hnumbers, hcourse.2 w hw⟩
  · have hpos := hopened.pos
    rw [hcourse.1] at hpos
    cases hpos

/-- The scopes that are opened inside a dotted expression begin behind its start. -/
theorem start_lt_of_segments (ht : Sourced t) (hv : Visited tracked t v)
    (hsegments : segments? v.tree = some names) (hk : v.Numbers tracked k)
    (hframe : (framesOf tracked t)[k]? = some frame) :
    v.tree.span.start < frame.region.start := by
  -- By induction on the walk, for the expression before the last dot is dotted itself.
  revert hv hsegments hk names
  refine Visit.induction tracked (P := fun v => ∀ {names : List String}, Visited tracked t v →
    segments? v.tree = some names → v.Numbers tracked k →
      v.tree.span.start < frame.region.start) (fun v ih names hv hsegments hk => ?_) v
  have hsourced := ht.node hv.isNode
  have hordered := hsourced.ordered
  obtain ⟨g, t', htwin⟩ := hsourced.twin
  rcases segments_cases hsegments with ⟨hkind, -⟩ |
    ⟨hkind, object, name, names', hchildren, hnames', -⟩ | ⟨hkind, -⟩
  · -- A name has no children.
    have hleaf : v.tree.children = [] := by
      by_contra hne
      have hshaped := htwin.shaped hne (by simp [hkind])
      rw [hkind] at hshaped
      exact hshaped
    exact absurd hk (not_numbers_of_leaf hordered hleaf (by rw [hkind]; rfl))
  · obtain ⟨w, hw, hnumbers, hchild⟩ := numbers_child hordered hk (.inl hkind)
    have hmem : object ∈ v.tree.children := by simp [hchildren]
    have hstart := (hordered.within_child hmem).start
    rw [hchildren] at hchild
    rcases List.mem_cons.1 hchild with heq | hchild
    · have hlt := ih w hw (hv.next hw) (heq ▸ hnames') hnumbers
      rw [heq] at hlt
      omega
    · -- Behind the expression before the last dot.
      have heq := List.mem_singleton.1 hchild
      obtain ⟨i, hi, hidentifier⟩ := exists_name hnames'
      have hlt := (hsourced.child hmem).lt_of_identifier hi hidentifier
      have hregion := ((hv.next hw).region_within ht.ordered hnumbers hframe).start
      have hpairwise := hordered.pairwise
      rw [hchildren] at hpairwise
      have hle := (List.pairwise_cons.1 hpairwise).1 name List.mem_cons_self
      rw [heq] at hregion
      omega
  · -- The names of a dotted name are leaves.
    obtain ⟨w, hw, hnumbers, hchild⟩ := numbers_child hordered hk (.inr (.inl hkind))
    have hleaf : w.tree.kind = .identifier ∧ w.tree.children = [] := by
      generalize v.tree = d at htwin hkind hchild
      cases htwin with
      | leaf => cases hchild
      | inner _ hshaped _ =>
          simp only [Tree.kind] at hkind
          rw [hkind] at hshaped
          exact hshaped.elim
      | dotted _ _ hnames _ =>
          obtain ⟨hidentifier, -, hnil⟩ := hnames _ hchild
          exact ⟨hidentifier, hnil⟩
    exact absurd hnumbers (not_numbers_of_leaf ((hv.next hw).ordered ht.ordered) hleaf.2
      (by rw [hleaf.1]; rfl))

/-- A call of a name or of a dotted name takes up room, and the scopes that are opened inside it
begin behind its start. -/
theorem start_lt_of_namedCall (ht : Sourced t) (hv : Visited tracked t v)
    (hcall : NamedCall v.tree) : v.tree.span.start < v.tree.span.stop ∧
      ∀ k frame, v.Numbers tracked k → (framesOf tracked t)[k]? = some frame →
        v.tree.span.start < frame.region.start := by
  have hsourced := ht.node hv.isNode
  have hordered := hsourced.ordered
  obtain ⟨names, hkind, callee, hcallee, -, hsegments⟩ := hcall
  obtain ⟨hmem, hrole⟩ := Draft.child?_eq_some hcallee
  obtain ⟨g, t', htwin⟩ := hsourced.twin
  have hshaped := htwin.shaped (List.ne_nil_of_mem hmem) (by simp [hkind])
  rw [hkind] at hshaped
  obtain ⟨first, arguments, hchildren, hfirst, harguments⟩ := hshaped
  have hfirstCallee : callee = first := by
    rw [hchildren] at hmem
    rcases List.mem_cons.1 hmem with heq | hmem
    · exact heq
    · rw [List.mem_singleton.1 hmem, harguments] at hrole
      cases hrole
  subst hfirstCallee
  obtain ⟨i, hi, hidentifier⟩ := exists_name hsegments
  have hlt := (hsourced.child hmem).lt_of_identifier hi hidentifier
  have hwithin := hordered.within_child hmem
  have hstart := hwithin.start
  have hstop := hwithin.stop
  refine ⟨by omega, fun k frame hk hframe => ?_⟩
  obtain ⟨w, hw, hnumbers, hchild⟩ := numbers_child hordered hk (.inr (.inr hkind))
  rw [hchildren] at hchild
  rcases List.mem_cons.1 hchild with heq | hchild
  · have hlt' := start_lt_of_segments ht (hv.next hw) (heq ▸ hsegments) hnumbers hframe
    rw [heq] at hlt'
    omega
  · -- The arguments stand behind the callee.
    have heq := List.mem_singleton.1 hchild
    have hregion := ((hv.next hw).region_within ht.ordered hnumbers hframe).start
    have hpairwise := hordered.pairwise
    rw [hchildren] at hpairwise
    have hle := (List.pairwise_cons.1 hpairwise).1 arguments List.mem_cons_self
    rw [heq] at hregion
    omega

/-- Whether no scope that a walk opens holds an offset. -/
def Clear (tracked : Tracked.Set) (t : Tree) (v : Visit) (offset : Nat) : Prop :=
  ∀ k frame, v.Numbers tracked k → (framesOf tracked t)[k]? = some frame →
    frame.region.contains offset = false

/-- The innermost scope at an offset inside a node is the one in which the node was visited, if no
scope that is opened inside the node holds the offset. -/
theorem Visited.scopeAt_of_clear (ht : Ordered t) (hv : Visited tracked t v)
    (hoffset : v.tree.span.contains offset = true) (hclear : Clear tracked t v offset) :
    (resolve tracked t).scopeAt offset = v.place.scope := by
  obtain ⟨frame, hframe, hwithin⟩ := hv.inside ht
  refine Scopes.scopeAt_eq (resolve_holds.2 ⟨frame, hframe, hwithin.contains hoffset⟩) ?_
  intro j hj
  rw [Bool.eq_false_iff]
  intro hholds
  obtain ⟨frame', hframe', hcontains⟩ := resolve_holds.1 hholds
  by_cases hnumbers : v.Numbers tracked j
  · rw [hclear j frame' hnumbers hframe'] at hcontains
    cases hcontains
  · rw [(hv.region_apart ht hj hnumbers hframe').not_contains hcontains] at hoffset
    cases hoffset

/-- The innermost scope at the start of a node that takes up room is the one in which the node was
visited, if the scopes that are opened inside it begin behind its start. -/
theorem Visited.scopeAt_of_behind (ht : Ordered t) (hv : Visited tracked t v)
    (hlt : v.tree.span.start < v.tree.span.stop)
    (hbehind : ∀ k frame, v.Numbers tracked k → (framesOf tracked t)[k]? = some frame →
      v.tree.span.start < frame.region.start) :
    (resolve tracked t).scopeAt v.tree.span.start = v.place.scope := by
  refine hv.scopeAt_of_clear ht (Span.contains_iff.2 ⟨Nat.le_refl _, hlt⟩) fun k frame hk hframe => ?_
  rw [Bool.eq_false_iff]
  intro hcontains
  have := hbehind k frame hk hframe
  have := (Span.contains_iff.1 hcontains).1
  omega

/-- The innermost scope at the start of a call of a name or of a dotted name is the one in which the
call was visited. -/
theorem Visited.scopeAt_start (ht : Sourced t) (hv : Visited tracked t v)
    (hcall : NamedCall v.tree) :
    (resolve tracked t).scopeAt v.tree.span.start = v.place.scope := by
  obtain ⟨hlt, hbehind⟩ := start_lt_of_namedCall ht hv hcall
  exact hv.scopeAt_of_behind ht.ordered hlt hbehind

/-! ## The nesting of all scopes -/

/-- A function with a call in a default of a parameter and one in a comprehension. -/
def nestedCalls : List Char :=
  "import maya.cmds as h\ndef f(a=h.g(x=1)):\n    return [h.k(y=a) for a in b]\n".toList

end Longhand.Scope
