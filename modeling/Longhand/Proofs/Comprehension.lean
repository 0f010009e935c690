import Longhand.Proofs.Rebound
import Longhand.Proofs.Tied

/-!
# Names inside comprehensions

The scope of a comprehension covers the whole of it, what its first clause runs over included.  So a
name in there is looked for among the targets first, whatever stands in front of it in the text, and
then in the scopes around the comprehension, but not in a class body that the comprehension stands in.
-/

namespace Longhand.Scope

open Syntax Text

variable {tracked : Tracked.Set} {p : Place} {n : Numbering} {t u clause iterable id : Tree}
  {x : String} {v w : Visit} {offset j k : Nat} {frame : Frame} {scope inside enclosing : Scope}
  {e : Event}

/-! ## What expressions bind -/

/-- The names that are collected from a target are bound at nodes of it. -/
theorem exists_target {t : Tree} (h : x ∈ targetNames t) : ∃ id, Target x id t := by
  by_cases hgroup : isGroup t.kind = true
  · rw [targetNames_of_group hgroup] at h
    obtain ⟨c, hc, h⟩ := mem_targetNamesIn.1 h
    have _ := sizeOf_child hc
    obtain ⟨id, hid⟩ := exists_target h
    exact ⟨id, .inside hgroup hc hid⟩
  · obtain ⟨kind, role, span, text, children⟩ := t
    unfold targetNames at h
    split at h
    · exact ⟨_, .name rfl (List.mem_singleton.1 h).symm⟩
    all_goals first
      | exact absurd rfl hgroup
      | cases h
termination_by sizeOf t

/-- Whether an expression binds a name from its end on. -/
inductive Captures (x : String) (u : Tree) : Prop
  | assigned {target id : Tree} : u.kind = .assignment ∨ u.kind = .augmentedAssignment →
      u.child? .left = some target → Target x id target → Captures x u
  | named {target id : Tree} : u.kind = .namedExpression → u.child? .name = some target →
      Target x id target → Captures x u
  | aliased {target id : Tree} : u.kind = .asPattern → u.child? .alias = some target →
      Target x id target → Captures x u

theorem Captures.mem_own (h : Captures x u) (hdepth : p.depth ≤ depthLimit) :
    p.event x u.span.stop .untracked ∈ (course tracked p n u).own := by
  have own : isImport u.kind = false ∧ isComprehension u.kind = false ∧
      isBranching u.kind = false → ∀ names, x ∈ names → ownEvents p u =
        p.untracked u.span.stop names → p.event x u.span.stop .untracked ∈
          (course tracked p n u).own := by
    rintro ⟨himport, hcomprehension, hbranch⟩ names hmem heq
    rw [course_own hdepth himport hcomprehension hbranch, heq]
    exact mem_untracked_of_mem hmem
  cases h with
  | assigned hkind hleft htarget =>
      rcases hkind with hkind | hkind
      all_goals
        refine own (by rw [hkind]; exact ⟨rfl, rfl, rfl⟩) _ htarget.mem ?_
        simp only [ownEvents, hkind, hleft]
  | named hkind hname htarget =>
      refine own (by rw [hkind]; exact ⟨rfl, rfl, rfl⟩) _ htarget.mem ?_
      simp only [ownEvents, hkind, hname]
  | aliased hkind halias htarget =>
      refine own (by rw [hkind]; exact ⟨rfl, rfl, rfl⟩) _ htarget.mem ?_
      simp only [ownEvents, hkind, halias]

/-- What a node makes by itself that is no statement. -/
theorem captures_of_own (h : Plain t) (he : e ∈ (course tracked p n t).own) :
    p.depth ≤ depthLimit ∧ Captures e.name t ∧ e.offset = t.span.stop := by
  have hstatement := h.isStatement
  obtain ⟨hdepth, ⟨himport, -⟩ | ⟨-, hown⟩⟩ := own_cases he
  · rw [isStatement_of_isImport himport] at hstatement
    cases hstatement
  refine ⟨hdepth, ?_⟩
  -- Each kind of node that binds names is an expression with a target, or a statement.
  have made : ∀ {target : Tree}, e ∈ p.untracked t.span.stop (targetNames target) →
      (∃ id, Target e.name id target) ∧ e.offset = t.span.stop := by
    intro target he
    obtain ⟨name, hname, rfl⟩ := List.mem_map.1 he
    exact ⟨exists_target hname, rfl⟩
  have statement : ∀ {k : Kind}, t.kind = k → k.isStatement = true →
      Captures e.name t ∧ e.offset = t.span.stop := by
    rintro k rfl hk
    rw [hk] at hstatement
    cases hstatement
  unfold ownEvents at hown
  split at hown
  · rename_i hkind
    split at hown
    · obtain ⟨⟨id, hid⟩, hoffset⟩ := made hown
      exact ⟨.assigned (.inl hkind) ‹_› hid, hoffset⟩
    · cases hown
  · rename_i hkind
    split at hown
    · obtain ⟨⟨id, hid⟩, hoffset⟩ := made hown
      exact ⟨.assigned (.inr hkind) ‹_› hid, hoffset⟩
    · cases hown
  · exact statement ‹_› rfl
  · rename_i hkind
    split at hown
    · obtain ⟨⟨id, hid⟩, hoffset⟩ := made hown
      exact ⟨.aliased hkind ‹_› hid, hoffset⟩
    · cases hown
  · exact statement ‹_› rfl
  · rename_i hkind
    split at hown
    · obtain ⟨⟨id, hid⟩, hoffset⟩ := made hown
      exact ⟨.named hkind ‹_› hid, hoffset⟩
    · cases hown
  · exact statement ‹_› rfl
  · exact statement ‹_› rfl
  · cases hown

/-- The bindings that an expression makes in the scope that it stands in. -/
theorem Visited.exists_captures (hv : Visited tracked t v) (ht : Sourced t) (hplain : Plain v.tree)
    (he : e ∈ (v.found tracked).events) (hscope : e.scope = v.place.scope) :
    ∃ w, Visited tracked t w ∧ w.place.scope = v.place.scope ∧ w.place.depth ≤ depthLimit ∧
      Captures e.name w.tree ∧ e.offset = w.tree.span.stop := by
  revert hv hplain he hscope
  refine Visit.induction tracked (P := fun v => Visited tracked t v → Plain v.tree →
    e ∈ (v.found tracked).events → e.scope = v.place.scope → ∃ w, Visited tracked t w ∧
      w.place.scope = v.place.scope ∧ w.place.depth ≤ depthLimit ∧ Captures e.name w.tree ∧
        e.offset = w.tree.span.stop) (fun v ih hv hplain he hscope => ?_) v
  have hlt := hv.scope_lt ht.ordered
  rcases mem_walk_events.1 he with hown | hopened | ⟨w, hw, he⟩
  · obtain ⟨hdepth, hcaptures, hoffset⟩ := captures_of_own hplain hown
    exact ⟨v, hv, rfl, hdepth, hcaptures, hoffset⟩
  · -- What is bound where a scope is opened belongs to that scope.
    have hfresh := (opened_at (ht.node hv.isNode) hopened).2.1
    have hle : v.numbering.scope ≤ fresh tracked v.place v.numbering v.tree := le_fresh
    omega
  · have hnext := hv.next hw
    have hsame : e.scope = w.place.scope := by
      have hle := (next_le hw).1.scope
      rcases ((hnext.sound ht).holds e he).scope with hsame | hinside
      · exact hsame
      · omega
    have hplace : w.place.scope = v.place.scope := by rw [← hsame, hscope]
    obtain ⟨u, hu, huscope, hfacts⟩ :=
      ih w hw hnext (plain_of_isNode hplain (next_isNode hw)) he hsame
    exact ⟨u, hu, huscope.trans hplace, hfacts⟩

/-! ## The scope of a comprehension -/

theorem exists_of_visible? {b : Binding} (h : visible? scope.events x offset = some b) :
    ∃ e ∈ scope.events, e.name = x ∧ e.offset ≤ offset ∧ e.binding = b := by
  rw [visible?_eq] at h
  obtain ⟨⟨newer, e⟩, hdeciding, rfl⟩ := Option.map_eq_some_iff.1 h
  obtain ⟨⟨older, hvisible⟩, -⟩ := deciding?_eq_some hdeciding
  obtain ⟨he, hname, hle⟩ := mem_visibleEvents.1
    (show e ∈ visibleEvents scope.events x offset by rw [hvisible]; simp)
  exact ⟨e, he, hname, hle, rfl⟩

/-- A binding of a scope that is opened inside a node is found there. -/
theorem Visited.found_of_numbers (ht : Sourced t) (hv : Visited tracked t v)
    (he : e ∈ ((wholeVisit t).found tracked).events) (hk : v.Numbers tracked e.scope) :
    e ∈ (v.found tracked).events := by
  induction hv with
  | whole => exact he
  | @next u w hu hw ih =>
      have hsound := hu.sound ht
      have hle := next_le hw
      have hlow := hle.1.scope
      have hself : w.numbering.scope ≤ e.scope ∧ e.scope < (w.end tracked).scope := hk
      have hfound : e ∈ (u.found tracked).events :=
        ih ⟨Nat.le_trans hlow hk.1, Nat.lt_of_lt_of_le hk.2 hle.2.scope⟩
      rcases mem_walk_events.1 hfound with hown | hopened | ⟨w', hw', he'⟩
      · have hplace := (own_at hsound.sourced hown).1.1
        have := hsound.scope
        omega
      · obtain ⟨-, hfresh, hpos, -⟩ := opened_at hsound.sourced hopened
        rcases List.mem_append.1 hw with hw | hw
        · have := outer_le_fresh hw
          omega
        · have := fresh_lt hw hpos
          omega
      · by_cases heq : w' = w
        · exact heq ▸ he'
        · rcases ((hsound.next hw').holds e he').scope with hplace | hinside
          · have := next_scope hsound.scope hw hw'
            omega
          · rcases pairwise_cases next_pairwise hw' hw with hsame | hbefore | hbehind
            · exact absurd hsame heq
            · have := hbefore.scope
              omega
            · have := hbehind.scope
              omega

theorem comprehension_kinds {k : Kind} (h : isComprehension k = true) :
    k.isStatement = false ∧ k.isBinder = true := by
  unfold isComprehension at h
  split at h
  all_goals first
    | exact ⟨rfl, rfl⟩
    | cases h

/-- Whether a comprehension that the walk visits binds a name in its scope at an offset: as a target of
one of its clauses, or by an expression that ends before the offset. -/
def BoundInside (tracked : Tracked.Set) (t : Tree) (v : Visit) (x : String) (offset : Nat) : Prop :=
  Opens x v.tree v.tree.span ∨ ∃ w, Visited tracked t w ∧ w.place.scope = v.numbering.scope ∧
    w.place.depth ≤ depthLimit ∧ Captures x w.tree ∧ w.tree.span.stop ≤ offset

section Comprehension

variable (ht : Sourced t) (hv : Visited tracked t v) (hdepth : v.place.depth ≤ depthLimit)
  (hkind : isComprehension v.tree.kind = true)

include ht hv hdepth hkind

theorem exists_comprehension_scope :
    ∃ inside, (resolve tracked t).scopes[v.numbering.scope]? = some inside ∧
      inside.frame = ⟨.comprehension, some v.place.scope, v.tree.span⟩ := by
  obtain ⟨hfresh, hopened⟩ :=
    comprehension_opened tracked v.numbering (hv.ordered ht.ordered) hkind hdepth
  have hframe := hv.opened hopened
  rw [hfresh] at hframe
  exact exists_scope hframe

/-- The bindings of the scope of a comprehension are not tracked, and they are those of its targets
and of its expressions. -/
theorem mem_comprehension_scope
    (hinside : (resolve tracked t).scopes[v.numbering.scope]? = some inside) :
    (∀ e ∈ inside.events, e.binding = .untracked) ∧
      ∀ x offset, v.tree.span.contains offset = true →
        ((∃ e ∈ inside.events, e.name = x ∧ e.offset ≤ offset) ↔
          BoundInside tracked t v x offset) := by
  obtain ⟨hfresh, hopened⟩ :=
    comprehension_opened tracked v.numbering (hv.ordered ht.ordered) hkind hdepth
  have hcourse : course tracked v.place v.numbering v.tree =
      comprehensionCourse tracked v.place v.numbering v.tree := course_comprehension hkind hdepth
  have hplain : Plain v.tree :=
    (ht.node hv.isNode).formed.plain_of_kind (comprehension_kinds hkind).1
  have hnumbers : v.Numbers tracked v.numbering.scope := by
    refine ⟨Nat.le_refl _, ?_⟩
    have hlt := fresh_lt_after hopened.pos
    rwa [hfresh] at hlt
  -- Whatever belongs to the scope was found by the walk over the comprehension, which is an
  -- expression and imports nothing.
  have hfound : ∀ e ∈ inside.events, e ∈ (v.found tracked).events ∧ e.scope = v.numbering.scope := by
    intro e he
    obtain ⟨hmem, hscope⟩ := (mem_scope_events hinside).1 he
    exact ⟨hv.found_of_numbers ht hmem (hscope ▸ hnumbers), hscope⟩
  have hplace : ∀ w ∈ v.next tracked, w.place.scope = v.numbering.scope := by
    intro w hw
    rw [Visit.next, hcourse] at hw
    rw [mem_visitsAll hw]
    rfl
  refine ⟨fun e he => Binding.eq_untracked ?_, fun x offset hoffset => ⟨?_, ?_⟩⟩
  · rw [not_tracked_of_plain hplain (hfound e he).1]
    exact Bool.false_ne_true
  · rintro ⟨e, he, rfl, hle⟩
    obtain ⟨hmem, hscope⟩ := hfound e he
    rcases mem_walk_events.1 hmem with hown | hmade | ⟨w, hw, hmem⟩
    · rw [hcourse] at hown
      cases hown
    · rw [hcourse] at hmade
      obtain ⟨clause, hclause, hmade⟩ := List.mem_flatMap.1 hmade
      obtain ⟨hclause, hfor⟩ := List.mem_filter.1 hclause
      split at hmade
      · rename_i target hleft
        obtain ⟨name, hname, rfl⟩ := List.mem_map.1 hmade
        obtain ⟨id, hid⟩ := exists_target hname
        exact .inl (.target hkind hclause (of_decide_eq_true hfor) hleft hid)
      · cases hmade
    · obtain ⟨u, hu, huscope, hudepth, hcaptures, hstop⟩ := (hv.next hw).exists_captures ht
        (plain_of_isNode hplain (next_isNode hw)) hmem (hscope.trans (hplace w hw).symm)
      exact .inr ⟨u, hu, huscope.trans (hplace w hw), hudepth, hcaptures, hstop ▸ hle⟩
  · rintro (hopens | ⟨w, hw, hscope, hwdepth, hcaptures, hstop⟩)
    · obtain ⟨-, e, -, -, -, he, hname, hstart, -⟩ :=
        hopens.opened tracked v.place v.numbering hdepth
      have hmem : e ∈ inside.events := by
        refine (mem_scope_events hinside).2
          ⟨hv.mem_events (mem_walk_events.2 (.inr (.inl he))), ?_⟩
        rw [(opened_at (ht.node hv.isNode) he).2.1, hfresh]
      exact ⟨e, hmem, hname, hstart ▸ (Span.contains_iff.1 hoffset).1⟩
    · have hown : w.place.event x w.tree.span.stop .untracked ∈
          (course tracked w.place w.numbering w.tree).own := hcaptures.mem_own hwdepth
      refine ⟨_, (mem_scope_events hinside).2
        ⟨hw.mem_events (mem_walk_events.2 (.inl hown)), hscope⟩, rfl, hstop⟩

/-- The names of a comprehension stand for nothing that is tracked. -/
theorem visible?_of_comprehension
    (hinside : (resolve tracked t).scopes[v.numbering.scope]? = some inside)
    (hoffset : v.tree.span.contains offset = true) :
    (BoundInside tracked t v x offset → visible? inside.events x offset = some .untracked) ∧
      (¬ BoundInside tracked t v x offset → visible? inside.events x offset = none) := by
  obtain ⟨huntracked, hbound⟩ := mem_comprehension_scope ht hv hdepth hkind hinside
  constructor
  · intro h
    obtain ⟨e, he, hname, hle⟩ := (hbound x offset hoffset).2 h
    obtain ⟨b, hb⟩ := Option.ne_none_iff_exists'.1 (visible?_ne_none he hname hle)
    obtain ⟨f, hf, -, -, rfl⟩ := exists_of_visible? hb
    rw [hb, huntracked f hf]
  · intro h
    by_contra hne
    obtain ⟨b, hb⟩ := Option.ne_none_iff_exists'.1 hne
    obtain ⟨f, hf, hname, hle, -⟩ := exists_of_visible? hb
    exact h ((hbound x offset hoffset).1 ⟨f, hf, hname, hle⟩)

/-- The innermost scope at an offset in a clause is that of the comprehension, unless a scope that is
opened inside what the clause runs over holds the offset. -/
theorem scopeAt_of_iterable (hclause : clause ∈ v.tree.children) (hfor : clause.kind = .forInClause)
    (hiterable : iterable ∈ clause.children) (hoffset : iterable.span.contains offset = true)
    (hclear : ∀ scope ∈ (resolve tracked t).scopes, scope.frame.region.Within iterable.span →
      scope.frame.region.contains offset = false) :
    (resolve tracked t).scopeAt offset = v.numbering.scope := by
  obtain ⟨w, hw, htree, hplace⟩ : ∃ w ∈ v.next tracked, w.tree = clause ∧
      w.place.scope = v.numbering.scope := by
    obtain ⟨w, hw, htree, hplace⟩ :
        ∃ w ∈ (comprehensionCourse tracked v.place v.numbering v.tree).inner, w.tree = clause ∧
          w.place = ({ v.place with scope := v.numbering.scope } : Place).below :=
      exists_visitsAll hclause rfl
    refine ⟨w, ?_, htree, by rw [hplace]; rfl⟩
    rw [Visit.next, course_comprehension hkind hdepth]
    exact hw
  subst htree
  have hwvisited := hv.next hw
  have hwithin := (hwvisited.ordered ht.ordered).within_child hiterable
  rw [← hplace]
  refine hwvisited.scopeAt_of_clear ht.ordered (hwithin.contains hoffset) ?_
  by_cases hdeep : depthLimit < w.place.depth
  · exact clear_of_deep ht.ordered hwvisited hdeep
  obtain ⟨r, hr, rfl, hrplace⟩ := exists_next_beside tracked w.numbering (Nat.le_of_not_lt hdeep)
    (by rw [hfor]; rfl) (by rw [hfor]; rfl) (by rw [hfor]; rfl) hiterable (.inl (by rw [hfor]; rfl))
  refine .of_next ht.ordered hwvisited hr (by rw [hrplace]; rfl) hoffset fun k frame hk hframe => ?_
  obtain ⟨scope, hscope, rfl⟩ := exists_scope hframe
  exact hclear scope (List.mem_of_getElem? hscope)
    ((hwvisited.next hr).region_within ht.ordered hk hframe)

end Comprehension

/-! ## Names at what a comprehension runs over -/

/-- What a name stands for at an offset, as far as a scope and the scopes around it say. -/
def Scopes.lookupIn (s : Scopes) (name : String) (offset k : Nat) : Option Binding :=
  s.lookupFrom name offset s.scopes.length true k

/-- As many steps as there are scopes outwards are enough. -/
theorem lookupFrom_steps (ht : Ordered t) (steps steps' : Nat) (innermost : Bool) (k : Nat)
    (hk : k < steps) (hk' : k < steps') :
    (resolve tracked t).lookupFrom x offset steps innermost k =
      (resolve tracked t).lookupFrom x offset steps' innermost k := by
  induction steps generalizing steps' innermost k with
  | zero => omega
  | succ steps ih =>
      obtain ⟨steps', rfl⟩ : ∃ m, steps' = m + 1 := ⟨steps' - 1, by omega⟩
      rw [Scopes.lookupFrom, Scopes.lookupFrom]
      cases hscope : (resolve tracked t).scopes[k]? with
      | none => rfl
      | some scope =>
          dsimp only
          cases (if (innermost || decide (scope.frame.kind ≠ .classBody)) = true then
            visible? scope.events x offset else none) with
          | some b => rfl
          | none =>
              cases hparent : scope.frame.parent with
              | none => rfl
              | some parent =>
                  have hlt := parent_lt ht hscope hparent
                  exact ih steps' false parent (by omega) (by omega)

/-- A name without a binding in a scope is looked for around the scope. -/
theorem lookupFrom_around (ht : Ordered t) {innermost : Bool} {outer : Nat}
    (hscope : (resolve tracked t).scopes[k]? = some scope)
    (hparent : scope.frame.parent = some outer)
    (hnone : (if innermost || scope.frame.kind ≠ .classBody then visible? scope.events x offset
      else none) = none) :
    (resolve tracked t).lookupFrom x offset (resolve tracked t).scopes.length innermost k =
      (resolve tracked t).lookupFrom x offset (resolve tracked t).scopes.length false outer := by
  have hlt := parent_lt ht hscope hparent
  have hk := (List.getElem?_eq_some_iff.1 hscope).1
  obtain ⟨m, hm⟩ : ∃ m, (resolve tracked t).scopes.length = m + 1 :=
    ⟨(resolve tracked t).scopes.length - 1, by omega⟩
  conv_lhs => rw [hm, Scopes.lookupFrom, hscope]
  dsimp only
  rw [hnone, hparent]
  exact lookupFrom_steps ht m _ false outer (by omega) (by omega)

/-- Only a class with the name in it makes a difference between a name in the class and one in a scope
inside. -/
theorem lookupFrom_innermost (hscope : (resolve tracked t).scopes[k]? = some scope)
    (h : scope.frame.kind ≠ .classBody ∨ visible? scope.events x offset = none) (steps : Nat) :
    (resolve tracked t).lookupFrom x offset steps false k =
      (resolve tracked t).lookupFrom x offset steps true k := by
  cases steps with
  | zero => rfl
  | succ steps =>
      rw [Scopes.lookupFrom, Scopes.lookupFrom, hscope]
      rcases h with hkind | hnone
      · simp [hkind]
      · simp [hnone]

/-- What a name in a comprehension stands for that the comprehension does not bind. -/
theorem lookup_of_unbound (ht : Sourced t) (hv : Visited tracked t v)
    (hdepth : v.place.depth ≤ depthLimit) (hkind : isComprehension v.tree.kind = true)
    (hoffset : v.tree.span.contains offset = true)
    (hat : (resolve tracked t).scopeAt offset = v.numbering.scope)
    (hunbound : ¬ BoundInside tracked t v x offset) :
    (resolve tracked t).lookup x offset = (resolve tracked t).lookupFrom x offset
      (resolve tracked t).scopes.length false v.place.scope := by
  obtain ⟨inside, hinside, hframe⟩ := exists_comprehension_scope ht hv hdepth hkind
  have hnone := (visible?_of_comprehension ht hv hdepth hkind hinside hoffset).2 hunbound
  rw [Scopes.lookup, hat]
  exact lookupFrom_around ht.ordered hinside (by rw [hframe]) (by simp [hnone])

theorem lookup_of_bound (ht : Sourced t) (hv : Visited tracked t v)
    (hdepth : v.place.depth ≤ depthLimit) (hkind : isComprehension v.tree.kind = true)
    (hoffset : v.tree.span.contains offset = true)
    (hat : (resolve tracked t).scopeAt offset = v.numbering.scope)
    (hbound : BoundInside tracked t v x offset) :
    (resolve tracked t).lookup x offset = some .untracked := by
  obtain ⟨inside, hinside, -⟩ := exists_comprehension_scope ht hv hdepth hkind
  have hsome := (visible?_of_comprehension ht hv hdepth hkind hinside hoffset).1 hbound
  have hlt := (List.getElem?_eq_some_iff.1 hinside).1
  obtain ⟨m, hm⟩ : ∃ m, (resolve tracked t).scopes.length = m + 1 :=
    ⟨(resolve tracked t).scopes.length - 1, by omega⟩
  rw [Scopes.lookup, hat, hm, Scopes.lookupFrom, hinside]
  simp [hsome]

/-- The scope that a comprehension stands in is the innermost one at each of its offsets in its own
scope, apart from its own. -/
theorem innermost_around (ht : Sourced t) (hv : Visited tracked t v)
    (hdepth : v.place.depth ≤ depthLimit) (hkind : isComprehension v.tree.kind = true)
    (hoffset : v.tree.span.contains offset = true)
    (hat : (resolve tracked t).scopeAt offset = v.numbering.scope) :
    (resolve tracked t).holds offset v.place.scope = true ∧
      ∀ j, v.place.scope < j → (resolve tracked t).holds offset j = true →
        j = v.numbering.scope := by
  obtain ⟨hfresh, hopened⟩ :=
    comprehension_opened tracked v.numbering (hv.ordered ht.ordered) hkind hdepth
  have hframe := hv.opened hopened
  rw [hfresh] at hframe
  obtain ⟨outer, houter, hwithin⟩ := hv.inside ht.ordered
  have hholds : (resolve tracked t).holds offset v.place.scope = true :=
    resolve_holds.2 ⟨outer, houter, hwithin.contains hoffset⟩
  refine ⟨hholds, fun j hj hjholds => ?_⟩
  obtain ⟨-, hlater⟩ := Scopes.scopeAt_spec hholds
  rw [hat] at hlater
  have hhome : (resolve tracked t).holds offset v.numbering.scope = true :=
    resolve_holds.2 ⟨_, hframe, hoffset⟩
  rcases holds_cases ht.ordered hhome with ⟨hzero, -⟩ | ⟨parent, hparent, -, -, hbetween⟩
  · have := hv.scope_lt ht.ordered
    omega
  · rw [resolve_parent?, hframe, Option.bind_some] at hparent
    obtain rfl : v.place.scope = parent := Option.some.inj hparent
    rcases Nat.lt_trichotomy j v.numbering.scope with hlt | heq | hlt
    · rw [hbetween j hj hlt] at hjholds
      cases hjholds
    · exact heq
    · rw [hlater j hlt] at hjholds
      cases hjholds

/-- Whether two scopes are the innermost ones at an offset: that of a comprehension, and the one that
the comprehension stands in. -/
structure Surrounds (s : Scopes) (u : Tree) (offset home outer : Nat) (enclosing : Scope) : Prop where
  innermost : s.scopeAt offset = home
  frame : (s.scopes[home]?).map Scope.frame = some ⟨.comprehension, some outer, u.span⟩
  around : s.scopes[outer]? = some enclosing
  contains : enclosing.frame.region.contains offset = true
  next : ∀ j, outer < j → s.holds offset j = true → j = home

/-- Let an offset lie in what the first clause of a comprehension runs over, outside of all scopes in
there.  The innermost scope at the offset is that of the comprehension, whose own names are not tracked
there.  Any other name stands for what it stands for in the scope that the comprehension stands in,
except that the names of a class body are skipped. -/
theorem iterable_lookup {source : List Char} (hsource : parseChecked source = .ok t)
    (hu : Searched u 0 t) (hkind : isComprehension u.kind = true)
    (hclause : u.children.find? (fun c => c.kind = .forInClause) = some clause)
    (hiterable : iterable ∈ clause.childrenIn .right)
    (hoffset : iterable.span.contains offset = true)
    (hclear : ∀ scope ∈ (resolve tracked t).scopes, scope.frame.region.Within iterable.span →
      scope.frame.region.contains offset = false) :
    ∃ v enclosing, Visited tracked t v ∧ v.tree = u ∧
      Surrounds (resolve tracked t) u offset v.numbering.scope v.place.scope enclosing ∧
      ∀ x,
        (BoundInside tracked t v x offset →
          (resolve tracked t).lookup x offset = some .untracked) ∧
        (¬ BoundInside tracked t v x offset →
          (enclosing.frame.kind ≠ .classBody ∨ visible? enclosing.events x offset = none →
            (resolve tracked t).lookup x offset =
              (resolve tracked t).lookupIn x offset v.place.scope) ∧
          ∀ outer, enclosing.frame.kind = .classBody → enclosing.frame.parent = some outer →
            (resolve tracked t).lookup x offset = (resolve tracked t).lookupFrom x offset
              (resolve tracked t).scopes.length false outer) := by
  have ht := sourced_of_parseChecked hsource
  obtain ⟨hstatement, hbinder⟩ := comprehension_kinds hkind
  obtain ⟨v, hv, rfl, hdepth⟩ := hu.visited_of_not_inert tracked ht
    (fun hinert => by simp [(inert_iff.1 hinert).1.2.2] at hbinder)
    (fun hblock => by simp [hblock, Kind.isStatement] at hstatement)
  have hmem := List.mem_of_find?_eq_some hclause
  have hfor : clause.kind = .forInClause := by simpa using List.find?_some hclause
  have hright : iterable ∈ clause.children := (List.mem_filter.1 hiterable).1
  have hordered := hv.ordered ht.ordered
  have hin : v.tree.span.contains offset = true :=
    (((hordered.child hmem).within_child hright).trans (hordered.within_child hmem)).contains hoffset
  have hat := scopeAt_of_iterable ht hv hdepth hkind hmem hfor hright hoffset hclear
  obtain ⟨inside, hinside, hframe⟩ := exists_comprehension_scope ht hv hdepth hkind
  obtain ⟨hholds, hnext⟩ := innermost_around ht hv hdepth hkind hin hat
  obtain ⟨enclosing, henclosing, hcontains⟩ := Scopes.holds_iff.1 hholds
  refine ⟨v, enclosing, hv, rfl,
    ⟨hat, by rw [hinside, Option.map_some, hframe], henclosing, hcontains, hnext⟩,
    fun x => ⟨lookup_of_bound ht hv hdepth hkind hin hat, fun hunbound => ?_⟩⟩
  rw [lookup_of_unbound ht hv hdepth hkind hin hat hunbound]
  refine ⟨fun hopen => lookupFrom_innermost henclosing hopen _, fun outer hclass hparent => ?_⟩
  exact lookupFrom_around ht.ordered henclosing hparent (by simp [hclass])

/-- A comprehension in a class body that runs over a call of an imported module. -/
def classComprehension : List Char :=
  "from maya import cmds\nclass A:\n    y = [x for x in cmds.ls(X)]\n".toList

/-- The name of the module stands for what it stands for in the class body. -/
theorem iterable_lookup_in_class : ∃ t u, parseChecked classComprehension = .ok t ∧
    u.kind = .listComprehension ∧ ∃ home outer enclosing,
      Surrounds (resolve mayaCmds t) u 59 home outer enclosing ∧
      enclosing.frame.kind = .classBody ∧
      (resolve mayaCmds t).lookup "cmds" 59 = (resolve mayaCmds t).lookupIn "cmds" 59 outer ∧
      (resolve mayaCmds t).lookup "cmds" 59 = some (.module 0) := by
  obtain ⟨hfaultless, hfew, hlookup, hscopeAt, hscopes, u, hu, hkind, clause, hclause, iterable,
      hiterable, hoffset, hclear⟩ :
      (parse classComprehension).firstFault? 0 = none ∧
      0 + (nodes (parse classComprehension)).length ≤ depthLimit ∧
      (resolve mayaCmds (parse classComprehension)).lookup "cmds" 59 = some (.module 0) ∧
      (resolve mayaCmds (parse classComprehension)).scopeAt 59 = 2 ∧
      (resolve mayaCmds (parse classComprehension)).scopes.map (fun scope =>
        (scope.frame.kind, scope.frame.parent, visible? scope.events "cmds" 59)) =
          [(.module, none, some (.module 0)), (.classBody, some 0, none),
            (.comprehension, some 1, none)] ∧
      ∃ u ∈ nodes (parse classComprehension), u.kind = .listComprehension ∧
        ∃ clause ∈ (u.children.find? fun c => c.kind = .forInClause).toList,
        ∃ iterable ∈ clause.childrenIn .right, iterable.span.contains 59 = true ∧
          ∀ scope ∈ (resolve mayaCmds (parse classComprehension)).scopes,
            iterable.span.start ≤ scope.frame.region.start →
              scope.frame.region.contains 59 = false := by
    decide +kernel
  have hsource : parseChecked classComprehension = .ok (parse classComprehension) :=
    parseChecked_of_faultless hfaultless
  obtain ⟨v, enclosing, -, -, hsurrounds, hnames⟩ :=
    iterable_lookup hsource (searched_of_mem_nodes hu hfew) (by rw [hkind]; rfl)
      (Option.mem_toList.1 hclause) hiterable hoffset
      (fun scope hscope hwithin => hclear scope hscope hwithin.start)
  have hunbound : ¬ BoundInside mayaCmds (parse classComprehension) v "cmds" 59 := by
    intro hbound
    have huntracked := (hnames "cmds").1 hbound
    rw [hlookup] at huntracked
    cases huntracked
  -- The scopes are read off from the list of all of them.
  have hscope : ∀ k : Nat, ((resolve mayaCmds (parse classComprehension)).scopes[k]?).map (fun scope =>
      (scope.frame.kind, scope.frame.parent, visible? scope.events "cmds" 59)) =
        [(.module, none, some (.module 0)), (.classBody, some 0, none),
          (.comprehension, some 1, none)][k]? := by
    intro k
    rw [← List.getElem?_map, hscopes]
  have houter : v.place.scope = 1 := by
    obtain ⟨inside, hinside, hframe⟩ := Option.map_eq_some_iff.1 hsurrounds.frame
    have hhome := hscope v.numbering.scope
    rw [← hsurrounds.innermost, hscopeAt] at hhome hinside
    rw [hinside, Option.map_some, hframe] at hhome
    exact Option.some.inj (Prod.mk.inj (Prod.mk.inj (Option.some.inj hhome)).2).1
  have hclass := hscope v.place.scope
  rw [hsurrounds.around, houter, Option.map_some] at hclass
  obtain ⟨hclassKind, hclassRest⟩ := Prod.mk.inj (Option.some.inj hclass)
  exact ⟨_, u, hsource, hkind, _, _, enclosing, hsurrounds, hclassKind,
    ((hnames "cmds").2 hunbound).1 (.inr (Prod.mk.inj hclassRest).2), hlookup⟩

/-- A comprehension whose target has the name of the module that it runs over a call of. -/
def targetNamesake : List Char :=
  "from maya import cmds\n[x for cmds in cmds.ls(X)]\n".toList

/-- A comprehension in a class body that imports the module. -/
def classImport : List Char :=
  "class A:\n    from maya import cmds\n    y = [x for x in cmds.ls(X)]\n".toList

/-- A target hides the import in what the comprehension runs over, and so does a class body that
imports. -/
theorem iterable_hidden :
    (∃ t, parseChecked targetNamesake = .ok t ∧
      (∃ u ∈ nodes t, u.kind = .listComprehension ∧
        ∃ clause ∈ (u.children.find? fun c => c.kind = .forInClause).toList,
        ∃ iterable ∈ clause.childrenIn .right, iterable.span.contains 45 = true) ∧
      (resolve mayaCmds t).scopes.map (fun scope => (scope.frame.kind, scope.frame.parent)) =
        [(.module, none), (.comprehension, some 0)] ∧
      (resolve mayaCmds t).scopeAt 45 = 1 ∧
      (resolve mayaCmds t).lookupIn "cmds" 45 0 = some (.module 0) ∧
      (resolve mayaCmds t).lookup "cmds" 45 = some .untracked) ∧
    ∃ t, parseChecked classImport = .ok t ∧
      (∃ u ∈ nodes t, u.kind = .listComprehension ∧
        ∃ clause ∈ (u.children.find? fun c => c.kind = .forInClause).toList,
        ∃ iterable ∈ clause.childrenIn .right, iterable.span.contains 63 = true) ∧
      (resolve mayaCmds t).scopes.map (fun scope => (scope.frame.kind, scope.frame.parent)) =
        [(.module, none), (.classBody, some 0), (.comprehension, some 1)] ∧
      (resolve mayaCmds t).scopeAt 63 = 2 ∧
      (resolve mayaCmds t).lookupIn "cmds" 63 1 = some (.module 0) ∧
      (resolve mayaCmds t).lookup "cmds" 63 = none := by
  exact ⟨exists_parseChecked (by decide +kernel), exists_parseChecked (by decide +kernel)⟩

end Longhand.Scope
