import Longhand.Proofs.Form.Statement
import Longhand.Proofs.Visit

/-!
# Where bindings stand

A binding that a walk finds holds from an offset inside the node on, belongs to the scope of the node
or to one that is opened inside it, and was made in the arms around the node and in further ones
inside it.
-/

namespace Longhand.Scope

open Syntax Text

variable {tracked : Tracked.Set} {p : Place} {n : Numbering} {t u v : Tree} {e : Event}

/-! ## Trees of texts -/

/-- Whether the nodes of a tree lie in order, and its statements stand above its expressions. -/
structure Sourced (t : Tree) : Prop where
  twin : ∃ (g : Draft) (t' : Tree), g.Twin t t'
  formed : Formed t

theorem sourced_of_parseChecked {source : List Char} (h : parseChecked source = .ok t) :
    Sourced t := by
  obtain ⟨hreads, rfl⟩ := reads_of_parseChecked h
  exact ⟨⟨_, _, Draft.twin_parse hreads⟩, parse_formed source⟩

namespace Sourced

theorem child (h : Sourced t) (hu : u ∈ t.children) : Sourced u := by
  obtain ⟨⟨g, t', htwin⟩, hformed⟩ := h
  obtain ⟨u', -, hu', -⟩ := htwin.child hu
  exact ⟨⟨g, u', hu'⟩, hformed.child hu⟩

theorem ordered (h : Sourced t) : Ordered t := by
  obtain ⟨g, t', htwin⟩ := h.twin
  exact htwin.ordered

theorem within (h : Sourced t) (hu : IsNode u t) : u.span.Within t.span :=
  h.ordered.within hu

theorem le (h : Sourced t) : t.span.start ≤ t.span.stop :=
  h.ordered.le

/-- The children of a node come one after the other. -/
theorem pairwise (h : Sourced t) :
    t.children.Pairwise fun u v => u.span.stop ≤ v.span.start :=
  h.ordered.pairwise

theorem node (h : Sourced t) (hu : IsNode u t) : Sourced u := by
  induction hu with
  | self => exact h
  | inside hmem _ ih => exact ih (h.child hmem)

/-- A node with a name in it takes up room. -/
theorem lt_of_identifier (h : Sourced t) (hu : IsNode u t) (hkind : u.kind = .identifier) :
    t.span.start < t.span.stop := by
  obtain ⟨g, t', htwin⟩ := h.twin
  obtain ⟨u', -, hu', hwithin⟩ := htwin.node hu
  have hlt := hu'.identifier_lt hkind
  have := hwithin.start
  have := hwithin.stop
  omega

end Sourced

/-! ## Names of targets -/

mutual

/-- A target that binds a name has a name in it. -/
theorem exists_identifier : ∀ {t : Tree} {x : String}, x ∈ targetNames t →
    ∃ u, IsNode u t ∧ u.kind = .identifier
  | .node kind role s text children, x, h => by
      unfold targetNames at h
      split at h
      · exact ⟨_, .self, rfl⟩
      all_goals first
        | obtain ⟨c, hc, u, hu, hkind⟩ := exists_identifier_in h
          exact ⟨u, .inside hc hu, hkind⟩
        | cases h

theorem exists_identifier_in : ∀ {ts : List Tree} {x : String}, x ∈ targetNamesIn ts →
    ∃ t ∈ ts, ∃ u, IsNode u t ∧ u.kind = .identifier
  | [], x, h => by cases h
  | t :: rest, x, h => by
      rw [targetNamesIn] at h
      rcases List.mem_append.1 h with h | h
      · exact ⟨t, List.mem_cons_self, exists_identifier h⟩
      · obtain ⟨u, hu, hnode⟩ := exists_identifier_in h
        exact ⟨u, List.mem_cons_of_mem _ hu, hnode⟩

end

/-! ## Bindings of a node -/

/-- Whether a binding was made at a place. -/
def Event.At (e : Event) (p : Place) : Prop :=
  e.scope = p.scope ∧ e.arms = p.arms

/-- Whether a binding holds from behind a child of a node with a name in it on. -/
def Behind (t : Tree) (offset : Nat) : Prop :=
  offset ≤ t.span.stop ∧ ∃ c ∈ t.children, c.span.start < c.span.stop ∧ c.span.stop ≤ offset

theorem mem_untracked {offset : Nat} {names : List String} (h : e ∈ p.untracked offset names) :
    e.At p ∧ e.offset = offset ∧ e.binding = .untracked ∧ e.name ∈ names := by
  obtain ⟨name, hname, rfl⟩ := List.mem_map.1 h
  exact ⟨⟨rfl, rfl⟩, rfl, rfl, hname⟩

theorem ownEvents_at (h : e ∈ ownEvents p t) : e.At p := by
  have one : ∀ {name : String} {offset : Nat}, e ∈ [p.event name offset .untracked] → e.At p := by
    intro name offset h
    rw [List.mem_singleton.1 h]
    exact ⟨rfl, rfl⟩
  unfold ownEvents at h
  split at h
  all_goals first
    | cases h
    | split at h
      · first
        | exact (mem_untracked h).1
        | exact one h
      · cases h

/-- The names of a child that are bound behind it stand before that. -/
theorem behind_of_target (ht : Sourced t) {c : Tree} {offset : Nat} (hc : c ∈ t.children)
    (hle : c.span.stop ≤ offset) (hstop : offset ≤ t.span.stop)
    (he : e ∈ p.untracked offset (targetNames c)) : Behind t e.offset := by
  obtain ⟨-, hoffset, -, hname⟩ := mem_untracked he
  obtain ⟨u, hu, hkind⟩ := exists_identifier hname
  rw [hoffset]
  exact ⟨hstop, c, hc, (ht.child hc).lt_of_identifier hu hkind, hle⟩

/-- The names of a child that are bound at the end of a node stand before it. -/
theorem behind_of_whole (ht : Sourced t) {r : Role}
    (h : e ∈ match t.child? r with
      | some c => p.untracked t.span.stop (targetNames c)
      | none => []) : Behind t e.offset := by
  split at h
  · rename_i c hc
    have hmem := (Draft.child?_eq_some hc).1
    exact behind_of_target ht hmem (ht.within (.child hmem)).stop (Nat.le_refl _) h
  · cases h

/-- The bindings that a node makes by itself hold from behind a name in it on. -/
theorem ownEvents_behind (ht : Sourced t) (h : e ∈ ownEvents p t) : Behind t e.offset := by
  have stop : ∀ {c : Tree}, c ∈ t.children → c.span.stop ≤ t.span.stop :=
    fun hc => (ht.within (.child hc)).stop
  -- The name of a definition is its first child.
  have definition : t.kind = .functionDefinition ∨ t.kind = .classDefinition →
      ∀ {c : Tree}, t.child? .name = some c → e ∈ [p.event c.text t.span.stop .untracked] →
        Behind t e.offset := by
    intro hkind c hname he
    have hshape : ∃ id outer body, t.children = id :: (outer ++ [body]) ∧
        id.kind = .identifier ∧ id.role = some .name := by
      rcases hkind with hkind | hkind
      · have hshape := ht.formed.shape (by rw [hkind]; rfl)
        rw [hkind] at hshape
        obtain ⟨id, outer, body, hcs, hid, hrole, -⟩ := hshape
        exact ⟨id, outer, body, hcs, hid, hrole⟩
      · have hshape := ht.formed.shape (by rw [hkind]; rfl)
        rw [hkind] at hshape
        obtain ⟨id, outer, body, hcs, hid, hrole, -⟩ := hshape
        exact ⟨id, outer, body, hcs, hid, hrole⟩
    obtain ⟨id, outer, body, hcs, hid, hrole⟩ := hshape
    have hmem : id ∈ t.children := by simp [hcs]
    rw [List.mem_singleton.1 he]
    exact ⟨Nat.le_refl _, id, hmem, (ht.child hmem).lt_of_identifier .self hid, stop hmem⟩
  unfold ownEvents at h
  split at h
  · exact behind_of_whole ht h
  · exact behind_of_whole ht h
  · -- The targets of a loop are bound behind what it runs over, which comes after them.
    rename_i hkind
    have hshape := ht.formed.shape (by rw [hkind]; rfl)
    rw [hkind] at hshape
    obtain ⟨left, right, rest, hcs, hleft, hright, -⟩ := hshape
    have hpairwise := ht.pairwise
    rw [hcs] at hpairwise
    have hlt := (List.pairwise_cons.1 hpairwise).1 right List.mem_cons_self
    have hle := (ht.child (u := right) (by simp [hcs])).le
    simp only [Tree.child?, hcs, List.find?_cons, hleft, hright] at h
    refine behind_of_target ht (c := left) (by simp [hcs]) ?_
      (stop (c := right) (by simp [hcs])) h
    exact Nat.le_trans hlt hle
  · exact behind_of_whole ht h
  · split at h
    · rename_i c hc
      have hmem := (Draft.child?_eq_some hc).1
      exact behind_of_target ht hmem (Nat.le_refl _) (stop hmem) h
    · cases h
  · exact behind_of_whole ht h
  · split at h
    · exact definition (.inl ‹_›) ‹_› h
    · cases h
  · split at h
    · exact definition (.inr ‹_›) ‹_› h
    · cases h
  · cases h

/-- An import statement makes its bindings at its end. -/
theorem importEvents_at {offset : Nat} (h : e ∈ importEvents tracked p offset t) :
    e.At p ∧ e.offset = offset := by
  unfold importEvents at h
  split at h
  · split at h
    · rw [List.mem_singleton.1 h]
      exact ⟨⟨rfl, rfl⟩, rfl⟩
    · cases h
  · split at h
    · split at h
      · rw [List.mem_singleton.1 h]
        exact ⟨⟨rfl, rfl⟩, rfl⟩
      · cases h
    · cases h
  · cases h

theorem importFromEvents_at {offset : Nat} {origin : Option String}
    (h : e ∈ importFromEvents tracked p offset origin t) : e.At p ∧ e.offset = offset := by
  unfold importFromEvents at h
  dsimp only at h
  split at h
  · cases h
  · rw [List.mem_singleton.1 h]
    exact ⟨⟨rfl, rfl⟩, rfl⟩

theorem importedEvents_at (h : e ∈ importedEvents tracked p t) :
    e.At p ∧ e.offset = t.span.stop ∧ ∃ c ∈ t.children, c.role = some .name := by
  have name : ∀ {c : Tree}, c ∈ t.childrenIn .name → ∃ c ∈ t.children, c.role = some .name := by
    intro c hc
    obtain ⟨hmem, hrole⟩ := List.mem_filter.1 hc
    exact ⟨c, hmem, by simpa using hrole⟩
  unfold importedEvents at h
  split at h
  · obtain ⟨c, hc, he⟩ := List.mem_flatMap.1 h
    exact ⟨(importEvents_at he).1, (importEvents_at he).2, name hc⟩
  · obtain ⟨c, hc, he⟩ := List.mem_flatMap.1 h
    exact ⟨(importFromEvents_at he).1, (importFromEvents_at he).2, name hc⟩

/-- The parts of an import statement are names. -/
theorem name_of_import (ht : Sourced t) (hkind : isImport t.kind = true) (hc : c ∈ t.children) :
    Inert c ∧ (c.role = some .name → ∃ u ∈ c.children, u.kind = .identifier) := by
  unfold isImport at hkind
  split at hkind
  · rename_i heq
    have hshape := ht.formed.shape (by rw [heq]; rfl)
    rw [heq] at hshape
    exact hshape c hc
  · rename_i heq
    have hshape := ht.formed.shape (by rw [heq]; rfl)
    rw [heq] at hshape
    exact hshape c hc
  · cases hkind

theorem importedEvents_behind (ht : Sourced t) (hkind : isImport t.kind = true)
    (h : e ∈ importedEvents tracked p t) : Behind t e.offset := by
  obtain ⟨-, hoffset, c, hc, hrole⟩ := importedEvents_at h
  obtain ⟨u, hu, hidentifier⟩ := (name_of_import ht hkind hc).2 hrole
  rw [hoffset]
  exact ⟨Nat.le_refl _, c, hc, (ht.child hc).lt_of_identifier (.child hu) hidentifier,
    (ht.within (.child hc)).stop⟩

theorem Behind.bounds (ht : Sourced t) {offset : Nat} (h : Behind t offset) :
    t.span.start < offset ∧ offset ≤ t.span.stop := by
  obtain ⟨hstop, c, hc, hlt, hle⟩ := h
  have := (ht.within (.child hc)).start
  exact ⟨by omega, hstop⟩

/-! ## The order of visits -/

/-- Whether some numbers come before others. -/
structure Numbering.Le (n m : Numbering) : Prop where
  scope : n.scope ≤ m.scope
  statement : n.statement ≤ m.statement

theorem Numbering.Le.refl (n : Numbering) : n.Le n :=
  ⟨Nat.le_refl _, Nat.le_refl _⟩

theorem Numbering.Le.trans {n m k : Numbering} (h : n.Le m) (h' : m.Le k) : n.Le k :=
  ⟨Nat.le_trans h.scope h'.scope, Nat.le_trans h.statement h'.statement⟩

theorem Numbering.le_after (n : Numbering) (f : Findings) : n.Le (n.after f) :=
  ⟨Nat.le_add_right _ _, Nat.le_add_right _ _⟩

/-- The numbers behind those that a walk gives. -/
def Visit.end (tracked : Tracked.Set) (v : Visit) : Numbering :=
  v.numbering.after (v.found tracked)

theorem consecutive_le {vs : List Visit} (h : Consecutive tracked n vs) {w : Visit} (hw : w ∈ vs) :
    n.Le w.numbering ∧ (w.end tracked).Le (n.after (gather tracked vs)) := by
  induction vs generalizing n with
  | nil => cases hw
  | cons v rest ih =>
      obtain ⟨rfl, hrest⟩ := h
      rw [gather, Numbering.after_append]
      rcases List.mem_cons.1 hw with rfl | hw
      · exact ⟨.refl _, Numbering.le_after _ _⟩
      · obtain ⟨hle, hend⟩ := ih hrest hw
        exact ⟨(Numbering.le_after _ _).trans hle, hend⟩

theorem consecutive_pairwise {vs : List Visit} (h : Consecutive tracked n vs) :
    vs.Pairwise fun v w => (v.end tracked).Le w.numbering := by
  induction vs generalizing n with
  | nil => exact .nil
  | cons v rest ih =>
      obtain ⟨rfl, hrest⟩ := h
      exact .cons (fun w hw => (consecutive_le hrest hw).1) (ih hrest)

/-- The walks of a course give numbers between those before and those behind the whole walk. -/
theorem next_le {w : Visit} (h : w ∈ (course tracked p n t).next) :
    n.Le w.numbering ∧ (w.end tracked).Le (n.after (walk tracked p n t)) := by
  obtain ⟨houter, hinner⟩ := course_consecutive tracked p n t
  rw [after_walk]
  rcases List.mem_append.1 h with h | h
  · obtain ⟨hle, hend⟩ := consecutive_le houter h
    exact ⟨hle, hend.trans ((Numbering.le_after _ _).trans (Numbering.le_after _ _))⟩
  · obtain ⟨hle, hend⟩ := consecutive_le hinner h
    exact ⟨((Numbering.le_after _ _).trans (Numbering.le_after _ _)).trans hle, hend⟩

theorem next_pairwise : (course tracked p n t).next.Pairwise
    fun v w => (v.end tracked).Le w.numbering := by
  obtain ⟨houter, hinner⟩ := course_consecutive tracked p n t
  refine List.pairwise_append.2 ⟨consecutive_pairwise houter, consecutive_pairwise hinner,
    fun v hv w hw => ?_⟩
  exact (consecutive_le houter hv).2.trans ((Numbering.le_after _ _).trans
    (consecutive_le hinner hw).1)

/-! ## The order of nodes -/

/-- The last child of a function or a class is its body, and the others are expressions. -/
theorem exists_body (ht : Sourced t) {k : ScopeKind} (hk : scopeOver? t.kind = some k) :
    ∃ outer body, t.children = outer ++ [body] ∧ body.role = some .body ∧
      ∀ u ∈ outer, u.role ≠ some .body ∧ Plain u := by
  have definition : ∀ {id : Tree} {outer : List Tree} {body : Tree},
      t.children = id :: (outer ++ [body]) → id.role = some .name → Plain id →
      body.role = some .body → (∀ u ∈ outer, Plain u ∧ u.role ≠ some .body) →
      ∃ outer body, t.children = outer ++ [body] ∧ body.role = some .body ∧
        ∀ u ∈ outer, u.role ≠ some .body ∧ Plain u := by
    intro id outer body hcs hrole hid hbody houter
    refine ⟨id :: outer, body, hcs, hbody, fun u hu => ?_⟩
    rcases List.mem_cons.1 hu with rfl | hu
    · exact ⟨by simp [hrole], hid⟩
    · exact (houter u hu).symm
  unfold scopeOver? at hk
  split at hk
  · rename_i hkind
    have hshape := ht.formed.shape (by rw [hkind]; rfl)
    rw [hkind] at hshape
    obtain ⟨id, outer, body, hcs, -, hrole, hid, hbody, houter⟩ := hshape
    exact definition hcs hrole hid hbody houter
  · rename_i hkind
    have hplain := ht.formed.plain_of_kind (by rw [hkind]; rfl)
    cases hplain with
    | node _ hlast hcs =>
        obtain ⟨outer, body, rfl, hbody, houter⟩ := hlast hkind
        exact ⟨outer, body, rfl, hbody, fun u hu => ⟨houter u hu, hcs u (by simp [hu])⟩⟩
  · rename_i hkind
    have hshape := ht.formed.shape (by rw [hkind]; rfl)
    rw [hkind] at hshape
    obtain ⟨id, outer, body, hcs, -, hrole, hid, hbody, houter⟩ := hshape
    exact definition hcs hrole hid hbody houter
  · cases hk

/-- The children of a function or a class besides its body come before it. -/
theorem mem_outer {selection : Selection} {outer : List Tree} {body : Tree}
    (hcs : t.children = outer ++ [body]) (hbody : body.role = some .body)
    (hu : u ∈ t.children.filter selection.holds) (hselection : selection = .allButBody) :
    u ∈ outer := by
  obtain ⟨hmem, hholds⟩ := List.mem_filter.1 hu
  rw [hcs] at hmem
  rcases List.mem_append.1 hmem with hmem | hmem
  · exact hmem
  · rw [List.mem_singleton.1 hmem, hselection] at hholds
    simp [Selection.holds, hbody] at hholds

theorem child?_body {outer : List Tree} {body : Tree} (hcs : t.children = outer ++ [body])
    (hbody : body.role = some .body) (houter : ∀ u ∈ outer, u.role ≠ some .body) :
    t.child? .body = some body := by
  rw [Tree.child?, hcs, List.find?_append, List.find?_eq_none.2 (by simpa using houter)]
  simp [hbody]

/-- The parts of a branching statement come one after the other. -/
theorem armTrees_pairwise (ht : Ordered t) (kind : Kind) :
    (armTrees kind t.children).Pairwise fun u v => u.span.stop ≤ v.span.start := by
  have part : ∀ {c u : Tree}, c ∈ t.children →
      u ∈ (if kind = .matchStatement && c.role = some .body then c.children else [c]) →
      u.span.Within c.span := by
    intro c u hc hu
    split at hu
    · exact (ht.child hc).within_child hu
    · rw [List.mem_singleton.1 hu]
      exact .refl _
  refine List.pairwise_flatMap.2 ⟨fun c hc => ?_, ?_⟩
  · split
    · exact (ht.child hc).pairwise
    · exact List.pairwise_singleton _ _
  · refine ht.pairwise.imp_of_mem fun {a b} ha hb hle u hu v hv => ?_
    exact Nat.le_trans (part ha hu).stop (Nat.le_trans hle (part hb hv).start)

/-- The nodes that are visited next come one after the other. -/
theorem next_spans (ht : Sourced t) : (course tracked p n t).next.Pairwise
    fun v w => v.tree.span.stop ≤ w.tree.span.start := by
  have trees : ∀ {vs : List Visit}, (vs.map Visit.tree).Pairwise
      (fun u v => u.span.stop ≤ v.span.start) →
      vs.Pairwise fun v w => v.tree.span.stop ≤ w.tree.span.start :=
    fun h => List.pairwise_map.1 h
  have selected : ∀ {s : Selection} {q : Place} {m : Numbering},
      (visitsAll tracked s q m t.children).Pairwise
        fun v w => v.tree.span.stop ≤ w.tree.span.start := by
    intro s q m
    refine trees ?_
    rw [visitsAll_trees]
    exact ht.pairwise.filter _
  -- The walks of a course are over children in their order, or over the trees of arms.
  refine course_ind (P := fun c => c.next.Pairwise
    fun v w => v.tree.span.stop ≤ w.tree.span.start) ?_ ?_ ?_ ?_ ?_ ?_ ?_
  · exact .nil
  · exact fun _ => .nil
  · exact fun _ => selected
  · intro _
    refine trees ?_
    simp only [branchCourse, Course.next, List.nil_append, visitsArms_trees]
    exact armTrees_pairwise ht.ordered t.kind
  · intro k b hk hb
    obtain ⟨outer, body, hcs, hbody, houter⟩ := exists_body ht hk
    rw [child?_body hcs hbody fun u hu => (houter u hu).1] at hb
    cases hb
    simp only [bodyCourse, Course.next,
      child?_body hcs hbody fun u hu => (houter u hu).1]
    refine List.pairwise_append.2 ⟨selected, List.pairwise_singleton _ _, fun v hv w hw => ?_⟩
    have hmem := List.mem_map_of_mem (f := Visit.tree) hv
    rw [visitsAll_trees] at hmem
    have hpairwise := ht.pairwise
    rw [hcs] at hpairwise
    rw [List.mem_singleton.1 hw]
    exact (List.pairwise_append.1 hpairwise).2.2 _ (mem_outer hcs hbody hmem rfl) _
      List.mem_cons_self
  · intro _ _ _
    simp only [Course.next, List.append_nil]
    exact selected
  · intro _ _ _ _
    simp only [Course.next, List.append_nil]
    exact selected

theorem next_isNode {w : Visit} (h : w ∈ (course tracked p n t).next) : IsNode w.tree t := by
  rcases mem_next_tree h with h | ⟨b, hb, h⟩
  · exact .child h
  · exact (IsNode.child h).trans (.child hb)

theorem next_sizeOf {w : Visit} (h : w ∈ (course tracked p n t).next) :
    sizeOf w.tree < sizeOf t := by
  rcases mem_next_tree h with h | ⟨b, hb, h⟩
  · exact sizeOf_child h
  · exact Nat.lt_trans (sizeOf_child h) (sizeOf_child hb)

/-! ## Places of visits -/

@[simp] theorem Place.below_scope (p : Place) : p.below.scope = p.scope := rfl

@[simp] theorem Place.below_arms (p : Place) : p.below.arms = p.arms := rfl

@[simp] theorem Place.arm_scope (p : Place) (statement number : Nat) (t : Tree) :
    (p.arm statement number t).scope = p.scope := rfl

@[simp] theorem Place.arm_arms (p : Place) (statement number : Nat) (t : Tree) :
    (p.arm statement number t).arms = p.arms ++ [⟨statement, number, t.span⟩] := rfl

/-- Whether a visit is at a place or in an arm there. -/
def InArm (p : Place) (statement : Nat) (w : Visit) : Prop :=
  w.place = p ∨ ∃ number, w.place = p.arm statement number w.tree

theorem mem_visitsCases {statement next : Nat} {ts : List Tree} {w : Visit}
    (h : w ∈ visitsCases tracked statement p n next ts) : InArm p statement w := by
  induction ts generalizing n next with
  | nil => cases h
  | cons t rest ih =>
      rw [visitsCases] at h
      rcases List.mem_cons.1 h with rfl | h
      · by_cases hk : t.kind = .caseClause
        · exact .inr ⟨next, if_pos hk⟩
        · exact .inl (if_neg hk)
      · exact ih h

theorem mem_visitsArms {kind : Kind} {statement next : Nat} {ts : List Tree} {w : Visit}
    (h : w ∈ visitsArms tracked kind statement p n next ts) : InArm p statement w := by
  induction ts generalizing n next with
  | nil => cases h
  | cons t rest ih =>
      rw [visitsArms] at h
      rcases List.mem_append.1 h with h | h
      · unfold visitsPart at h
        split at h
        · exact mem_visitsCases h
        · split at h
          · rw [List.mem_singleton.1 h]
            exact .inr ⟨_, rfl⟩
          · rw [List.mem_singleton.1 h]
            exact .inl rfl
      · exact ih h

theorem mem_visitsAll {selection : Selection} {ts : List Tree} {w : Visit}
    (h : w ∈ visitsAll tracked selection p n ts) : w.place = p := by
  induction ts generalizing n with
  | nil => cases h
  | cons t rest ih =>
      rw [visitsAll] at h
      split at h
      · rcases List.mem_cons.1 h with rfl | h
        · rfl
        · exact ih h
      · exact ih h

/-- The number of the scope that a node opens, if it does. -/
def fresh (tracked : Tracked.Set) (p : Place) (n : Numbering) (t : Tree) : Nat :=
  (n.after (gather tracked (course tracked p n t).outer)).scope

theorem le_fresh : n.scope ≤ fresh tracked p n t :=
  (Numbering.le_after _ _).scope

/-- The walks in the scope that a node opens give numbers behind its own. -/
theorem fresh_lt {w : Visit} (hw : w ∈ (course tracked p n t).inner)
    (hopened : 0 < (course tracked p n t).opened.frames.length) :
    fresh tracked p n t < w.numbering.scope := by
  obtain ⟨-, hinner⟩ := course_consecutive tracked p n t
  have hle := (consecutive_le hinner hw).1.scope
  simp only [Numbering.after_scope, fresh] at hle ⊢
  omega

theorem outer_le_fresh {w : Visit} (hw : w ∈ (course tracked p n t).outer) :
    (w.end tracked).scope ≤ fresh tracked p n t := by
  obtain ⟨houter, -⟩ := course_consecutive tracked p n t
  exact (consecutive_le houter hw).2.scope

/-- A visit stands in the scope and the arms around it, in an arm of a branching statement, or in
the scope that is opened. -/
theorem next_place {w : Visit} (h : w ∈ (course tracked p n t).next) :
    w.place = p.below ∨
      (isBranching t.kind = true ∧ ∃ number, w.place = p.below.arm n.statement number w.tree) ∨
      (w ∈ (course tracked p n t).inner ∧ 0 < (course tracked p n t).opened.frames.length ∧
        w.place = ({ p with scope := fresh tracked p n t } : Place).below) := by
  unfold fresh
  revert h
  refine course_ind (P := fun c => w ∈ c.next → w.place = p.below ∨ (isBranching t.kind = true ∧
    ∃ number, w.place = p.below.arm n.statement number w.tree) ∨ (w ∈ c.inner ∧
      0 < c.opened.frames.length ∧ w.place =
        ({ p with scope := (n.after (gather tracked c.outer)).scope } : Place).below))
    ?_ ?_ ?_ ?_ ?_ ?_ ?_
  · exact fun h => nomatch h
  · exact fun _ h => nomatch h
  · exact fun _ h => .inr (.inr ⟨h, Nat.zero_lt_one, mem_visitsAll h⟩)
  · intro hkind h
    rcases mem_visitsArms h with hplace | ⟨number, hplace⟩
    · exact .inl hplace
    · exact .inr (.inl ⟨hkind, number, hplace⟩)
  · intro k b hk hb h
    simp only [bodyCourse, hb, Course.next, List.mem_append, List.mem_singleton] at h ⊢
    rcases h with h | rfl
    · exact .inl (mem_visitsAll h)
    · exact .inr (.inr ⟨rfl, Nat.zero_lt_one, rfl⟩)
  · intro _ _ _ h
    simp only [Course.next, List.append_nil] at h
    exact .inl (mem_visitsAll h)
  · intro _ _ _ _ h
    simp only [Course.next, List.append_nil] at h
    exact .inl (mem_visitsAll h)

/-- The walks inside a branching statement give numbers behind its own. -/
theorem next_statement_lt {w : Visit} (hkind : isBranching t.kind = true)
    (hw : w ∈ (course tracked p n t).next) : n.statement < w.numbering.statement := by
  obtain ⟨-, hinner⟩ := course_consecutive tracked p n t
  have hdepth := depth_le_of_next hw
  rw [course_branching hkind hdepth] at hw hinner
  exact (consecutive_le hinner hw).1.statement

/-! ## Sound visits -/

/-- Whether some arms are nested, the numbers of their statements growing. -/
def Nested (arms : List Arm) : Prop :=
  arms.Pairwise fun a b => a.statement < b.statement ∧ b.region.Within a.region

/-- Whether a walk begins at a node of a text with a scope and arms that were numbered before, and
inside the regions of these arms. -/
structure Visit.Sound (v : Visit) : Prop where
  sourced : Sourced v.tree
  scope : v.place.scope < v.numbering.scope
  statement : ∀ a ∈ v.place.arms, a.statement < v.numbering.statement
  nested : Nested v.place.arms
  around : ∀ a ∈ v.place.arms, v.tree.span.Within a.region

/-- The walks of which a walk consists. -/
def Visit.next (tracked : Tracked.Set) (v : Visit) : List Visit :=
  (course tracked v.place v.numbering v.tree).next

theorem Visit.Sound.next {v w : Visit} (hv : v.Sound) (hw : w ∈ v.next tracked) : w.Sound := by
  have hle := (next_le hw).1
  have hnode := next_isNode hw
  have hwithin := hv.sourced.within hnode
  have hsourced := hv.sourced.node hnode
  have hstatement : ∀ a ∈ v.place.arms, a.statement < w.numbering.statement :=
    fun a ha => Nat.lt_of_lt_of_le (hv.statement a ha) hle.statement
  have haround : ∀ a ∈ v.place.arms, w.tree.span.Within a.region :=
    fun a ha => hwithin.trans (hv.around a ha)
  rcases next_place hw with hplace | ⟨hkind, number, hplace⟩ | ⟨hinner, hopened, hplace⟩
  · refine ⟨hsourced, ?_, ?_, ?_, ?_⟩ <;> rw [hplace]
    · exact Nat.lt_of_lt_of_le hv.scope hle.scope
    · exact hstatement
    · exact hv.nested
    · exact haround
  · refine ⟨hsourced, ?_, ?_, ?_, ?_⟩ <;> rw [hplace]
    · exact Nat.lt_of_lt_of_le hv.scope hle.scope
    · intro a ha
      rcases List.mem_append.1 ha with ha | ha
      · exact hstatement a ha
      · rw [List.mem_singleton.1 ha]
        exact next_statement_lt hkind hw
    · refine List.pairwise_append.2 ⟨hv.nested, List.pairwise_singleton _ _, fun a ha b hb => ?_⟩
      rw [List.mem_singleton.1 hb]
      exact ⟨hv.statement a ha, haround a ha⟩
    · intro a ha
      rcases List.mem_append.1 ha with ha | ha
      · exact haround a ha
      · rw [List.mem_singleton.1 ha]
        exact .refl _
  · refine ⟨hsourced, ?_, ?_, ?_, ?_⟩ <;> rw [hplace]
    · exact fresh_lt hinner hopened
    · exact hstatement
    · exact hv.nested
    · exact haround

/-- What holds of a walk if it holds of all walks that it consists of holds of each walk. -/
theorem Visit.induction (tracked : Tracked.Set) {P : Visit → Prop}
    (step : ∀ v : Visit, (∀ w ∈ v.next tracked, P w) → P v) (v : Visit) : P v :=
  step v fun w hw =>
    have _ := next_sizeOf hw
    Visit.induction tracked step w
termination_by sizeOf v.tree

theorem Visit.Sound.induction (tracked : Tracked.Set) {P : Visit → Prop}
    (step : ∀ v : Visit, v.Sound → (∀ w ∈ v.next tracked, P w) → P v) {v : Visit}
    (hv : v.Sound) : P v := by
  refine Visit.induction tracked (P := fun v => v.Sound → P v) (fun v ih hv => ?_) v hv
  exact step v hv fun w hw => ih w hw (hv.next hw)

/-! ## Bindings of a walk -/

/-- Where a binding that a walk finds stands. -/
structure Visit.Holds (tracked : Tracked.Set) (v : Visit) (e : Event) : Prop where
  scope : e.scope = v.place.scope ∨ (v.numbering.scope ≤ e.scope ∧
    e.scope < (v.end tracked).scope)
  arms : ∃ extra, e.arms = v.place.arms ++ extra ∧ ∀ a ∈ extra,
    v.numbering.statement ≤ a.statement ∧ a.statement < (v.end tracked).statement
  nested : Nested e.arms
  start : v.tree.span.start ≤ e.offset
  stop : e.offset ≤ v.tree.span.stop
  lt : e.scope = v.place.scope → v.tree.span.start < e.offset

/-- The bindings that a node makes by itself stand at its place, behind a name in it. -/
theorem own_at (ht : Sourced t) (h : e ∈ (course tracked p n t).own) :
    e.At p ∧ Behind t e.offset := by
  rcases (own_cases h).2 with ⟨hkind, h⟩ | ⟨-, h⟩
  · exact ⟨(importedEvents_at h).1, importedEvents_behind ht hkind h⟩
  · exact ⟨ownEvents_at h, ownEvents_behind ht h⟩

theorem clauseEvents_at (h : e ∈ clauseEvents p t) : e.At p ∧ e.offset = t.span.start := by
  obtain ⟨c, -, h⟩ := List.mem_flatMap.1 h
  split at h
  · exact ⟨(mem_untracked h).1, (mem_untracked h).2.1⟩
  · cases h

/-- The number of the scope that a node opens is among those that the walk over it gives. -/
theorem fresh_lt_after (hopened : 0 < (course tracked p n t).opened.frames.length) :
    fresh tracked p n t < (n.after (walk tracked p n t)).scope := by
  rw [after_walk]
  simp only [Numbering.after_scope, fresh]
  omega

/-- The bindings that are made at the start of a scope belong to it. -/
theorem opened_at (ht : Sourced t) (h : e ∈ (course tracked p n t).opened.events) :
    e.arms = p.arms ∧ e.scope = fresh tracked p n t ∧
      0 < (course tracked p n t).opened.frames.length ∧
        t.span.start ≤ e.offset ∧ e.offset ≤ t.span.stop := by
  unfold fresh
  rcases course_of_bound h with hcourse | ⟨k, b, -, hb, hcourse⟩
  · rw [hcourse] at h ⊢
    obtain ⟨⟨hscope, harms⟩, hoffset⟩ := clauseEvents_at h
    rw [hoffset]
    exact ⟨harms, hscope, Nat.zero_lt_one, Nat.le_refl _, ht.le⟩
  · rw [hcourse] at h ⊢
    simp only [bodyCourse, hb] at h ⊢
    obtain ⟨⟨hscope, harms⟩, hoffset, -⟩ := mem_untracked h
    have hchild := (Draft.child?_eq_some hb).1
    have hwithin := ht.within (.child hchild)
    have hle := (ht.child hchild).le
    rw [hoffset]
    exact ⟨harms, hscope, Nat.zero_lt_one, hwithin.start, Nat.le_trans hle hwithin.stop⟩

/-- What holds of a binding for the walk over a part of a node holds for the walk over the node. -/
theorem Visit.Sound.holds_of_next {v w : Visit} (hv : v.Sound) (hw : w ∈ v.next tracked)
    (hholds : w.Holds tracked e) : v.Holds tracked e := by
  obtain ⟨hle, hend⟩ := next_le hw
  have hwithin := hv.sourced.within (next_isNode hw)
  have hself := Numbering.le_after w.numbering (w.found tracked)
  obtain ⟨hscope, hstatement⟩ : v.numbering.Le w.numbering := hle
  obtain ⟨hscopeEnd, hstatementEnd⟩ : (w.end tracked).Le (v.end tracked) := hend
  obtain ⟨hscopeSelf, hstatementSelf⟩ : w.numbering.Le (w.end tracked) := hself
  have hv' := hv.scope
  have hstart := hwithin.start
  have hstart' := hholds.start
  have hstop := Nat.le_trans hholds.stop hwithin.stop
  obtain ⟨extra, harms, hextra⟩ := hholds.arms
  have hextra' : ∀ a ∈ extra, v.numbering.statement ≤ a.statement ∧
      a.statement < (v.end tracked).statement := by
    intro a ha
    obtain ⟨hlow, hhigh⟩ := hextra a ha
    exact ⟨Nat.le_trans hstatement hlow, Nat.lt_of_lt_of_le hhigh hstatementEnd⟩
  have hrange : v.numbering.scope ≤ e.scope ∧ e.scope < (v.end tracked).scope ∨
      e.scope = w.place.scope := by
    rcases hholds.scope with hplace | ⟨hlow, hhigh⟩
    · exact .inr hplace
    · exact .inl ⟨Nat.le_trans hscope hlow, Nat.lt_of_lt_of_le hhigh hscopeEnd⟩
  have hinside : w.place.scope = v.place.scope → e.scope = v.place.scope →
      v.tree.span.start < e.offset := by
    intro hplace h
    have := hholds.lt (h.trans hplace.symm)
    omega
  -- The part is in the scope and the arms of the node, in an arm of its own, or in the scope opened.
  rcases next_place hw with hplace | ⟨hkind, number, hplace⟩ | ⟨hinner, hopened, hplace⟩
  · rw [hplace] at harms hrange hinside
    exact ⟨hrange.symm, ⟨extra, harms, hextra'⟩, hholds.nested, by omega, hstop, hinside rfl⟩
  · rw [hplace] at harms hrange hinside
    refine ⟨hrange.symm, ⟨_ :: extra, by simpa using harms, fun a ha => ?_⟩, hholds.nested,
      by omega, hstop, hinside rfl⟩
    rcases List.mem_cons.1 ha with rfl | ha
    · have hlt := next_statement_lt hkind hw
      exact ⟨Nat.le_refl _, Nat.lt_of_lt_of_le hlt (Nat.le_trans hstatementSelf hstatementEnd)⟩
    · exact hextra' a ha
  · rw [hplace] at harms hrange
    have hfresh : v.numbering.scope ≤ e.scope ∧ e.scope < (v.end tracked).scope := by
      rcases hrange with hrange | hrange
      · exact hrange
      · rw [hrange]
        have hlt := fresh_lt hinner hopened
        exact ⟨le_fresh, Nat.lt_of_lt_of_le hlt (Nat.le_trans hscopeSelf hscopeEnd)⟩
    exact ⟨.inr hfresh, ⟨extra, harms, hextra'⟩, hholds.nested, by omega, hstop,
      fun h => by omega⟩

/-- Each binding that a walk finds stands where it should. -/
theorem Visit.Sound.holds {v : Visit} (hv : v.Sound) :
    ∀ e ∈ (v.found tracked).events, v.Holds tracked e := by
  refine hv.induction tracked
    (P := fun v => ∀ e ∈ (v.found tracked).events, v.Holds tracked e) ?_
  intro v hv ih e he
  rcases mem_walk_events.1 he with he | he | ⟨w, hw, he⟩
  · -- Bindings of the node itself.
    obtain ⟨⟨hscope, harms⟩, hbehind⟩ := own_at hv.sourced he
    obtain ⟨hlt, hstop⟩ := hbehind.bounds hv.sourced
    refine ⟨.inl hscope, ⟨[], by simp [harms], fun _ h => nomatch h⟩, ?_, Nat.le_of_lt hlt, hstop,
      fun _ => hlt⟩
    rw [harms]
    exact hv.nested
  · -- Bindings at the start of the scope that is opened.
    obtain ⟨harms, hscope, hframes, hstart, hstop⟩ := opened_at hv.sourced he
    have hfresh : v.numbering.scope ≤ e.scope := hscope ▸ le_fresh
    have hend : e.scope < (v.end tracked).scope := hscope ▸ fresh_lt_after hframes
    refine ⟨.inr ⟨hfresh, hend⟩, ⟨[], by simp [harms], fun _ h => nomatch h⟩, ?_, hstart, hstop,
      fun h => ?_⟩
    · rw [harms]
      exact hv.nested
    · have := hv.scope
      omega
  · -- Bindings of a walk inside.
    exact hv.holds_of_next hw (ih w hw e he)

end Longhand.Scope
