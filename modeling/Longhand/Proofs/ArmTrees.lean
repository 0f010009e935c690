import Longhand.Proofs.Sibling

/-!
# Arms in the tree

The arms of a branching statement are parts of it, and those around a binding are the parts that hold
its node.  A later binding at an offset in these arms was made in them as well, and an earlier one in
another arm was not made behind the body of the `try` that the binding stands in.
-/

namespace Longhand.Scope

open Syntax Text

variable {tracked : Tracked.Set} {p : Place} {n : Numbering} {t u c : Tree} {v w : Visit}
  {offset made : Nat} {e f : Event} {a : Arm}

/-! ## Arms and the nodes inside them -/

/-- Whether a part of a branching statement is an arm of it. -/
inductive IsArm (s c : Tree) : Prop
  | consequence : s.kind = .ifStatement → c ∈ s.children → c.role = some .consequence → IsArm s c
  | alternative : s.kind = .ifStatement → c ∈ s.children →
      c.kind = .elifClause ∨ c.kind = .elseClause → IsArm s c
  | body : s.kind = .tryStatement → c ∈ s.children → c.role = some .body → IsArm s c
  | handler : s.kind = .tryStatement → c ∈ s.children →
      c.kind = .exceptClause ∨ c.kind = .elseClause → IsArm s c
  | case {block : Tree} : s.kind = .matchStatement → block ∈ s.children → block.role = some .body →
      c ∈ block.children → c.kind = .caseClause → IsArm s c

theorem IsArm.mem {branching : Tree} (h : IsArm branching c) :
    isBranching branching.kind = true ∧ c ∈ armTrees branching.kind branching.children := by
  have child : branching.kind ≠ .matchStatement → c ∈ branching.children →
      c ∈ armTrees branching.kind branching.children := by
    intro hkind hc
    refine List.mem_flatMap.2 ⟨c, hc, ?_⟩
    rw [if_neg (by simp [hkind])]
    exact List.mem_singleton.2 rfl
  cases h with
  | consequence hkind hc | alternative hkind hc =>
      exact ⟨by rw [hkind]; rfl, child (by simp [hkind]) hc⟩
  | body hkind hc | handler hkind hc =>
      exact ⟨by rw [hkind]; rfl, child (by simp [hkind]) hc⟩
  | case hkind hblock hrole hc =>
      refine ⟨by rw [hkind]; rfl, List.mem_flatMap.2 ⟨_, hblock, ?_⟩⟩
      rw [if_pos (by simp [hkind, hrole])]
      exact hc

theorem IsArm.isNode {branching : Tree} (h : IsArm branching c) : IsNode c branching := by
  cases h with
  | consequence _ hc | alternative _ hc => exact .child hc
  | body _ hc | handler _ hc => exact .child hc
  | case _ hblock _ hc _ => exact (IsNode.child hc).trans (.child hblock)

/-- Whether each arm around a node holds an offset. -/
def InArms (t u : Tree) (offset : Nat) : Prop :=
  ∀ s c, IsNode s t → IsArm s c → IsNode u c → c.span.contains offset = true

/-- Whether each arm around a node holds an offset or is the body of a `try`. -/
def InArmsOrTried (t u : Tree) (offset : Nat) : Prop :=
  ∀ s c, IsNode s t → IsArm s c → IsNode u c → c.span.contains offset = true ∨
    (s.kind = .tryStatement ∧ s.children.head? = some c)

theorem InArms.orTried (h : InArms t u offset) : InArmsOrTried t u offset :=
  fun s c hs hc hu => .inl (h s c hs hc hu)

/-- A walk over a part of a branching statement in an arm is one over an arm in the tree. -/
theorem mem_visitsArms_arm {kind : Kind} {statement next : Nat} {ts : List Tree}
    (hw : w ∈ visitsArms tracked kind statement p n next ts) (harms : w.place.arms ≠ p.arms) :
    ∃ c ∈ ts, (kind = .matchStatement ∧ c.role = some .body ∧ w.tree ∈ c.children ∧
        w.tree.kind = .caseClause) ∨
      (w.tree = c ∧ ¬ (kind = .matchStatement ∧ c.role = some .body) ∧
        ∃ next, (armOf? kind next c).isSome = true) := by
  have cases : ∀ {m : Numbering} {i : Nat} {cs : List Tree},
      w ∈ visitsCases tracked statement p m i cs → w.tree ∈ cs ∧ w.tree.kind = .caseClause := by
    intro m i cs h
    induction cs generalizing m i with
    | nil => cases h
    | cons c rest ih =>
        rw [visitsCases] at h
        rcases List.mem_cons.1 h with rfl | h
        · refine ⟨List.mem_cons_self, ?_⟩
          by_contra hkind
          exact harms (by simp [hkind])
        · exact (ih h).imp (List.mem_cons_of_mem _) id
  induction ts generalizing n next with
  | nil => cases hw
  | cons t rest ih =>
      rw [visitsArms] at hw
      rcases List.mem_append.1 hw with hw | hw
      · refine ⟨t, List.mem_cons_self, ?_⟩
        unfold visitsPart at hw
        split at hw
        · rename_i hbody
          simp only [Bool.and_eq_true, decide_eq_true_eq] at hbody
          obtain ⟨hmem, hkind⟩ := cases hw
          exact .inl ⟨hbody.1, hbody.2, hmem, hkind⟩
        · rename_i hbody
          split at hw
          · rename_i number hnumber
            rw [List.mem_singleton.1 hw]
            exact .inr ⟨rfl, by simpa using hbody, next, by rw [hnumber]; rfl⟩
          · rw [List.mem_singleton.1 hw] at harms
            exact absurd rfl harms
      · obtain ⟨c, hc, h⟩ := ih hw
        exact ⟨c, List.mem_cons_of_mem _ hc, h⟩

theorem ArmOf.isArm {number : Nat} (ht : Sourced v.tree) (h : ArmOf tracked v w number) :
    IsArm v.tree w.tree := by
  have hbranching := h.branching
  obtain ⟨hw, harms⟩ := h
  have hnew : w.place.arms ≠ v.place.below.arms := by
    rw [harms]
    simp
  rw [Visit.next, course_of_branching hbranching hw] at hw
  -- A walk with an arm of its own is over a child that has a number, or over a case in a block.
  obtain ⟨c, hc, hcase⟩ := mem_visitsArms_arm hw hnew
  unfold isBranching at hbranching
  split at hbranching
  · rename_i hkind
    rcases hcase with ⟨hmatch, -⟩ | ⟨rfl, -, next, hsome⟩
    · rw [hkind] at hmatch
      cases hmatch
    · rw [hkind] at hsome
      by_cases hrole : w.tree.role = some .consequence
      · exact .consequence hkind hc hrole
      · refine .alternative hkind hc ?_
        by_contra hnot
        simp_all [armOf?]
  · rename_i hkind
    rcases hcase with ⟨hmatch, -⟩ | ⟨rfl, -, next, hsome⟩
    · rw [hkind] at hmatch
      cases hmatch
    · rw [hkind] at hsome
      by_cases hrole : w.tree.role = some .body
      · exact .body hkind hc hrole
      · refine .handler hkind hc ?_
        by_contra hnot
        simp_all [armOf?]
  · rename_i hkind
    rcases hcase with ⟨-, hrole, hmem, hclause⟩ | ⟨rfl, hnot, next, hsome⟩
    · exact .case hkind hc hrole hmem hclause
    · -- Beside the block of a match statement there are only expressions.
      have hshape := ht.formed.shape (by rw [hkind]; rfl)
      rw [hkind] at hshape hsome hnot
      obtain ⟨subjects, block, hcs, hsubjects, hrole, -⟩ := hshape
      rw [hcs] at hc
      rcases List.mem_append.1 hc with hc | hc
      · have hclause : w.tree.kind = .caseClause := by
          by_contra hne
          simp [armOf?, hne] at hsome
        have hplain := (hsubjects _ hc).1.isStatement
        rw [hclause] at hplain
        cases hplain
      · exact absurd ⟨rfl, by rw [List.mem_singleton.1 hc, hrole]⟩ hnot
  · cases hbranching

/-- Each arm around a visited node is that of a part of a branching statement around the node. -/
theorem Visited.exists_arm (hv : Visited tracked t v) (ha : a ∈ v.place.arms) :
    ∃ s w number, Visited tracked t s ∧ ArmOf tracked s w number ∧
      a = ⟨s.numbering.statement, number, w.tree.span⟩ ∧ IsNode v.tree w.tree := by
  induction hv with
  | whole => cases ha
  | @next u w hu hw ih =>
      have old : a ∈ u.place.arms → ∃ s w' number, Visited tracked t s ∧
          ArmOf tracked s w' number ∧ a = ⟨s.numbering.statement, number, w'.tree.span⟩ ∧
            IsNode w.tree w'.tree := by
        intro ha
        obtain ⟨s, w', number, hs, harm, heq, hnode⟩ := ih ha
        exact ⟨s, w', number, hs, harm, heq, (next_isNode hw).trans hnode⟩
      rcases next_place hw with hplace | ⟨-, number, hplace⟩ | ⟨-, -, hplace⟩
      · rw [hplace] at ha
        exact old ha
      · rw [hplace] at ha
        rcases List.mem_append.1 ha with ha | ha
        · exact old ha
        · rw [List.mem_singleton.1 ha]
          exact ⟨u, w, number, hu, ⟨hw, by rw [hplace]; rfl⟩, rfl, .self⟩
      · rw [hplace] at ha
        exact old ha

/-- The innermost arm around a visited node. -/
theorem Visited.innermost_arm (ht : Sourced t) (hv : Visited tracked t v) :
    v.place.arms = [] ∨ ∃ w, Visited tracked t w ∧ w.place.arms = v.place.arms ∧
      v.tree.span.Within w.tree.span ∧ ∃ a ∈ v.place.arms, a.region = w.tree.span := by
  induction hv with
  | whole => exact .inl rfl
  | @next u w hu hw ih =>
      have hwithin := next_within (hu.sound ht) hw
      have old : w.place.arms = u.place.arms → w.place.arms = [] ∨ ∃ w', Visited tracked t w' ∧
          w'.place.arms = w.place.arms ∧ w.tree.span.Within w'.tree.span ∧
            ∃ a ∈ w.place.arms, a.region = w'.tree.span := by
        intro harms
        rw [harms]
        exact ih.imp id fun ⟨w', hw', harms', hwithin', ha⟩ =>
          ⟨w', hw', harms', hwithin.trans hwithin', ha⟩
      rcases next_place hw with hplace | ⟨-, number, hplace⟩ | ⟨-, -, hplace⟩
      · exact old (by rw [hplace]; rfl)
      · refine .inr ⟨w, hu.next hw, rfl, .refl _, ⟨u.numbering.statement, number, w.tree.span⟩, ?_,
          rfl⟩
        rw [hplace]
        simp
      · exact old (by rw [hplace]; rfl)

theorem InArms.contains (ht : Sourced t) (hv : Visited tracked t v)
    (h : InArms t v.tree offset) (ha : a ∈ v.place.arms) : a.region.contains offset = true := by
  obtain ⟨s, w, number, hs, harm, rfl, hnode⟩ := hv.exists_arm ha
  exact h s.tree w.tree hs.isNode (harm.isArm (ht.node hs.isNode)) hnode

/-! ## The order of arms -/

theorem head_start_le (ht : Sourced t) (hhead : t.children.head? = some c) (hu : u ∈ t.children) :
    c.span.start ≤ u.span.start := by
  obtain ⟨rest, hcs⟩ := List.head?_eq_some_iff.1 hhead
  have hle := (ht.child (u := c) (by simp [hcs])).le
  have hpairwise := ht.pairwise
  rw [hcs] at hpairwise hu
  rcases List.mem_cons.1 hu with rfl | hu
  · exact Nat.le_refl _
  · have := (List.pairwise_cons.1 hpairwise).1 u hu
    omega

/-- A binding in the body of a `try` comes before those of its scope in other arms. -/
theorem offset_lt_of_tried (ht : Sourced t) (hs : Visited tracked t v) {number : Nat}
    (hw : ArmOf tracked v w number) (hhead : v.tree.children.head? = some w.tree)
    (hf : f ∈ ((wholeVisit t).found tracked).events)
    (ha : ⟨v.numbering.statement, number, w.tree.span⟩ ∈ f.arms)
    (he : e ∈ ((wholeVisit t).found tracked).events) (hscope : e.scope = f.scope) {c : Arm}
    (hc : c ∈ e.arms) (hstatement : c.statement = v.numbering.statement)
    (hnumber : c.number ≠ number) : f.offset < e.offset := by
  have hsound := hs.sound ht
  have hsourced := ht.node hs.isNode
  obtain ⟨wf, hwf, hf, hfarms, hfregion⟩ := exists_part ht hs hw hf ha rfl
  obtain ⟨we, hwe, he, hearms, -⟩ := exists_part ht hs hw he hc hstatement
  have hne : we ≠ wf := by
    rintro rfl
    have heq := List.append_cancel_left (hearms.symm.trans hfarms)
    exact hnumber (congrArg Arm.number (List.singleton_inj.1 heq))
  obtain ⟨heplace, hfplace⟩ := scope_of_apart hsound hwe hwf hne he hf hscope
  have heholds := (hsound.next hwe).holds e he
  have hfholds := (hsound.next hwf).holds f hf
  have helt := heholds.lt heplace
  have hestop := heholds.stop
  have hfstop := hfholds.stop
  rcases pairwise_cases (next_spans hsourced) hwe hwf with heq | hle | hle
  · exact absurd heq hne
  · -- Nothing comes before the body.
    have hfirst : w.tree.span.start ≤ we.tree.span.start := by
      rcases mem_next_tree hwe with hmem | ⟨d, hd, hmem⟩
      · exact head_start_le hsourced hhead hmem
      · have := head_start_le hsourced hhead hd
        have := (((hsourced.child hd).within (.child hmem))).start
        omega
    simp only at hfregion
    rw [← hfregion] at hle
    omega
  · omega

/-- A binding in other arms than an earlier one of its scope was made in an arm that holds the
offset. -/
theorem contains_of_diverging (ht : Sourced t) (hv : Visited tracked t v)
    (h : InArmsOrTried t v.tree offset) (hf : f ∈ ((wholeVisit t).found tracked).events)
    (harms : f.arms = v.place.arms) (he : e ∈ ((wholeVisit t).found tracked).events)
    (hscope : e.scope = f.scope) (hle : e.offset ≤ f.offset)
    (ha : divergingArm? f.arms e.arms = some a) : a.region.contains offset = true := by
  obtain ⟨hmem, c, hc, hstatement, hnumber⟩ := divergingArm?_mem ha
  obtain ⟨s, w, number, hs, harm, rfl, hnode⟩ := hv.exists_arm (harms ▸ hmem)
  rcases h s.tree w.tree hs.isNode (harm.isArm (ht.node hs.isNode)) hnode with hin | ⟨-, hhead⟩
  · exact hin
  · have := offset_lt_of_tried ht hs harm hhead hf hmem he hscope hc hstatement.symm
      (Ne.symm hnumber)
    omega

theorem divergingArm?_extension (l m : List Arm) : divergingArm? (l ++ m) l = none := by
  have h := divergingArm?_append l m []
  rw [List.append_nil] at h
  rw [h]
  cases m <;> rfl

/-- A later binding in the arms of another one is made in no other arm. -/
theorem diverging_of_later (ht : Sourced t) (hv : Visited tracked t v)
    (h : InArms t v.tree offset) (hmade : v.tree.span.start < made)
    (he : e ∈ ((wholeVisit t).found tracked).events) (hlow : made ≤ e.offset)
    (hhigh : e.offset ≤ offset) : divergingArm? e.arms v.place.arms = none := by
  rcases hv.innermost_arm ht with hnil | ⟨w, hw, harms, hwithin, a, ha, hregion⟩
  · rw [hnil]
    cases e.arms <;> rfl
  · have hin := h.contains ht hv ha
    rw [hregion] at hin
    obtain ⟨-, hstop⟩ := Span.contains_iff.1 hin
    have hstart := hwithin.start
    have hfound := found_of_inside ht hw he (by omega) (by omega)
    obtain ⟨extra, hextra, -⟩ := ((hw.sound ht).holds e hfound).arms
    rw [hextra, ← harms]
    exact divergingArm?_extension _ _

end Longhand.Scope
