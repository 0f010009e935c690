import Longhand.Proofs.Fallback

/-!
# Nesting of scopes

The regions of two scopes are nested or lie apart, and a scope has a greater number than those
around it.  So the scopes at an offset are the last one whose region holds the offset and those
around that one, and no binding of another scope is looked at.
-/

namespace Longhand.Scope

open Syntax Text

variable {tracked : Tracked.Set} {p : Place} {n : Numbering} {t : Tree} {offset j k : Nat}
  {v w : Visit} {frame frame' : Frame} {name : String}

/-! ## The scope that a node opens -/

/-- What the scope is like that a node opens: it lies in the node, apart from the parts that stay
outside, and around the others. -/
structure Opened (tracked : Tracked.Set) (p : Place) (n : Numbering) (t : Tree) (frame : Frame) :
    Prop where
  frames : (course tracked p n t).opened.frames = [frame]
  parent : frame.parent = some p.scope
  within : frame.region.Within t.span
  apart : ∀ w ∈ (course tracked p n t).outer, w.tree.span.Apart frame.region
  inside : ∀ w ∈ (course tracked p n t).inner, w.tree.span.Within frame.region ∧
    w.place.scope = fresh tracked p n t

theorem Opened.pos (h : Opened tracked p n t frame) :
    0 < (course tracked p n t).opened.frames.length := by
  rw [h.frames]
  exact Nat.zero_lt_one

/-- The body of a node lies apart from its other children. -/
theorem visitsAll_apart (ht : Ordered t) {body : Tree} (hbody : t.child? .body = some body)
    (hw : w ∈ visitsAll tracked .allButBody p n t.children) : w.tree.span.Apart body.span := by
  obtain ⟨hmem, hrole⟩ := Draft.child?_eq_some hbody
  have htree := List.mem_map_of_mem (f := Visit.tree) hw
  rw [visitsAll_trees] at htree
  obtain ⟨hchild, hholds⟩ := List.mem_filter.1 htree
  rcases pairwise_cases ht.pairwise hchild hmem with heq | hle | hle
  · rw [heq] at hholds
    simp [Selection.holds, hrole] at hholds
  · exact .inl hle
  · exact .inr hle

/-- A node opens no scope, and all parts of it stay in the scope around it, or it opens one. -/
theorem opened_cases (tracked : Tracked.Set) (p : Place) (n : Numbering) (ht : Ordered t) :
    ((course tracked p n t).opened.frames = [] ∧
      ∀ w ∈ (course tracked p n t).inner, w.place.scope = p.scope) ∨
      ∃ frame, Opened tracked p n t frame := by
  have closed : ∀ {c : Course}, course tracked p n t = c → c.opened.frames = [] → c.inner = [] →
      ((course tracked p n t).opened.frames = [] ∧
        ∀ w ∈ (course tracked p n t).inner, w.place.scope = p.scope) ∨
        ∃ frame, Opened tracked p n t frame := by
    rintro c rfl hframes hinner
    rw [hinner]
    exact .inl ⟨hframes, fun _ h => nomatch h⟩
  -- Only comprehensions and nodes with a body open a scope.
  refine course_ind (P := fun c => course tracked p n t = c → _) ?_ ?_ ?_ ?_ ?_ ?_ ?_ rfl
  · exact fun h => closed h rfl rfl
  · exact fun _ h => closed h rfl rfl
  · intro _ h
    refine .inr ⟨⟨.comprehension, some p.scope, t.span⟩, ?_, rfl, .refl _, ?_, ?_⟩
    · rw [h]
      rfl
    · rw [h]
      exact fun _ h => nomatch h
    · unfold fresh
      rw [h]
      intro w hw
      have htree := List.mem_map_of_mem (f := Visit.tree) hw
      simp only [comprehensionCourse, visitsAll_trees] at htree
      exact ⟨ht.within_child (List.mem_filter.1 htree).1, by rw [mem_visitsAll hw]; rfl⟩
  · intro _ h
    left
    rw [h]
    refine ⟨rfl, fun w hw => ?_⟩
    rcases mem_visitsArms hw with hplace | ⟨number, hplace⟩
    · rw [hplace]
      rfl
    · rw [hplace]
      rfl
  · intro k body hk hbody h
    have hchild := (Draft.child?_eq_some hbody).1
    unfold bodyCourse at h
    rw [hbody] at h
    refine .inr ⟨⟨k, some p.scope, body.span⟩, ?_, rfl, ht.within_child hchild, ?_, ?_⟩
    · rw [h]
    · rw [h]
      exact fun w hw => visitsAll_apart ht hbody hw
    · unfold fresh
      rw [h]
      intro w hw
      rw [List.mem_singleton.1 hw]
      exact ⟨.refl _, rfl⟩
  · exact fun _ _ _ h => closed h rfl rfl
  · exact fun _ _ _ _ h => closed h rfl rfl

theorem opened_of_frames (ht : Ordered t)
    (hframes : (course tracked p n t).opened.frames = [frame]) : Opened tracked p n t frame := by
  obtain ⟨frame', hopened⟩ := (opened_cases tracked p n ht).resolve_left fun hnone => by
    simp [hnone.1] at hframes
  obtain rfl : frame' = frame := List.singleton_inj.1 (hopened.frames.symm.trans hframes)
  exact hopened

/-- A comprehension opens a scope with the number that comes next. -/
theorem comprehension_opened (tracked : Tracked.Set) (n : Numbering) (ht : Ordered t)
    (hkind : isComprehension t.kind = true) (hdepth : p.depth ≤ depthLimit) :
    fresh tracked p n t = n.scope ∧
      Opened tracked p n t ⟨.comprehension, some p.scope, t.span⟩ := by
  have hcourse : course tracked p n t = comprehensionCourse tracked p n t :=
    course_comprehension hkind hdepth
  exact ⟨by rw [fresh, hcourse]; rfl, opened_of_frames ht (by rw [hcourse]; rfl)⟩

/-- The parts of a node outside the scope that it opens stay in the scope around it. -/
theorem outer_scope (hw : w ∈ (course tracked p n t).outer) : w.place.scope = p.scope := by
  revert hw
  refine course_ind (P := fun c => w ∈ c.outer → w.place.scope = p.scope) ?_ ?_ ?_ ?_ ?_ ?_ ?_
  · exact fun h => nomatch h
  · exact fun _ h => nomatch h
  · exact fun _ h => nomatch h
  · exact fun _ h => nomatch h
  · intro k body hk hbody hw
    simp only [bodyCourse, hbody] at hw
    rw [mem_visitsAll hw]
    rfl
  · intro _ _ _ hw
    rw [mem_visitsAll hw]
    rfl
  · intro _ _ _ _ hw
    rw [mem_visitsAll hw]
    rfl

/-- The nodes that are visited next lie apart from each other. -/
theorem next_apart (ht : Ordered t) : (course tracked p n t).next.Pairwise
    fun v w => v.tree.span.Apart w.tree.span := by
  have trees : ∀ {vs : List Visit}, (vs.map Visit.tree).Pairwise
      (fun u v => u.span.stop ≤ v.span.start) →
      vs.Pairwise fun v w => v.tree.span.Apart w.tree.span :=
    fun h => (List.pairwise_map.1 h).imp fun hle => .inl hle
  have selected : ∀ {s : Selection} {q : Place} {m : Numbering},
      (visitsAll tracked s q m t.children).Pairwise
        fun v w => v.tree.span.Apart w.tree.span := by
    intro s q m
    refine trees ?_
    rw [visitsAll_trees]
    exact ht.pairwise.filter _
  refine course_ind (P := fun c => c.next.Pairwise
    fun v w => v.tree.span.Apart w.tree.span) ?_ ?_ ?_ ?_ ?_ ?_ ?_
  · exact .nil
  · exact fun _ => .nil
  · exact fun _ => selected
  · intro _
    refine trees ?_
    simp only [branchCourse, Course.next, List.nil_append, visitsArms_trees]
    exact armTrees_pairwise ht t.kind
  · intro k body hk hbody
    simp only [bodyCourse, hbody, Course.next]
    refine List.pairwise_append.2 ⟨selected, List.pairwise_singleton _ _, fun v hv w hw => ?_⟩
    rw [List.mem_singleton.1 hw]
    exact visitsAll_apart ht hbody hv
  · intro _ _ _
    simp only [Course.next, List.append_nil]
    exact selected
  · intro _ _ _ _
    simp only [Course.next, List.append_nil]
    exact selected

theorem apart_of_ne (ht : Ordered t) {w' : Visit} (hw : w ∈ (course tracked p n t).next)
    (hw' : w' ∈ (course tracked p n t).next) (hne : w' ≠ w) :
    w'.tree.span.Apart w.tree.span := by
  rcases pairwise_cases (next_apart ht) hw' hw with heq | hapart | hapart
  · exact absurd heq hne
  · exact hapart
  · exact hapart.symm

/-! ## The numbers that a walk gives -/

/-- Whether a walk gives a number to a scope. -/
def Visit.Numbers (tracked : Tracked.Set) (v : Visit) (k : Nat) : Prop :=
  v.numbering.scope ≤ k ∧ k < (v.end tracked).scope

theorem exists_numbers {vs : List Visit} (h : Consecutive tracked n vs) (hlow : n.scope ≤ k)
    (hhigh : k < (n.after (gather tracked vs)).scope) : ∃ w ∈ vs, w.Numbers tracked k := by
  induction vs generalizing n with
  | nil =>
      simp only [gather, Numbering.after_scope, List.length_nil] at hhigh
      omega
  | cons v rest ih =>
      obtain ⟨rfl, hrest⟩ := h
      rw [gather, Numbering.after_append] at hhigh
      by_cases hk : k < (v.end tracked).scope
      · exact ⟨v, List.mem_cons_self, hlow, hk⟩
      · obtain ⟨w, hw, hnumbers⟩ := ih hrest (Nat.le_of_not_lt hk) hhigh
        exact ⟨w, List.mem_cons_of_mem _ hw, hnumbers⟩

/-- A number is given by a walk inside a node or to the scope that the node opens. -/
theorem numbers_cases (ht : Ordered v.tree) (hk : v.Numbers tracked k) :
    (∃ w ∈ v.next tracked, w.Numbers tracked k) ∨
      (k = fresh tracked v.place v.numbering v.tree ∧
        ∃ frame, Opened tracked v.place v.numbering v.tree frame) := by
  obtain ⟨hlow, hhigh⟩ := hk
  obtain ⟨houter, hinner⟩ := course_consecutive tracked v.place v.numbering v.tree
  unfold Visit.end Visit.found at hhigh
  rw [after_walk] at hhigh
  by_cases hout : k < fresh tracked v.place v.numbering v.tree
  · obtain ⟨w, hw, hnumbers⟩ := exists_numbers houter hlow hout
    exact .inl ⟨w, List.mem_append_left _ hw, hnumbers⟩
  have inside : ((v.numbering.after (gather tracked
      (course tracked v.place v.numbering v.tree).outer)).after
        (course tracked v.place v.numbering v.tree).opened).scope ≤ k →
      ∃ w ∈ v.next tracked, w.Numbers tracked k := by
    intro hle
    obtain ⟨w, hw, hnumbers⟩ := exists_numbers hinner hle hhigh
    exact ⟨w, List.mem_append_right _ hw, hnumbers⟩
  unfold fresh at hout ⊢
  rw [Numbering.after_scope] at inside
  rcases opened_cases tracked v.place v.numbering ht with ⟨hframes, -⟩ | ⟨frame, hopened⟩
  · rw [hframes, List.length_nil] at inside
    exact .inl (inside (by omega))
  · rw [hopened.frames, List.length_singleton] at inside
    by_cases heq : k = (v.numbering.after (gather tracked
        (course tracked v.place v.numbering v.tree).outer)).scope
    · exact .inr ⟨heq, frame, hopened⟩
    · exact .inl (inside (by omega))

theorem consecutive_placed {fs : List Frame} {vs : List Visit} (h : Consecutive tracked n vs)
    (hfs : Placed fs n.scope (gather tracked vs).frames) (hw : w ∈ vs) :
    Placed fs w.numbering.scope (w.found tracked).frames := by
  induction vs generalizing n with
  | nil => cases hw
  | cons v rest ih =>
      obtain ⟨rfl, hrest⟩ := h
      rcases List.mem_cons.1 hw with rfl | hw
      · exact hfs.left
      · exact ih hrest hfs.right hw

/-- The scopes that a walk finds, in the parts of its course. -/
theorem found_frames (tracked : Tracked.Set) (v : Visit) : (v.found tracked).frames =
    (gather tracked (course tracked v.place v.numbering v.tree).outer).frames ++
      ((course tracked v.place v.numbering v.tree).opened.frames ++
        (gather tracked (course tracked v.place v.numbering v.tree).inner).frames) := by
  rw [Visit.found, walk_eq_found, Course.found]
  simp

/-! ## Walks inside the walk over a whole text -/

/-- Whether a walk is a part of the walk over a whole text. -/
inductive Visited (tracked : Tracked.Set) (t : Tree) : Visit → Prop
  | whole : Visited tracked t (wholeVisit t)
  | next {v w : Visit} : Visited tracked t v → w ∈ v.next tracked → Visited tracked t w

namespace Visited

theorem sound (ht : Sourced t) (hv : Visited tracked t v) : v.Sound := by
  induction hv with
  | whole => exact wholeVisit_sound ht
  | next _ hw ih => exact ih.next hw

theorem isNode (hv : Visited tracked t v) : IsNode v.tree t := by
  induction hv with
  | whole => exact .self
  | next _ hw ih => exact (next_isNode hw).trans ih

theorem ordered (ht : Ordered t) (hv : Visited tracked t v) : Ordered v.tree :=
  ht.node_of hv.isNode

/-- A walk finds the scopes from its number on. -/
theorem placed (hv : Visited tracked t v) :
    Placed (framesOf tracked t) v.numbering.scope (v.found tracked).frames := by
  induction hv with
  | whole => exact ⟨[moduleFrame t], [], by simp [framesOf, Visit.found, wholeVisit], rfl⟩
  | @next u w hu hw ih =>
      obtain ⟨houter, hinner⟩ := course_consecutive tracked u.place u.numbering u.tree
      rw [found_frames] at ih
      rcases List.mem_append.1 hw with hw | hw
      · exact consecutive_placed houter ih.left hw
      · exact consecutive_placed hinner ih.right.right hw

/-- The scope that a node opens is the one with the next number. -/
theorem opened (hv : Visited tracked t v)
    (h : Opened tracked v.place v.numbering v.tree frame) :
    (framesOf tracked t)[fresh tracked v.place v.numbering v.tree]? = some frame := by
  have hplaced := hv.placed
  rw [found_frames, h.frames] at hplaced
  exact hplaced.right.left.head

/-- A walk stands in a scope that was numbered before. -/
theorem scope_lt (ht : Ordered t) (hv : Visited tracked t v) :
    v.place.scope < v.numbering.scope := by
  induction hv with
  | whole => exact Nat.zero_lt_one
  | @next u w hu hw ih =>
      have hle := (next_le hw).1.scope
      rcases List.mem_append.1 hw with hw | hw
      · rw [outer_scope hw]
        omega
      · rcases opened_cases tracked u.place u.numbering (hu.ordered ht) with
          ⟨-, hinner⟩ | ⟨frame, hopened⟩
        · rw [hinner w hw]
          omega
        · rw [(hopened.inside w hw).2]
          exact fresh_lt hw hopened.pos

/-- A node lies in the region of the scope that the walk over it stands in. -/
theorem inside (ht : Ordered t) (hv : Visited tracked t v) :
    Inside (framesOf tracked t) v.place.scope v.tree.span := by
  induction hv with
  | whole => exact ⟨moduleFrame t, rfl, ⟨Nat.zero_le _, Nat.le_refl _⟩⟩
  | @next u w hu hw ih =>
      have hwithin := (hu.ordered ht).within (next_isNode hw)
      rcases List.mem_append.1 hw with hw | hw
      · rw [outer_scope hw]
        exact ih.within hwithin
      · rcases opened_cases tracked u.place u.numbering (hu.ordered ht) with
          ⟨-, hinner⟩ | ⟨frame, hopened⟩
        · rw [hinner w hw]
          exact ih.within hwithin
        · obtain ⟨hregion, hscope⟩ := hopened.inside w hw
          rw [hscope]
          exact ⟨frame, hu.opened hopened, hregion⟩

/-- The scopes that are opened inside a node lie inside the node. -/
theorem region_within (ht : Ordered t) (hv : Visited tracked t v) (hk : v.Numbers tracked k)
    (hframe : (framesOf tracked t)[k]? = some frame) : frame.region.Within v.tree.span := by
  revert hv hk
  refine Visit.induction tracked (P := fun v => Visited tracked t v → v.Numbers tracked k →
    frame.region.Within v.tree.span) (fun v ih hv hk => ?_) v
  rcases numbers_cases (hv.ordered ht) hk with ⟨w, hw, hnumbers⟩ | ⟨rfl, f, hopened⟩
  · have hwithin := (hv.ordered ht).within (next_isNode hw)
    exact (ih w hw (hv.next hw) hnumbers).trans hwithin
  · obtain rfl : f = frame := Option.some.inj ((hv.opened hopened).symm.trans hframe)
    exact hopened.within

/-- Besides the scopes that are opened inside a node, those behind the scope of the node lie apart
from it. -/
theorem region_apart (ht : Ordered t) (hv : Visited tracked t v) (hlt : v.place.scope < k)
    (hk : ¬ v.Numbers tracked k) (hframe : (framesOf tracked t)[k]? = some frame) :
    frame.region.Apart v.tree.span := by
  induction hv with
  | whole =>
      -- All scopes besides the first one are opened inside the text.
      refine absurd ⟨hlt, ?_⟩ hk
      have hlength := (List.getElem?_eq_some_iff.1 hframe).1
      rw [framesOf, List.length_cons] at hlength
      simp only [Visit.end, Visit.found, wholeVisit, Numbering.after_scope]
      omega
  | @next u w hu hw ih =>
      have hordered := hu.ordered ht
      have hwithin := hordered.within (next_isNode hw)
      by_cases hnumbers : u.Numbers tracked k
      · rcases numbers_cases hordered hnumbers with ⟨w', hw', hnumbers'⟩ | ⟨rfl, f, hopened⟩
        · -- The scope is opened inside another part of the node.
          have hne : w' ≠ w := by
            rintro rfl
            exact hk hnumbers'
          have hregion := (hu.next hw').region_within ht hnumbers' hframe
          exact (apart_of_ne hordered hw hw' hne).within hregion (.refl _)
        · obtain rfl : f = frame := Option.some.inj ((hu.opened hopened).symm.trans hframe)
          rcases List.mem_append.1 hw with hw | hw
          · exact (hopened.apart w hw).symm
          · have := (hopened.inside w hw).2
            omega
      · have hle : u.place.scope ≤ w.place.scope := by
          rcases List.mem_append.1 hw with hw | hw
          · exact Nat.le_of_eq (outer_scope hw).symm
          · rcases opened_cases tracked u.place u.numbering hordered with
              ⟨-, hinner⟩ | ⟨f, hopened⟩
            · exact Nat.le_of_eq (hinner w hw).symm
            · rw [(hopened.inside w hw).2]
              exact Nat.le_trans (Nat.le_of_lt (hu.scope_lt ht)) le_fresh
        exact (ih (by omega) hnumbers).within (.refl _) hwithin

/-- The node that opens a scope. -/
theorem exists_opened (ht : Ordered t) (hv : Visited tracked t v) (hk : v.Numbers tracked k) :
    ∃ u frame, Visited tracked t u ∧ Opened tracked u.place u.numbering u.tree frame ∧
      k = fresh tracked u.place u.numbering u.tree := by
  revert hv hk
  refine Visit.induction tracked (P := fun v => Visited tracked t v → v.Numbers tracked k →
    ∃ u frame, Visited tracked t u ∧ Opened tracked u.place u.numbering u.tree frame ∧
      k = fresh tracked u.place u.numbering u.tree) (fun v ih hv hk => ?_) v
  rcases numbers_cases (hv.ordered ht) hk with ⟨w, hw, hnumbers⟩ | ⟨heq, frame, hopened⟩
  · exact ih w hw (hv.next hw) hnumbers
  · exact ⟨v, frame, hv, hopened, heq⟩

end Visited

/-! ## The scopes around a scope -/

/-- A scope is that of the whole text or the one that some node opens. -/
theorem frame_cases (ht : Ordered t) (hframe : (framesOf tracked t)[k]? = some frame) :
    (k = 0 ∧ frame = moduleFrame t) ∨ ∃ v, Visited tracked t v ∧
      k = fresh tracked v.place v.numbering v.tree ∧
        Opened tracked v.place v.numbering v.tree frame := by
  by_cases hk : k = 0
  · subst hk
    exact .inl ⟨rfl, (Option.some.inj hframe).symm⟩
  · have hnumbers : (wholeVisit t).Numbers tracked k := by
      have hlength := (List.getElem?_eq_some_iff.1 hframe).1
      rw [framesOf, List.length_cons] at hlength
      have hfound : (wholeVisit t).found tracked = walk tracked ⟨0, 0, []⟩ ⟨1, 0⟩ t := rfl
      constructor
      · show 1 ≤ k
        omega
      · show k < 1 + ((wholeVisit t).found tracked).frames.length
        rw [hfound]
        omega
    obtain ⟨v, f, hv, hopened, rfl⟩ := Visited.whole.exists_opened ht hnumbers
    obtain rfl : f = frame := Option.some.inj ((hv.opened hopened).symm.trans hframe)
    exact .inr ⟨v, hv, rfl, hopened⟩

/-- The scope around a scope has a smaller number, and its region holds the region of the scope.  No
scope with a number in between has an offset with it in common. -/
theorem parent_spec (ht : Ordered t) (hframe : (framesOf tracked t)[k]? = some frame)
    (hk : 0 < k) : ∃ parent, frame.parent = some parent ∧ parent < k ∧
      Inside (framesOf tracked t) parent frame.region ∧ ∀ j frame', parent < j → j < k →
        (framesOf tracked t)[j]? = some frame' → frame'.region.Apart frame.region := by
  rcases frame_cases ht hframe with ⟨rfl, -⟩ | ⟨v, hv, rfl, hopened⟩
  · omega
  have hordered := hv.ordered ht
  have hlt := hv.scope_lt ht
  have hle : v.numbering.scope ≤ fresh tracked v.place v.numbering v.tree := le_fresh
  refine ⟨v.place.scope, hopened.parent, by omega, (hv.inside ht).within hopened.within, ?_⟩
  intro j frame' hparent hj hframe'
  by_cases hnumbers : v.Numbers tracked j
  · -- The other scope is opened in a part of the node that stays outside.
    rcases numbers_cases hordered hnumbers with ⟨w, hw, hnumbers'⟩ | ⟨rfl, -⟩
    · have hwouter : w ∈ (course tracked v.place v.numbering v.tree).outer := by
        rcases List.mem_append.1 hw with hw | hw
        · exact hw
        · have := fresh_lt hw hopened.pos
          have := hnumbers'.1
          omega
      have hregion := (hv.next hw).region_within ht hnumbers' hframe'
      exact (hopened.apart w hwouter).within hregion (.refl _)
    · omega
  · exact (hv.region_apart ht hparent hnumbers hframe').within (.refl _) hopened.within

theorem parent_lt (ht : Ordered t) {scope : Scope}
    (hk : (resolve tracked t).scopes[k]? = some scope) (hparent : scope.frame.parent = some j) :
    j < k := by
  rw [resolve_getElem?] at hk
  obtain ⟨frame, hframe, rfl⟩ := Option.map_eq_some_iff.1 hk
  by_cases hpos : 0 < k
  · obtain ⟨parent, heq, hlt, -⟩ := parent_spec ht hframe hpos
    cases heq.symm.trans hparent
    exact hlt
  · obtain rfl : k = 0 := by omega
    cases hframe
    cases hparent

end Longhand.Scope
