import Longhand.Proofs.Nesting

/-!
# Nodes that are searched and visited

The search for calls counts how deep a node is in the tree.  The walk over the scopes of the tree
counts the same, save that the cases of a match statement are one level higher for it than for the
search.  So it visits each call and each import statement that the search arrives at.
-/

namespace Longhand.Scope

open Syntax Text

variable {tracked : Tracked.Set} {p : Place} {n : Numbering} {root t u c : Tree} {depth : Nat}
  {w : Visit}

@[simp] theorem Place.below_depth (p : Place) : p.below.depth = p.depth + 1 := rfl

@[simp] theorem Place.arm_depth (p : Place) (statement number : Nat) (t : Tree) :
    (p.arm statement number t).depth = p.depth := rfl

theorem InArm.place_depth {statement : Nat} (h : InArm p statement w) : w.place.depth = p.depth := by
  rcases h with h | ⟨number, h⟩
  · rw [h]
  · rw [h, Place.arm_depth]

/-- Each selected tree is visited. -/
theorem exists_visitsAll {selection : Selection} {ts : List Tree} (hc : c ∈ ts)
    (hholds : selection.holds c = true) :
    ∃ w ∈ visitsAll tracked selection p n ts, w.tree = c ∧ w.place = p := by
  have hmem : c ∈ (visitsAll tracked selection p n ts).map Visit.tree := by
    rw [visitsAll_trees]
    exact List.mem_filter.2 ⟨hc, hholds⟩
  obtain ⟨w, hw, htree⟩ := List.mem_map.1 hmem
  exact ⟨w, hw, htree, mem_visitsAll hw⟩

/-- Whether a node is visited among some walks, one level below a place. -/
def VisitedIn (vs : List Visit) (p : Place) (c : Tree) : Prop :=
  ∃ w ∈ vs, w.tree = c ∧ w.place.depth = p.depth + 1

/-- A child of a node is visited, or there are no calls and statements in it, or it is the block of a
match statement and all its children are visited. -/
theorem child_cases (tracked : Tracked.Set) (n : Numbering) (ht : Sourced t)
    (hdepth : p.depth ≤ depthLimit) (hc : c ∈ t.children) :
    VisitedIn (course tracked p n t).next p c ∨ Inert c ∨
      (c.kind = .block ∧ ∀ d ∈ c.children, VisitedIn (course tracked p n t).next p d) := by
  -- A child that the course selects is visited one level further down.
  have selected : ∀ (selection : Selection) (m : Numbering) (q : Place) {vs : List Visit},
      (∀ w ∈ visitsAll tracked selection q m t.children, w ∈ vs) → q.depth = p.depth + 1 →
      selection.holds c = true → VisitedIn vs p c := by
    intro selection m q vs hvs hq hholds
    obtain ⟨w, hw, htree, hplace⟩ := exists_visitsAll (p := q) (n := m) hc hholds
    exact ⟨w, hvs w hw, htree, by rw [hplace, hq]⟩
  unfold course
  rw [if_neg (Nat.not_lt.2 hdepth)]
  split
  · exact .inr (.inl (name_of_import ht ‹_› hc).1)
  split
  · exact .inl (selected _ _ _ (fun _ h => h) rfl rfl)
  split
  · -- All parts of a branching statement are visited, and so are the cases of a match statement.
    have arms : ∀ {d : Tree}, d ∈ armTrees t.kind t.children →
        VisitedIn (branchCourse tracked p n t).next p d := by
      intro d hd
      have htrees : (visitsArms tracked t.kind n.statement p.below (n.after { statements := 1 }) 1
          t.children).map Visit.tree = armTrees t.kind t.children := visitsArms_trees ..
      rw [← htrees] at hd
      obtain ⟨w, hw, htree⟩ := List.mem_map.1 hd
      exact ⟨w, hw, htree, InArm.place_depth (mem_visitsArms hw)⟩
    by_cases hmatch : t.kind = .matchStatement ∧ c.role = some .body
    · obtain ⟨hkind, hrole⟩ := hmatch
      have hshape := ht.formed.shape (by rw [hkind]; rfl)
      rw [hkind] at hshape
      obtain ⟨subjects, block, hcs, hsubjects, -, hblock, -⟩ := hshape
      have hce : c = block := by
        rw [hcs] at hc
        rcases List.mem_append.1 hc with hc | hc
        · rw [(hsubjects c hc).2] at hrole
          cases hrole
        · exact List.mem_singleton.1 hc
      refine .inr (.inr ⟨by simp [hce, hblock], fun d hd => arms ?_⟩)
      exact List.mem_flatMap.2 ⟨c, hc, by simp [hkind, hrole, hd]⟩
    · exact .inl (arms (List.mem_flatMap.2 ⟨c, hc, by rw [if_neg (by simpa using hmatch)]; simp⟩))
  split
  · -- The children of a function or a class are its body and those before it.
    rename_i k hk
    obtain ⟨outer, body, hcs, hbody, houter⟩ := exists_body ht hk
    have hchild := child?_body hcs hbody fun u hu => (houter u hu).1
    unfold bodyCourse
    rw [hchild]
    dsimp only
    left
    rw [hcs] at hc
    rcases List.mem_append.1 hc with hmem | hmem
    · refine selected .allButBody _ p.below
        (fun w hw => List.mem_append_left _ hw) rfl ?_
      simpa [Selection.holds] using (houter c hmem).1
    · rw [List.mem_singleton.1 hmem]
      exact ⟨_, List.mem_append_right _ List.mem_cons_self, rfl, rfl⟩
  · exact .inl (selected .all n p.below
      (fun w hw => List.mem_append_left _ hw) rfl rfl)

theorem isStatement_of_isImport {k : Kind} (h : isImport k = true) : k.isStatement = true := by
  unfold isImport at h
  split at h
  · rfl
  · rfl
  · cases h

/-- Whether the walk over a text visits a node that has some depth for the search, or all nodes
directly below it, or need not visit any. -/
def Covered (tracked : Tracked.Set) (root : Tree) (depth : Nat) (t : Tree) : Prop :=
  (∃ v, Visited tracked root v ∧ v.tree = t ∧ v.place.depth ≤ depth) ∨ Inert t ∨
    (t.kind = .block ∧ ∀ c ∈ t.children, ∃ v, Visited tracked root v ∧ v.tree = c ∧
      v.place.depth ≤ depth + 1)

theorem Covered.child (hroot : Sourced root) (h : Covered tracked root depth t)
    (hdepth : depth ≤ depthLimit) (hc : c ∈ t.children) : Covered tracked root (depth + 1) c := by
  rcases h with ⟨v, hv, rfl, hle⟩ | hinert | ⟨-, hvisited⟩
  · have next : ∀ {d : Tree}, VisitedIn (v.next tracked) v.place d →
        ∃ w, Visited tracked root w ∧ w.tree = d ∧ w.place.depth ≤ depth + 1 := by
      rintro d ⟨w, hw, htree, hplace⟩
      exact ⟨w, hv.next hw, htree, by omega⟩
    rcases child_cases tracked v.numbering (hroot.node hv.isNode) (Nat.le_trans hle hdepth) hc with
      hvisited | hinert | ⟨hkind, hvisited⟩
    · exact .inl (next hvisited)
    · exact .inr (.inl hinert)
    · refine .inr (.inr ⟨hkind, fun d hd => ?_⟩)
      obtain ⟨w, hw, htree, hplace⟩ := next (hvisited d hd)
      exact ⟨w, hw, htree, Nat.le_succ_of_le hplace⟩
  · exact .inr (.inl ((inert_iff.1 hinert).2 c hc))
  · exact .inl (hvisited c hc)

/-- Each node at which the search arrives is visited by the walk over the scopes, no deeper than the
walk goes, unless nothing in the node matters for scopes or it is a block. -/
theorem Searched.visited_of_not_inert (tracked : Tracked.Set) (hroot : Sourced root)
    (hu : Searched u 0 root) (hinert : ¬ Inert u) (hblock : u.kind ≠ .block) :
    ∃ v, Visited tracked root v ∧ v.tree = u ∧ v.place.depth ≤ depthLimit := by
  have below : ∀ {depth : Nat} {t : Tree}, Searched u depth t → Covered tracked root depth t →
      ∃ v, Visited tracked root v ∧ v.tree = u ∧ v.place.depth ≤ depthLimit := by
    intro depth t h
    induction h with
    | here hle =>
        rintro (⟨v, hv, htree, hdepth⟩ | h | ⟨h, -⟩)
        · exact ⟨v, hv, htree, Nat.le_trans hdepth hle⟩
        · exact absurd h hinert
        · exact absurd h hblock
    | inside hle hmem _ ih => exact fun hcovered => ih (hcovered.child hroot hle hmem)
  exact below hu (.inl ⟨wholeVisit root, .whole, rfl, Nat.le_refl _⟩)

/-- Each call and each import statement at which the search arrives is visited by the walk over the
scopes, no deeper than the walk goes. -/
theorem Searched.visited (tracked : Tracked.Set) (hroot : Sourced root) (hu : Searched u 0 root)
    (hkind : u.kind = .call ∨ isImport u.kind = true) :
    ∃ v, Visited tracked root v ∧ v.tree = u ∧ v.place.depth ≤ depthLimit := by
  refine hu.visited_of_not_inert tracked hroot (fun hinert => ?_) fun hblock => ?_
  · obtain ⟨⟨hcall, hstatement, -⟩, -⟩ := inert_iff.1 hinert
    rcases hkind with hkind | hkind
    · exact hcall hkind
    · rw [isStatement_of_isImport hkind] at hstatement
      cases hstatement
  · rw [hblock] at hkind
    rcases hkind with hkind | hkind <;> cases hkind

end Longhand.Scope
