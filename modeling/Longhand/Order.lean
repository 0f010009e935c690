/-!
# Stable sorting

Insertion of one element into a sorted list, and the sort that inserts from the right.  Elements
that compare equal keep the order they had.
-/

namespace Longhand

variable {α : Type}

/-- Put an element before the first one that it does not have to follow. -/
def orderedInsert (le : α → α → Bool) (a : α) : List α → List α
  | [] => [a]
  | b :: rest => if le a b then a :: b :: rest else b :: orderedInsert le a rest

/-- The elements of a list in ascending order, equal ones in the order they had. -/
def stableSort (le : α → α → Bool) : List α → List α
  | [] => []
  | a :: rest => orderedInsert le a (stableSort le rest)

theorem orderedInsert_perm (le : α → α → Bool) (a : α) (l : List α) :
    (orderedInsert le a l).Perm (a :: l) := by
  induction l with
  | nil => exact .refl _
  | cons b rest ih =>
      unfold orderedInsert
      split
      · exact .refl _
      · exact (ih.cons b).trans (.swap a b rest)

theorem stableSort_perm (le : α → α → Bool) (l : List α) : (stableSort le l).Perm l := by
  induction l with
  | nil => exact .refl _
  | cons a rest ih => exact (orderedInsert_perm le a _).trans (ih.cons a)

theorem mem_stableSort {le : α → α → Bool} {a : α} {l : List α} :
    a ∈ stableSort le l ↔ a ∈ l :=
  (stableSort_perm le l).mem_iff

/-- Insertion of an element into a sorted list keeps it sorted. -/
theorem orderedInsert_pairwise {le : α → α → Bool} (total : ∀ a b, le a b = true ∨ le b a = true)
    (trans : ∀ a b c, le a b = true → le b c = true → le a c = true) (a : α) {l : List α}
    (h : l.Pairwise fun a b => le a b = true) :
    (orderedInsert le a l).Pairwise fun a b => le a b = true := by
  induction l with
  | nil => exact .cons (fun _ hmem => nomatch hmem) .nil
  | cons b rest ih =>
      obtain ⟨hfirst, hrest⟩ := List.pairwise_cons.1 h
      unfold orderedInsert
      split
      · rename_i hle
        refine .cons ?_ h
        intro c hc
        rcases List.mem_cons.1 hc with rfl | hc
        · exact hle
        · exact trans a b c hle (hfirst c hc)
      · rename_i hlt
        refine .cons ?_ (ih hrest)
        intro c hc
        rcases List.mem_cons.1 ((orderedInsert_perm le a rest).mem_iff.1 hc) with rfl | hc
        · exact (total b c).resolve_right hlt
        · exact hfirst c hc

theorem stableSort_pairwise {le : α → α → Bool} (total : ∀ a b, le a b = true ∨ le b a = true)
    (trans : ∀ a b c, le a b = true → le b c = true → le a c = true) (l : List α) :
    (stableSort le l).Pairwise fun a b => le a b = true := by
  induction l with
  | nil => exact .nil
  | cons a rest ih => exact orderedInsert_pairwise total trans a ih

/-- A sorted list stays as it is. -/
theorem stableSort_of_pairwise {le : α → α → Bool} {l : List α}
    (h : l.Pairwise fun a b => le a b = true) : stableSort le l = l := by
  induction l with
  | nil => rfl
  | cons a rest ih =>
      obtain ⟨hfirst, hrest⟩ := List.pairwise_cons.1 h
      rw [stableSort, ih hrest]
      cases rest with
      | nil => rfl
      | cons b rest => rw [orderedInsert, if_pos (hfirst b List.mem_cons_self)]

/-- Keep the first of each class of equal elements. -/
def firstOfEach (same : α → α → Bool) : List α → List α
  | [] => []
  | a :: rest => a :: (firstOfEach same rest).filter fun b => !same a b

/-- A three-way comparison of lists, the first difference deciding and a shorter list first. -/
def compareLists (compare : α → α → Ordering) : List α → List α → Ordering
  | [], [] => .eq
  | [], _ :: _ => .lt
  | _ :: _, [] => .gt
  | a :: as, b :: bs => (compare a b).then (compareLists compare as bs)

end Longhand
