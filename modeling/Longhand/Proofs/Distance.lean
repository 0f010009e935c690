import Longhand.Text.Distance

/-!
# The least number of edits

Edits lead from one text to another, character by character: one is kept, replaced, put in or left
out.  The distance of two texts is the least number of edits, kept characters apart.  It is found
row by row, each row holding the distances of one beginning of the first text from all beginnings of
the second one.
-/

namespace Longhand.Text

variable {a b a' b' target : List Char} {c d : Char} {k m n : Nat}

/-- One text becomes another by some number of edits. -/
inductive Edits : List Char → List Char → Nat → Prop
  | nil : Edits [] [] 0
  | keep (c : Char) {a b : List Char} {n : Nat} (h : Edits a b n) : Edits (c :: a) (c :: b) n
  | replace (c d : Char) {a b : List Char} {n : Nat} (h : Edits a b n) :
      Edits (c :: a) (d :: b) (n + 1)
  | insert (d : Char) {a b : List Char} {n : Nat} (h : Edits a b n) : Edits a (d :: b) (n + 1)
  | delete (c : Char) {a b : List Char} {n : Nat} (h : Edits a b n) : Edits (c :: a) b (n + 1)

namespace Edits

theorem append (h : Edits a b n) (h' : Edits a' b' m) : Edits (a ++ a') (b ++ b') (n + m) := by
  induction h with
  | nil => simpa using h'
  | keep c _ ih => exact .keep c ih
  | replace c d _ ih => rw [Nat.add_right_comm]; exact .replace c d ih
  | insert d _ ih => rw [Nat.add_right_comm]; exact .insert d ih
  | delete c _ ih => rw [Nat.add_right_comm]; exact .delete c ih

/-- The texts may be read from their ends. -/
theorem reverse (h : Edits a b n) : Edits a.reverse b.reverse n := by
  -- What is done first to the texts is done last to the reversed ones.
  induction h with
  | nil => exact .nil
  | keep c _ ih => simpa using ih.append (.keep c .nil)
  | replace c d _ ih => simpa using ih.append (.replace c d .nil)
  | insert d _ ih => simpa using ih.append (.insert d .nil)
  | delete c _ ih => simpa using ih.append (.delete c .nil)

theorem of_reverse (h : Edits a.reverse b.reverse n) : Edits a b n := by
  simpa using h.reverse

/-- All characters of a text are put in. -/
theorem insertAll (b : List Char) : Edits [] b b.length := by
  induction b with
  | nil => exact .nil
  | cons d rest ih => exact .insert d ih

/-- Each character that is not there has to be put in. -/
theorem length_le (h : Edits [] b n) : b.length ≤ n := by
  generalize ha : ([] : List Char) = a at h
  induction h with
  | nil => exact Nat.le_refl _
  | insert d _ ih => exact Nat.succ_le_succ (ih ha)
  | keep | replace | delete => cases ha

/-- The last edit keeps, replaces, puts in or leaves out the last character. -/
theorem cases_last (h : Edits (a ++ [c]) (b ++ [d]) n) :
    (c = d ∧ Edits a b n) ∨
      ∃ m, n = m + 1 ∧ (Edits a b m ∨ Edits (a ++ [c]) b m ∨ Edits a (b ++ [d]) m) := by
  have hback := h.reverse
  rw [List.reverse_concat, List.reverse_concat] at hback
  cases hback with
  | keep _ hrest => exact .inl ⟨rfl, hrest.of_reverse⟩
  | replace _ _ hrest => exact .inr ⟨_, rfl, .inl hrest.of_reverse⟩
  | insert _ hrest => exact .inr ⟨_, rfl, .inr (.inl (of_reverse (by simpa using hrest)))⟩
  | delete _ hrest => exact .inr ⟨_, rfl, .inr (.inr (of_reverse (by simpa using hrest)))⟩

/-- If all characters are left out, so is the last one. -/
theorem cases_last_nil (h : Edits (a ++ [c]) [] n) : ∃ m, n = m + 1 ∧ Edits a [] m := by
  have hback := h.reverse
  rw [List.reverse_concat] at hback
  cases hback with
  | delete _ hrest => exact ⟨_, rfl, hrest.of_reverse⟩

end Edits

/-- The least number of edits that lead from one text to another. -/
structure IsDistance (a b : List Char) (n : Nat) : Prop where
  reached : Edits a b n
  least : ∀ m, Edits a b m → n ≤ m

namespace IsDistance

theorem unique (h : IsDistance a b n) (h' : IsDistance a b m) : n = m :=
  Nat.le_antisymm (h.least m h'.reached) (h'.least n h.reached)

theorem nil (b : List Char) : IsDistance [] b b.length :=
  ⟨.insertAll b, fun _ => Edits.length_le⟩

/-- One character more has to be left out. -/
theorem deleted (h : IsDistance a [] n) : IsDistance (a ++ [c]) [] (n + 1) := by
  refine ⟨h.reached.append (.delete c .nil), fun m hm => ?_⟩
  obtain ⟨l, rfl, hl⟩ := hm.cases_last_nil
  exact Nat.succ_le_succ (h.least l hl)

/-- The distance of two texts from those of their beginnings, each one character shorter. -/
theorem concat (hleft : IsDistance (a ++ [c]) b k) (habove : IsDistance a (b ++ [d]) m)
    (hcorner : IsDistance a b n) :
    IsDistance (a ++ [c]) (b ++ [d])
      (min (min (k + 1) (m + 1)) (n + if c = d then 0 else 1)) := by
  -- There are three ways to treat the last characters, each after edits of a beginning.
  have hinsert : Edits (a ++ [c]) (b ++ [d]) (k + 1) := by
    simpa using hleft.reached.append (.insert d .nil)
  have hdelete : Edits (a ++ [c]) (b ++ [d]) (m + 1) := by
    simpa using habove.reached.append (.delete c .nil)
  have hboth : Edits (a ++ [c]) (b ++ [d]) (n + if c = d then 0 else 1) := by
    split
    · rename_i heq
      exact hcorner.reached.append (heq ▸ .keep c .nil)
    · exact hcorner.reached.append (.replace c d .nil)
  constructor
  · rcases Nat.le_total (min (k + 1) (m + 1)) (n + if c = d then 0 else 1) with hle | hle
    · rw [Nat.min_eq_left hle]
      rcases Nat.le_total (k + 1) (m + 1) with hle | hle
      · rwa [Nat.min_eq_left hle]
      · rwa [Nat.min_eq_right hle]
    · rwa [Nat.min_eq_right hle]
  · -- Any edits treat the last characters in one of these ways, and the rest no better.
    intro total htotal
    rcases htotal.cases_last with ⟨rfl, hkept⟩ | ⟨l, rfl, hl | hl | hl⟩
    · have hle := hcorner.least total hkept
      simp only [if_true]
      omega
    · have hle := hcorner.least l hl
      split <;> omega
    · have hle := hleft.least l hl
      omega
    · have hle := habove.least l hl
      omega

end IsDistance

/-- The distances of a text from another one and from what it becomes character by character. -/
inductive Row (a : List Char) : List Char → List Char → List Nat → Prop
  | last {b : List Char} {n : Nat} (h : IsDistance a b n) : Row a b [] [n]
  | cons {b ds : List Char} {d : Char} {n : Nat} {row : List Nat} (h : IsDistance a b n)
      (hrow : Row a (b ++ [d]) ds row) : Row a b (d :: ds) (n :: row)

namespace Row

variable {ds : List Char} {row : List Nat}

theorem exists_cons (h : Row a b ds row) : ∃ n rest, row = n :: rest ∧ IsDistance a b n := by
  cases h with
  | last h => exact ⟨_, _, rfl, h⟩
  | cons h _ => exact ⟨_, _, rfl, h⟩

/-- The row of the empty text. -/
theorem start (b ds : List Char) : Row [] b ds (List.range' b.length (ds.length + 1)) := by
  induction ds generalizing b with
  | nil => exact .last (.nil b)
  | cons d rest ih =>
      rw [List.length_cons, List.range'_succ]
      refine .cons (.nil b) ?_
      simpa using ih (b ++ [d])

theorem rowAfter (h : Row a b ds row) (hleft : IsDistance (a ++ [c]) b k) :
    Row (a ++ [c]) b ds (k :: rowAfter c k ds row) := by
  induction h generalizing k with
  | last _ => exact .last hleft
  | @cons b ds d n row hcorner hrow ih =>
      -- The distance above is the next one of the old row.
      obtain ⟨m, rest, rfl, habove⟩ := hrow.exists_cons
      exact .cons hleft (ih (hleft.concat habove hcorner))

theorem nextRow (h : Row a [] target row) : Row (a ++ [c]) [] target (nextRow target row c) := by
  obtain ⟨n, rest, rfl, hfirst⟩ := h.exists_cons
  exact h.rowAfter hfirst.deleted

theorem foldl_nextRow (source : List Char) (h : Row a [] target row) :
    Row (a ++ source) [] target (source.foldl (Text.nextRow target) row) := by
  induction source generalizing a row with
  | nil => simpa using h
  | cons c rest ih => simpa using ih h.nextRow

theorem getLastD (h : Row a b ds row) : IsDistance a (b ++ ds) (row.getLastD 0) := by
  induction h with
  | last h => simpa using h
  | @cons b ds d n row _ hrow ih =>
      obtain ⟨m, rest, rfl, -⟩ := hrow.exists_cons
      simpa using ih

end Row

/-- The distance is the least number of edits. -/
theorem isDistance_distance (source target : List Char) :
    IsDistance source target (distance source target) := by
  have hstart : Row [] [] target (List.range (target.length + 1)) := by
    rw [List.range_eq_range']
    exact Row.start [] target
  exact (hstart.foldl_nextRow source).getLastD

end Longhand.Text
