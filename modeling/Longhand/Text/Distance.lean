/-!
# Edit distance

The least number of insertions, deletions and replacements of single characters that lead from one
text to another, computed row by row.
-/

namespace Longhand.Text

/-- The rest of the row of a character, given the entry to its left, the characters of the columns
to come, and the row above from the entry above the left one on. -/
def rowAfter (c : Char) (left : Nat) : List Char → List Nat → List Nat
  | d :: ds, corner :: above :: further =>
      let entry := min (min (left + 1) (above + 1)) (corner + if c = d then 0 else 1)
      entry :: rowAfter c entry ds (above :: further)
  | _, _ => []

/-- The row below another one. -/
def nextRow (target : List Char) (row : List Nat) (c : Char) : List Nat :=
  let first := row.headD 0 + 1
  first :: rowAfter c first target row

/-- The distance between two texts. -/
def distance (source target : List Char) : Nat :=
  (source.foldl (nextRow target) (List.range (target.length + 1))).getLastD 0

end Longhand.Text
