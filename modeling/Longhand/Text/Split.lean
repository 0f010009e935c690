import Longhand.Text.CharClass

/-!
# Cutting and joining texts

Splitting at a separator, trimming blanks and searching for a part, on lists of characters.
Splitting and joining at a separator undo each other.
-/

namespace Longhand.Text

/-- The parts of a text between the occurrences of a separator.  There is always at least one. -/
def splitOn (separator : Char) : List Char → List (List Char)
  | [] => [[]]
  | c :: rest =>
      if c == separator then [] :: splitOn separator rest
      else
        match splitOn separator rest with
        | [] => [[c]]
        | part :: parts => (c :: part) :: parts

theorem splitOn_ne_nil (separator : Char) (cs : List Char) : splitOn separator cs ≠ [] := by
  cases cs with
  | nil => simp [splitOn]
  | cons c rest =>
      unfold splitOn
      split
      · simp
      · split <;> simp

/-- The parts of a text with a separator between each two. -/
def joinWith (separator : List Char) (parts : List (List Char)) : List Char :=
  separator.intercalate parts

theorem joinWith_splitOn (separator : Char) (cs : List Char) :
    joinWith [separator] (splitOn separator cs) = cs := by
  induction cs with
  | nil => rfl
  | cons c rest ih =>
      unfold splitOn
      split
      · rename_i h
        cases hs : splitOn separator rest with
        | nil => exact absurd hs (splitOn_ne_nil separator rest)
        | cons part parts =>
            rw [hs] at ih
            simpa [joinWith, List.intercalate, beq_iff_eq.1 h] using ih
      · cases hs : splitOn separator rest with
        | nil => exact absurd hs (splitOn_ne_nil separator rest)
        | cons part parts =>
            rw [hs] at ih
            cases parts <;> simp_all [joinWith, List.intercalate]

/-- The parts before and after the first occurrence of a separator. -/
def cutFirst? (separator : Char) : List Char → Option (List Char × List Char)
  | [] => none
  | c :: rest =>
      if c == separator then some ([], rest)
      else (cutFirst? separator rest).map fun (before, after) => (c :: before, after)

/-- The parts before and after the last occurrence of a separator. -/
def cutLast? (separator : Char) : List Char → Option (List Char × List Char)
  | [] => none
  | c :: rest =>
      match cutLast? separator rest with
      | some (before, after) => some (c :: before, after)
      | none => if c == separator then some ([], rest) else none

/-- A text without the blanks at its two ends. -/
def trim (cs : List Char) : List Char :=
  ((cs.dropWhile isBlank).reverse.dropWhile isBlank).reverse

/-- Whether one text occurs in another. -/
def occursIn (part : List Char) : List Char → Bool
  | [] => part.isEmpty
  | c :: rest => part.isPrefixOf (c :: rest) || occursIn part rest

end Longhand.Text
