/-!
# Lines of a text

For a comparison a text is cut after each line feed, each carriage return with a line feed, and each
lone carriage return.  The ends stay with their lines, so the lines make up the text again.
-/

namespace Longhand.Diff

/-- Put a character before the first of some lines. -/
def consLine (c : Char) : List (List Char) → List (List Char)
  | [] => [[c]]
  | line :: rest => (c :: line) :: rest

/-- The lines of a text, with their ends. -/
def lines : List Char → List (List Char)
  | [] => []
  | '\n' :: rest => ['\n'] :: lines rest
  | '\r' :: '\n' :: rest => ['\r', '\n'] :: lines rest
  | '\r' :: rest => ['\r'] :: lines rest
  | c :: rest => consLine c (lines rest)

@[simp] theorem flatten_consLine (c : Char) (ls : List (List Char)) :
    (consLine c ls).flatten = c :: ls.flatten := by
  cases ls <;> simp [consLine]

/-- Cutting into lines loses nothing. -/
@[simp] theorem flatten_lines (cs : List Char) : (lines cs).flatten = cs := by
  fun_induction lines cs <;> simp_all

/-- Whether a line has its end. -/
def isTerminated (line : List Char) : Bool :=
  match line.getLast? with
  | some c => c == '\n' || c == '\r'
  | none => false

end Longhand.Diff
