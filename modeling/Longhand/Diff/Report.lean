import Longhand.Diff.Unified

/-!
# Reports of one file

What is made of the new text of a file: a note that it differs, a diff, or the contents to be
written.  A text that stays the same never yields anything, whatever is asked for.
-/

namespace Longhand.Diff

/-- What is asked for when a file would change. -/
inductive Mode where
  | check
  | diff
  | write
  deriving Repr, DecidableEq, Inhabited

/-- What a report holds besides the fact that the text differs. -/
inductive Payload where
  | diff (text : String) (stats : Stats)
  | contents (text : String)
  deriving Repr, DecidableEq

/-- The comparison of the old and the new text of a file. -/
structure Report where
  changed : Bool
  payload : Option Payload
  deriving Repr, DecidableEq

/-- The lines of context around the hunks of a report. -/
def contextLines : Nat := 5

/-- Compare the old and the new text of a file. -/
def report (path : String) (old new : String) (mode : Mode) : Report :=
  if old = new then ⟨false, none⟩
  else
    match mode with
    | .check => ⟨true, none⟩
    | .diff =>
        let (text, stats) := unified path old.toList new.toList contextLines
        ⟨true, some (.diff text stats)⟩
    | .write => ⟨true, some (.contents new)⟩

end Longhand.Diff
