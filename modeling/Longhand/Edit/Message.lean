import Longhand.Edit.Plan
import Longhand.Text.Quoted

/-!
# The wording of renames and conflicts
-/

namespace Longhand.Edit

/-- The line and column before a message. -/
def located (p : Text.Position) (message : String) : String :=
  toString p.line ++ ":" ++ toString p.column ++ ": " ++ message

def Rename.text (r : Rename) : String :=
  located r.position (r.command ++ ": " ++ r.short ++ " -> " ++ r.long)

def ConflictReason.text : ConflictReason → String
  | .alreadyPresent => "long name already passed"
  | .duplicateTarget => "several flags map to the same long name"

def Conflict.text (c : Conflict) : String :=
  located c.rename.position
    (c.rename.command ++ ": not renaming " ++ c.rename.short ++ " to " ++ c.rename.long ++ " ("
      ++ c.reason.text ++ ")")

/-- An edit as it is named in a report of overlapping edits. -/
def described (e : Edit) : String :=
  "Replacement \x7b start: " ++ toString e.span.start ++ ", end: " ++ toString e.span.stop
    ++ ", new_text: " ++ Text.quoted (String.ofList e.text) ++ " \x7d"

def PatchError.message : PatchError → Option String
  | .overlap a b =>
      some ("Overlapping replacements detected: " ++ a.described ++ " and " ++ b.described)
  | .misfit => none

end Longhand.Edit
