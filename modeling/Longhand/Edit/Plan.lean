import Longhand.Edit.Patch
import Longhand.Tracked.Set

/-!
# Planning renames

From the calls of tracked modules to the renames of their keyword arguments.  A keyword whose flag
the table of its module maps to another name is a candidate.  A candidate is renamed unless the call
would then hold two arguments of one name.
-/

namespace Longhand.Edit

/-- The name of a keyword argument and where it stands. -/
structure Keyword where
  name : String
  span : Text.Span
  value : Text.Span
  position : Text.Position
  deriving Repr, DecidableEq, Inhabited

/-- A call of a command of a tracked module. -/
structure Call where
  place : Nat
  command : String
  span : Text.Span
  keywords : List Keyword
  deriving Repr, DecidableEq, Inhabited

/-- The replacement of a short flag by its long name in a call of a command. -/
structure Rename where
  position : Text.Position
  command : String
  short : String
  long : String
  deriving Repr, DecidableEq, Inhabited

/-- Why a candidate is not renamed. -/
inductive ConflictReason where
  | alreadyPresent
  | duplicateTarget
  deriving Repr, DecidableEq

/-- A rename that would give a call two arguments of one name. -/
structure Conflict where
  rename : Rename
  reason : ConflictReason
  deriving Repr, DecidableEq

/-- A rename together with the span of the name that it replaces. -/
structure Change where
  span : Text.Span
  rename : Rename
  deriving Repr, DecidableEq, Inhabited

/-- The changes of one text in ascending order of their spans, and the conflicts in the order of
the calls. -/
structure Plan where
  changes : List Change
  conflicts : List Conflict
  deriving Repr, DecidableEq, Inhabited

/-- The edit of the text that a change stands for. -/
def Change.edit (c : Change) : Edit :=
  ⟨c.span, c.rename.long.toList⟩

/-- The order of changes: that of their edits. -/
def Change.le (a b : Change) : Bool :=
  a.edit.le b.edit

namespace Plan

/-- The plan that changes nothing. -/
def empty : Plan := ⟨[], []⟩

def edits (p : Plan) : List Edit :=
  p.changes.map Change.edit

def renames (p : Plan) : List Rename :=
  p.changes.map (·.rename)

def isEmpty (p : Plan) : Bool :=
  p.changes.isEmpty

end Plan

/-- The other name that a table gives to a keyword of a command. -/
def candidate? (table : Flag.Table) (command : String) (k : Keyword) : Option (Keyword × String) :=
  match table.lookup command k.name with
  | none => none
  | some long => if long == k.name then none else some (k, long)

/-- Why a keyword cannot take its long name: the name is written in the call, or several of the
call's candidates have it. -/
def conflict? (keywords : List Keyword) (targets : List String) (long : String) :
    Option ConflictReason :=
  if keywords.any (·.name == long) then some .alreadyPresent
  else if 1 < targets.count long then some .duplicateTarget
  else none

/-- The changes and conflicts of one call, in the order of its keywords. -/
def planCall (table : Flag.Table) (call : Call) : List (Change ⊕ Conflict) :=
  let candidates := call.keywords.filterMap (candidate? table call.command)
  let targets := candidates.map Prod.snd
  candidates.map fun (k, long) =>
    let rename : Rename := ⟨k.position, call.command, k.name, long⟩
    match conflict? call.keywords targets long with
    | none => .inl ⟨k.span, rename⟩
    | some reason => .inr ⟨rename, reason⟩

/-- The changes and conflicts of some calls, in the order of the calls.  There are none when a call
belongs to no module of the set. -/
def planCalls (tracked : Tracked.Set) : List Call → Option (List (Change ⊕ Conflict))
  | [] => some []
  | call :: rest =>
      match tracked.table? call.place, planCalls tracked rest with
      | some table, some entries => some (planCall table call ++ entries)
      | _, _ => none

/-- The plan of some calls. -/
def plan? (tracked : Tracked.Set) (calls : List Call) : Option Plan :=
  match planCalls tracked calls with
  | none => none
  | some entries => some
      { changes := stableSort Change.le (entries.filterMap Sum.getLeft?)
        conflicts := entries.filterMap Sum.getRight? }

end Longhand.Edit
