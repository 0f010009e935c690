import Longhand.Tracked.Spec
import Longhand.Flag.Table
import Longhand.Order

/-!
# The set of tracked modules

Tracked modules in order, no two with the same path, and the table for those without one of their
own.  A module is known by its place in the set.
-/

namespace Longhand.Tracked

/-- A tracked module and the table that replaces the default one for it, if any. -/
structure Member where
  spec : Spec
  table : Option Flag.Table := none

/-- The modules of a run and the default table. -/
structure Set where
  members : List Member
  default : Flag.Table

namespace Set

/-- The set of some modules.  Of several with one path the first stays. -/
def ofList (members : List Member) (default : Flag.Table) : Set :=
  { members := firstOfEach (fun a b => a.spec.path == b.spec.path) members, default }

/-- The full paths of the modules, in order. -/
def paths (s : Set) : List String :=
  s.members.map (·.spec.path)

/-- The place of the module with a given path. -/
def find? (s : Set) (path : String) : Option Nat :=
  s.paths.idxOf? path

/-- Whether a path followed by a dot begins the path of some module. -/
def hasPackage (s : Set) (path : String) : Bool :=
  s.paths.any fun p => (path.toList ++ ['.']).isPrefixOf p.toList

/-- The table for the module at a place, if there is a module. -/
def table? (s : Set) (place : Nat) : Option Flag.Table :=
  match s.members[place]? with
  | none => none
  | some m => some (m.table.getD s.default)

/-- The path of the module at a place, if there is a module. -/
def path? (s : Set) (place : Nat) : Option String :=
  s.members[place]?.map (·.spec.path)

end Set

end Longhand.Tracked
