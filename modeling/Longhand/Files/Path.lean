import Longhand.Order
import Longhand.Text.Split

/-!
# Paths

A path is a text.  For its order and equality it is a list of components, in which doubled slashes
and inner single dots do not count; in messages it is shown as it was written.
-/

namespace Longhand.Files

/-- A part of a path between slashes. -/
inductive Step where
  | here
  | up
  | name (n : String)
  deriving Repr, DecidableEq

/-- Whether a path begins at the root. -/
def isAbsolute (path : String) : Bool :=
  path.toList.head? == some '/'

/-- The parts of a path, each empty one and each single dot being a step that stays. -/
def steps (path : String) : List Step :=
  (Text.splitOn '/' path.toList).map fun part =>
    match String.ofList part with
    | "" | "." => .here
    | ".." => .up
    | n => .name n

/-- A part of a path as it counts for the order. -/
inductive Component where
  | root
  | here
  | up
  | name (n : String)
  deriving Repr, DecidableEq

/-- The components of a path.  A single dot counts at its front only. -/
def components (path : String) : List Component :=
  let front : List Component :=
    if isAbsolute path then [.root]
    else if (Text.splitOn '/' path.toList).head? == some ['.'] then [.here] else []
  front ++ (steps path).filterMap fun
    | .here => none
    | .up => some .up
    | .name n => some (.name n)

/-- The rank of a component among components of other kinds. -/
def Component.rank : Component → Nat
  | .root => 0
  | .here => 1
  | .up => 2
  | .name _ => 3

/-- The order of components: by kind, and names as texts. -/
def Component.compare : Component → Component → Ordering
  | .name a, .name b => Ord.compare a b
  | a, b => Ord.compare a.rank b.rank

/-- The order of paths, given by their components. -/
def compareComponents (a b : List Component) : Ordering :=
  compareLists Component.compare a b

/-- A path below another one. -/
def join (path name : String) : String :=
  if isAbsolute name || path.isEmpty then name
  else if path.toList.getLast? == some '/' then path ++ name
  else path ++ "/" ++ name

/-- The last component of a path, if it is a name. -/
def fileName? (path : String) : Option String :=
  match (components path).getLast? with
  | some (.name n) => some n
  | _ => none

/-- A file name in front of its last dot and behind it.  A dot at the front of a name does not
count. -/
def splitName? (name : String) : Option (String × String) :=
  match Text.cutLast? '.' name.toList with
  | some ([], _) => none
  | some (stem, extension) => some (String.ofList stem, String.ofList extension)
  | none => none

/-- The extension of a path. -/
def extension? (path : String) : Option String :=
  ((fileName? path).bind splitName?).map Prod.snd

/-- The file name of a path without its extension. -/
def stem? (path : String) : Option String :=
  (fileName? path).map fun name => ((splitName? name).map Prod.fst).getD name

end Longhand.Files
