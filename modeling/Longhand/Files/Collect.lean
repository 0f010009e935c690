import Longhand.Files.Expand

/-!
# Collecting sources

Files, directories and patterns lead to the files of a run.  A file that is named is taken whatever
its name; directories are searched for files with the right extension.  The result is in the order
of paths, no two of them equal, without what is excluded.
-/

namespace Longhand.Files

/-- What is left out of the sources. -/
structure Exclusions where
  /-- Patterns that a whole path has to match, or, without wildcards, texts that occur in it. -/
  patterns : List String := []
  /-- Files, however they are spelled. -/
  files : List String := []
  /-- Whether directories with a dot in front of their name are searched. -/
  includeHidden : Bool := false
  deriving Repr

/-- A pattern that cannot be read. -/
inductive CollectError where
  | source (text : String) (e : PatternError)
  | exclusion (text : String) (e : PatternError)
  deriving Repr, DecidableEq

def CollectError.message : CollectError → String
  | .source text e => "Failed to parse glob pattern " ++ text ++ ": " ++ e.message
  | .exclusion text e => "Invalid exclude pattern " ++ text ++ ": " ++ e.message

/-- Whether a path has the extension of the files that are rewritten. -/
def isSource (path : String) : Bool :=
  extension? path = some "py"

/-- Whether a name begins with a dot, other than those of the working and the upper directory. -/
def isHidden (name : String) : Bool :=
  name.toList.head? == some '.' && name != "." && name != ".."

/-- The files to be rewritten below a directory. -/
def walk (t : Tree) (includeHidden : Bool) (path : String) : List String :=
  match t.list path with
  | .error _ => []
  | .ok entries =>
      let files := (Entry.directory entries).descendants.filter fun (names, e) =>
        !e.isDirectory && (includeHidden || names.all fun n => !isHidden n)
      (files.map fun (names, _) => names.foldl join path).filter isSource

/-- The files that one source leads to. -/
def filesOf (t : Tree) (includeHidden : Bool) (source : String) :
    Except PatternError (List String) :=
  if isGlob source.toList then
    match expand t source.toList with
    | .error e => .error e
    | .ok paths => .ok <| paths.flatMap fun path =>
        if t.isFile path && isSource path then [path] else walk t includeHidden path
  else if t.isFile source then .ok [source]
  else .ok (walk t includeHidden source)

/-- Leave out the paths that equal the one before them, paths being given with their components. -/
def withoutRepeats (last : List Component) :
    List (List Component × String) → List (List Component × String)
  | [] => []
  | p :: rest =>
      if p.1 = last then withoutRepeats last rest else p :: withoutRepeats p.1 rest

/-- Some paths in order.  Of equal ones the first stays. -/
def inOrder (paths : List String) : List String :=
  let sorted := stableSort (fun a b => compareComponents a.1 b.1 != .gt)
    (paths.map fun path => (components path, path))
  let distinct := match sorted with
    | [] => []
    | p :: rest => p :: withoutRepeats p.1 rest
  distinct.map Prod.snd

/-- Whether a path is left out. -/
def isExcluded (t : Tree) (patterns : List Pattern) (texts : List String)
    (places : List (List String)) (path : String) : Bool :=
  patterns.any (·.matches path.toList) || texts.any (fun s => Text.occursIn s.toList path.toList) ||
    match t.resolve path with
    | .ok place => places.contains place
    | .error _ => false

/-- The files that some sources lead to, without those excluded. -/
def collect (t : Tree) (sources : List String) (x : Exclusions) :
    Except CollectError (List String) := do
  let found ← sources.mapM fun s => (filesOf t x.includeHidden s).mapError (.source s)
  let globs := x.patterns.filter fun s => isGlob s.toList
  let patterns ← globs.mapM fun s => (Pattern.parse s.toList).mapError (.exclusion s)
  let texts := x.patterns.filter fun s => !isGlob s.toList
  let places := x.files.filterMap fun s => (t.resolve s).toOption
  return (inOrder found.flatten).filter fun path => !isExcluded t patterns texts places path

/-- The sources that lead nowhere, up to the first that cannot be read. -/
def missing (t : Tree) (sources : List String) : List String :=
  (sources.takeWhile fun s => (filesOf t false s).isOk).filter fun s =>
    !isGlob s.toList && !t.exists? s

end Longhand.Files
