import Longhand.Files.Pattern
import Longhand.Files.Tree

/-!
# Paths of a pattern

The existing paths that a pattern with slashes stands for, component by component.  A component
without wildcards is followed as it is, so it may also lead upwards.
-/

namespace Longhand.Files

/-- The path of a name in a directory.  The working directory itself is left out. -/
def childPath (path name : String) : String :=
  if components path = [.here] then name else join path name

/-- Where a component without wildcards leads to. -/
def literalPath? (t : Tree) (path name : String) : Option String :=
  let next := childPath path name
  let found := if name = "." || name = ".." then t.isDirectory path else t.exists? next
  if found then some next else none

/-- The names of the working and the upper directory that a pattern with a dot in front stands for.
-/
def dotNames (p : Pattern) : List String :=
  if p.head? = some (.char '.') then
    ["..", "."].filter fun name => p.matches name.toList
  else []

/-- The path of some names below a directory. -/
def belowPath (path : String) : List String → String
  | [] => path
  | name :: rest => rest.foldl join (childPath path name)

/-- The pattern that is a whole component of any number of components. -/
def anyDepth : Pattern := [.anyComponents]

/-- The paths that some components stand for below a path.  With `directories` only directories
count. -/
def pathsBelow (t : Tree) (directories : Bool) : List Pattern → String → List String
  | [], path => if directories && !t.isDirectory path then [] else [path]
  | p :: rest, path =>
      match p.literal? with
      | some name =>
          match literalPath? t path (String.ofList name) with
          | some next => pathsBelow t directories rest next
          | none => []
      | none =>
          match t.list path with
          | .error _ => []
          | .ok entries =>
              if p = anyDepth then
                let all := (Entry.directory entries).descendants
                match rest with
                | [] =>
                    (all.filter fun (_, e) => e.isDirectory).map fun (names, _) =>
                      belowPath path names
                | q :: further =>
                    if q = anyDepth then pathsBelow t directories (q :: further) path
                    else
                      (all.filter fun (names, _) => q.matches (names.getLastD "").toList).flatMap
                        fun (names, _) => pathsBelow t directories further (belowPath path names)
              else
                (dotNames p).flatMap (fun name => pathsBelow t directories rest (join path name)) ++
                  (entries.filter fun (name, _) => p.matches name.toList).flatMap fun (name, _) =>
                    pathsBelow t directories rest (childPath path name)

/-- The components of a pattern.  A slash at its end begins no component. -/
def patternParts (text : List Char) : List (List Char) :=
  let parts := Text.splitOn '/' text
  if parts.getLast? = some [] then parts.dropLast else parts

/-- The existing paths that a pattern stands for.  The pattern is read as a whole before its
components are. -/
def expand (t : Tree) (text : List Char) : Except PatternError (List String) :=
  match Pattern.parse text with
  | .error e => .error e
  | .ok _ =>
      let absolute := text.head? == some '/'
      match (patternParts (if absolute then text.drop 1 else text)).mapM Pattern.parse with
      | .error e => .error e
      | .ok parts =>
          .ok (pathsBelow t (text.getLast? == some '/') parts (if absolute then "/" else "."))

end Longhand.Files
