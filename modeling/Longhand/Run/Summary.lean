import Longhand.Diff.Colour
import Longhand.Run.File

/-!
# The report of a run

What is printed about the files of a run, in their order, and the totals behind it.
-/

namespace Longhand.Run

/-- How a run reports. -/
structure Options where
  mode : Diff.Mode := .write
  /-- Whether each rename is printed. -/
  list : Bool := false
  quiet : Bool := false
  /-- Whether diffs and failures are coloured. -/
  colour : Bool := false
  deriving Repr

/-- A piece of output and where it goes. -/
inductive Output where
  | out (text : String)
  | err (text : String)
  deriving Repr, DecidableEq

/-- The totals of a run. -/
structure Summary where
  changed : Nat := 0
  unchanged : Nat := 0
  failed : Nat := 0
  renames : Nat := 0
  conflicts : Nat := 0
  stats : Diff.Stats := {}
  deriving Repr, DecidableEq

/-- Count one more file. -/
def Summary.add (s : Summary) : Except FileError Outcome → Summary
  | .error _ => { s with failed := s.failed + 1 }
  | .ok o =>
      { changed := s.changed + (if o.changed then 1 else 0)
        unchanged := s.unchanged + (if o.changed then 0 else 1)
        failed := s.failed
        renames := s.renames + o.renames.length
        conflicts := s.conflicts + o.conflicts.length
        stats := s.stats.add o.stats }

/-- The totals of some results. -/
def summarise (results : List (Except FileError Outcome)) : Summary :=
  results.foldl Summary.add {}

/-- The exit code of a run: 2 if a file failed, else 1 if a file changed or would change. -/
def Summary.exitCode (s : Summary) : Nat :=
  if 0 < s.failed then 2 else if 0 < s.changed then 1 else 0

/-- A line for standard error about a failure. -/
def failureLine (colour : Bool) (message : String) : Output :=
  let text := if colour then String.ofList (Diff.Style.red.paint message.toList) else message
  .err (text ++ "\n")

/-- The line that names a rename together with its file. -/
def renameLine (path : String) (r : Edit.Rename) : Output :=
  .out (path ++ ":" ++ toString r.position.line ++ ":" ++ toString r.position.column ++ ": "
    ++ r.short ++ " -> " ++ r.long ++ "\n")

/-- What is printed about a file. -/
def fileOutput (o : Options) : Except FileError Outcome → List Output
  | .error e => if o.quiet then [] else [failureLine o.colour ("error: " ++ e.message)]
  | .ok file =>
      if o.quiet then []
      else
        let renames := if o.list then file.renames.map (renameLine file.path) else []
        if !file.changed then renames
        else
          let diff := match file.diff with
            | some diff =>
                [.out (if o.colour then String.ofList (Diff.colourise diff.toList) else diff)]
            | none => []
          let verb := if o.mode = .write then "reformatted " else "would reformat "
          renames ++ diff ++ [.err (verb ++ file.path ++ "\n")]

/-- A number of files, in words. -/
def countFiles (n : Nat) : String :=
  toString n ++ " file" ++ if n = 1 then "" else "s"

/-- What is printed about the totals. -/
def summaryOutput (o : Options) (s : Summary) : List Output :=
  if o.quiet then []
  else
    let verb := if o.mode = .write then " reformatted" else " would be reformatted"
    let parts :=
      (if 0 < s.changed then [countFiles s.changed ++ verb] else []) ++
        if 0 < s.unchanged then [countFiles s.unchanged ++ " left unchanged"] else []
    let totals := if parts.isEmpty then [] else [.err (", ".intercalate parts ++ ".\n")]
    let last :=
      if 0 < s.failed then failureLine o.colour (countFiles s.failed ++ " failed to reformat.")
      else .err "Done ✨\n"
    totals ++ [last]

/-- All that is printed about some results. -/
def output (o : Options) (results : List (Except FileError Outcome)) : List Output :=
  results.flatMap (fileOutput o) ++ summaryOutput o (summarise results)

/-- What is told about the totals. -/
def Summary.log (s : Summary) : LogLine :=
  ⟨.info, toString s.renames ++ " renames, " ++ toString s.conflicts ++ " conflicts, +"
    ++ toString s.stats.added ++ " -" ++ toString s.stats.removed ++ " lines"⟩

end Longhand.Run
