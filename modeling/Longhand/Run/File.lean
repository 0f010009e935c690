import Longhand.Diff.Report
import Longhand.Edit.Message
import Longhand.Files.Tree
import Longhand.Rewrite
import Longhand.Run.Log

/-!
# One file

A file is read, its text is rewritten, and the new text is reported or written back.  Between
reading and writing nothing but the bytes that were read counts.  A file that fails is left as it
is.
-/

namespace Longhand.Run

/-- What became of a file that did not fail. -/
structure Outcome where
  path : String
  changed : Bool
  diff : Option String
  stats : Diff.Stats
  renames : List Edit.Rename
  conflicts : List Edit.Conflict
  deriving Repr

/-- Why a file failed. -/
inductive FileError where
  | read (path : String) (e : Files.AccessError)
  | write (path : String) (e : Files.AccessError)
  | rewrite (path : String) (e : RewriteError)
  deriving Repr

/-- The path of the file that failed. -/
def FileError.path : FileError → String
  | .read path _ | .write path _ | .rewrite path _ => path

/-- Whether a file failed because its text is not accepted. -/
def FileError.isParse : FileError → Bool
  | .rewrite .. => true
  | _ => false

def FileError.message : FileError → String
  | .read path e => "failed to read " ++ path ++ ": " ++ e.message
  | .write path e => "failed to write " ++ path ++ ": " ++ e.message
  | .rewrite path (.syntaxError e) => "cannot parse " ++ path ++ ":" ++ e.message
  | .rewrite path .noModule => "cannot rewrite " ++ path
  | .rewrite path (.patch e) => "cannot rewrite " ++ path ++ ": " ++ e.message.getD ""

/-- The text of a file, given its bytes. -/
def sourceOf (path : String) (read : Except Files.AccessError (List UInt8)) :
    Except FileError String :=
  match read with
  | .error e => .error (.read path e)
  | .ok bytes =>
      match Text.ofBytes bytes with
      | .error fault => .error (.read path (.encoding (some fault)))
      | .ok source => .ok source

/-- What is to be done with a file: its outcome, unless it cannot be written, and the text to be
written. -/
structure Verdict where
  result : Except FileError Outcome
  contents : Option String
  log : List LogLine

/-- What a rewritten text tells about its calls. -/
def rewriteLog (r : Rewrite) : List LogLine :=
  match r.calls with
  | none => [⟨.debug, "no tracked imports, skipping call matching"⟩]
  | some n =>
      ⟨.debug, toString n ++ " tracked calls"⟩ ::
        (r.plan.renames.map fun rename => (⟨.debug, rename.text⟩ : LogLine)) ++
          r.plan.conflicts.map fun conflict => ⟨.warn, conflict.text⟩

/-- The outcome of a rewritten text. -/
def outcomeOf (path source : String) (mode : Diff.Mode) (r : Rewrite) : Outcome × Option String :=
  let report := Diff.report path source r.output mode
  let (diff, stats, contents) :=
    match report.payload with
    | some (.diff text stats) => (some text, stats, none)
    | some (.contents text) => (none, {}, some text)
    | none => (none, {}, none)
  ({ path, changed := report.changed, diff, stats, renames := r.plan.renames,
     conflicts := r.plan.conflicts }, contents)

/-- What is to be done with a file, given its bytes. -/
def examine (tracked : Tracked.Set) (mode : Diff.Mode) (path : String)
    (read : Except Files.AccessError (List UInt8)) : Verdict :=
  match sourceOf path read with
  | .error e => { result := .error e, contents := none, log := [] }
  | .ok source =>
      match Rewrite.ofSource tracked source with
      | .error e => { result := .error (.rewrite path e), contents := none, log := [] }
      | .ok r =>
          let (outcome, contents) := outcomeOf path source mode r
          { result := .ok outcome, contents, log := rewriteLog r }

/-- What became of a file, and what was told about it. -/
structure Processed where
  result : Except FileError Outcome
  log : List LogLine

/-- Write what is to be written. -/
def Verdict.carryOut (v : Verdict) (path : String) (t : Files.Tree) : Files.Tree × Processed :=
  match v.contents with
  | none => (t, ⟨v.result, v.log⟩)
  | some text =>
      match t.write path (Text.bytes text) with
      | .ok t => (t, ⟨v.result, v.log ++ [⟨.debug, "wrote " ++ path⟩]⟩)
      | .error e => (t, ⟨.error (.write path e), v.log⟩)

/-- Rewrite the file at a path. -/
def processFile (tracked : Tracked.Set) (mode : Diff.Mode) (t : Files.Tree) (path : String) :
    Files.Tree × Processed :=
  (examine tracked mode path (t.read path)).carryOut path t

/-- Rewrite the files at some paths, one after the other. -/
def processFiles (tracked : Tracked.Set) (mode : Diff.Mode) :
    Files.Tree → List String → Files.Tree × List Processed
  | t, [] => (t, [])
  | t, path :: rest =>
      let (t, first) := processFile tracked mode t path
      let (t, others) := processFiles tracked mode t rest
      (t, first :: others)

end Longhand.Run
