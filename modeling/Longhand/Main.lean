import Longhand.Command.Help

/-!
# The program

The files that a command line names are read, the run is computed on what was read, and what it
changed is written back.
-/

namespace Longhand

/-- Read what a path leads to, if it leads anywhere. -/
partial def readEntry (path : String) : IO (Option Files.Entry) := do
  try
    let found ← IO.FS.realPath path
    if ← found.isDir then
      let mut entries := []
      for child in ← found.readDir do
        match ← readEntry (Files.join path child.fileName) with
        | some e => entries := (child.fileName, e) :: entries
        | none => pure ()
      return some (.directory (stableSort (fun a b => a.1 ≤ b.1) entries))
    else if ← found.pathExists then
      try
        return some (.file { contents := (← IO.FS.readBinFile path).toList })
      catch _ => return some (.file { contents := [], readable := false })
    else return none
  catch _ => return none

/-- The names that an absolute path leads through. -/
def namesOf (path : String) : List String :=
  (Files.steps path).foldl (fun names s =>
    match s with
    | .here => names
    | .up => names.dropLast
    | .name n => names ++ [n]) []

/-- Read all that a run with some options may look at. -/
def readTree (env : Command.Environment) (o : Command.Options) : IO Files.Tree := do
  let working := (← IO.currentDir).toString
  let mut root := Files.Entry.put (.directory []) (namesOf working) (.directory [])
  for path in Command.pathsOf env o do
    let path := Files.join working path
    match ← readEntry path with
    | some e => root := Files.Entry.put e (namesOf path) root
    | none => pure ()
  return { root, working := namesOf working }

/-- Write back the files that differ between two trees. -/
def writeChanges (before after : Files.Tree) : IO Unit := do
  for (names, e) in after.root.descendants do
    match e, before.root.find? names with
    | .file new, some (.file old) =>
        if new.contents ≠ old.contents then
          IO.FS.writeBinFile ("/" ++ "/".intercalate names) ⟨new.contents.toArray⟩
    | _, _ => pure ()

def printOutput (output : List Run.Output) : IO Unit := do
  for o in output do
    match o with
    | .out text => IO.print text
    | .err text => IO.eprint text

/-- Run a command line on the files of the system. -/
def runProgram (arguments : List String) : IO UInt32 := do
  let env : Command.Environment :=
    { home := ← IO.getEnv "HOME", dataHome := ← IO.getEnv "XDG_DATA_HOME",
      configDirectory := ← IO.getEnv "FLAGFMT_CONFIG_DIR", terminal := ← (← IO.getStdout).isTty }
  match Command.readOptions arguments env.configDirectory with
  | .error .usage => do
      IO.eprint Command.usageText
      return 2
  | .error .help => do
      IO.print Command.helpText
      return 0
  | .error .version => do
      IO.print Command.versionText
      return 0
  | .ok o => do
      let before ← readTree env o
      let f := Command.perform before env o
      for line in f.log do
        IO.eprintln (line.level.text ++ " " ++ line.text)
      writeChanges before f.tree
      printOutput f.output
      return UInt32.ofNat f.exitCode

end Longhand

def main (arguments : List String) : IO UInt32 :=
  Longhand.runProgram arguments
