import Longhand.Command.Options
import Longhand.Config.Modules
import Longhand.Config.Version
import Longhand.Files.Collect
import Longhand.Run.Summary

/-!
# Running a command line

The table and the modules are loaded, the sources are collected, and then the files are rewritten.
Until then nothing is written, so a run that cannot be set up leaves all files as they are.
-/

namespace Longhand.Command

/-- What the program knows of its surroundings. -/
structure Environment where
  home : Option String := none
  dataHome : Option String := none
  configDirectory : Option String := none
  /-- Whether the output goes to a terminal. -/
  terminal : Bool := false
  deriving Repr

/-- What `--version` prints. -/
def versionText : String := "flagfmt 0.1.0\n"

/-- The directory of the tables that are installed for a user.  A relative data directory does not
count. -/
def defaultDirectory? (env : Environment) : Option String :=
  let dataHome := match env.dataHome with
    | some d => if Files.isAbsolute d then some d else none
    | none => none
  let data := dataHome.or (env.home.map fun h => Files.join h ".local/share")
  data.map fun d => Files.join (Files.join d "flagfmt") "configs"

/-- Why a run cannot be set up. -/
inductive Failure where
  | table (f : Config.Fault)
  | modules (f : Config.Fault)
  | sources (e : Files.CollectError)
  | noInput
  deriving Repr

def Failure.message : Failure → String
  | .table f => "Failed to load flag config: " ++ f.chain
  | .modules f => "Failed to set up tracked modules: " ++ f.chain
  | .sources e => e.message
  | .noInput => "No input files found"

/-- The file with the table of a run, and the version that it was chosen for. -/
def chooseTable (t : Files.Tree) (env : Environment) (o : Options) :
    Except Config.Fault (String × Option Config.Versioned) :=
  match o.config with
  | some path => .ok (path, none)
  | none =>
      match o.configDirectory.or (defaultDirectory? env) with
      | none => .error .noDirectory
      | some directory =>
          match Config.resolve t directory o.targetVersion with
          | .ok v => .ok (v.path, some v)
          | .error f => .error f

/-! ## What is told on the way -/

def versionLog : Option Config.Versioned → List Run.LogLine
  | some v => [⟨.info, "using flag config " ++ v.version ++ " (" ++ v.path ++ ")"⟩]
  | none => []

def tableLog (path : String) (table : Flag.Table) : Run.LogLine :=
  ⟨.debug, "Loaded " ++ toString table.size ++ " commands from " ++ path⟩

/-- What is told about the modules with tables of their own, up to the first that is refused. -/
def overridesLog (t : Files.Tree) : List String → List Run.LogLine
  | [] => []
  | item :: rest =>
      match Config.readOverride t item with
      | .error _ => []
      | .ok o =>
          tableLog o.file o.table ::
            ⟨.debug, "module " ++ o.spec.text ++ " uses table " ++ o.file⟩ :: overridesLog t rest

def modulesLog (t : Files.Tree) (o : Options) : List Run.LogLine :=
  match Tracked.Spec.parseList (o.modules.getD defaultModules) with
  | .ok _ => overridesLog t o.moduleConfigs
  | .error _ => []

def missingLog (t : Files.Tree) (o : Options) : List Run.LogLine :=
  (Files.missing t o.sources).map fun source => ⟨.warn, source ++ " does not exist"⟩

/-! ## Runs -/

/-- What is to be rewritten, and for which modules. -/
structure Work where
  tracked : Tracked.Set
  files : List String

/-- Set up a run. -/
def prepare (t : Files.Tree) (env : Environment) (o : Options) :
    List Run.LogLine × Except Failure Work :=
  match chooseTable t env o with
  | .error f => ([], .error (.table f))
  | .ok (path, version) =>
      match Config.loadTable t path with
      | .error f => (versionLog version, .error (.table f))
      | .ok table =>
          let log := versionLog version ++
            [tableLog path table,
              ⟨.debug, "flag table covers " ++ toString table.size ++ " commands"⟩] ++
            modulesLog t o
          match Config.loadModules t (o.modules.getD defaultModules) o.moduleConfigs table with
          | .error f => (log, .error (.modules f))
          | .ok tracked =>
              let log := log ++ missingLog t o
              match Files.collect t o.sources ⟨o.exclude, o.excludeFiles, o.includeHidden⟩ with
              | .error e => (log, .error (.sources e))
              | .ok [] => (log, .error .noInput)
              | .ok files =>
                  (log ++ [⟨.debug, toString files.length ++ " files to process"⟩],
                    .ok { tracked, files })

/-- The least important lines that are shown. -/
def Options.logLimit (o : Options) : Run.Level :=
  if o.quiet then .error
  else
    match o.verbosity with
    | 0 => .warn
    | 1 => .info
    | 2 => .debug
    | _ => .trace

/-- How a run reports. -/
def Options.reporting (o : Options) (env : Environment) : Run.Options where
  mode := o.mode
  list := o.list
  quiet := o.quiet
  colour :=
    match o.colour.getD .auto with
    | .always => true
    | .never => false
    | .auto => env.terminal

/-- The end of a run: what was printed and told, and the files as they are then. -/
structure Finished where
  exitCode : Nat
  output : List Run.Output
  log : List Run.LogLine
  tree : Files.Tree

/-- Run with some options. -/
def perform (t : Files.Tree) (env : Environment) (o : Options) : Finished :=
  let (log, work) := prepare t env o
  match work with
  | .error f =>
      { exitCode := 2, output := [.err ("error: " ++ f.message ++ "\n")],
        log := log.filter (·.shownAt o.logLimit), tree := t }
  | .ok work =>
      let (after, processed) := Run.processFiles work.tracked o.mode t work.files
      let results := processed.map (·.result)
      let summary := Run.summarise results
      let log := log ++ processed.flatMap (·.log) ++ [summary.log]
      { exitCode := summary.exitCode, output := Run.output (o.reporting env) results,
        log := log.filter (·.shownAt o.logLimit), tree := after }

/-- Run a command line. -/
def execute (t : Files.Tree) (env : Environment) (arguments : List String) : Except Stop Finished :=
  (readOptions arguments env.configDirectory).map (perform t env)

end Longhand.Command
