import Longhand.Diff.Report
import Longhand.Text.Split

/-!
# Command lines

The arguments of the program and how they are read: from the left, up to the first one that cannot
be read or that asks for a text about the program itself.
-/

namespace Longhand.Command

/-- When output is coloured. -/
inductive ColourChoice where
  | auto
  | always
  | never
  deriving Repr, DecidableEq

/-- What a command line asks for. -/
structure Options where
  sources : List String := []
  targetVersion : Option String := none
  config : Option String := none
  configDirectory : Option String := none
  modules : Option String := none
  moduleConfigs : List String := []
  check : Bool := false
  diff : Bool := false
  list : Bool := false
  quiet : Bool := false
  verbosity : Nat := 0
  exclude : List String := []
  excludeFiles : List String := []
  includeHidden : Bool := false
  singleThread : Bool := false
  jobs : Option Nat := none
  colour : Option ColourChoice := none
  deriving Repr

/-- The tracked modules if none are given. -/
def defaultModules : String := "maya:cmds,pymel:core"

/-- What is made of changed files.  Asking for diffs counts more than asking for a check. -/
def Options.mode (o : Options) : Diff.Mode :=
  if o.diff then .diff else if o.check then .check else .write

/-- An option without a value. -/
inductive Switch where
  | check | diff | list | quiet | verbose | includeHidden | singleThread | help | version
  deriving Repr, DecidableEq

/-- An option with a value. -/
inductive Setting where
  | targetVersion | config | configDirectory | modules | moduleConfig | exclude | excludeFiles
  | jobs | colour
  deriving Repr, DecidableEq

/-- An option by its name. -/
inductive Named where
  | switch (s : Switch)
  | setting (s : Setting)
  deriving Repr, DecidableEq

/-- The long names of the options. -/
def longNames : List (String × Named) :=
  [("target-version", .setting .targetVersion), ("config", .setting .config),
    ("config-dir", .setting .configDirectory), ("modules", .setting .modules),
    ("module-config", .setting .moduleConfig), ("check", .switch .check), ("diff", .switch .diff),
    ("list", .switch .list), ("quiet", .switch .quiet), ("verbose", .switch .verbose),
    ("exclude", .setting .exclude), ("exclude-files", .setting .excludeFiles),
    ("include-hidden", .switch .includeHidden), ("single-thread", .switch .singleThread),
    ("jobs", .setting .jobs), ("color", .setting .colour), ("help", .switch .help),
    ("version", .switch .version)]

/-- The letters of the options that have one. -/
def letters : List (Char × Named) :=
  [('t', .setting .targetVersion), ('q', .switch .quiet), ('v', .switch .verbose),
    ('j', .setting .jobs), ('h', .switch .help), ('V', .switch .version)]

/-- Why the reading of a command line ends early. -/
inductive Stop where
  /-- The command line cannot be read. -/
  | usage
  | help
  | version
  deriving Repr, DecidableEq

/-! ## Values -/

/-- Set a field that may be set once. -/
def once {α : Type} (old : Option α) (new : α) : Except Stop (Option α) :=
  if old.isSome then .error .usage else .ok (some new)

/-- Set a flag that may be set once. -/
def raised (old : Bool) : Except Stop Bool :=
  if old then .error .usage else .ok true

/-- A path, which is not empty. -/
def pathValue (text : String) : Except Stop String :=
  if text.isEmpty then .error .usage else .ok text

/-- The number of threads: decimal digits, possibly signed. -/
def jobsValue (text : String) : Except Stop Nat :=
  let digits := match text.toList with
    | '+' :: rest => rest
    | cs => cs
  let value := digits.foldl (fun n d => n * 10 + (d.toNat - '0'.toNat)) 0
  if digits.isEmpty || !digits.all Char.isDigit || value = 0 || 65535 < value then .error .usage
  else .ok value

def colourValue : String → Except Stop ColourChoice
  | "auto" => .ok .auto
  | "always" => .ok .always
  | "never" => .ok .never
  | _ => .error .usage

/-- Apply an option without a value. -/
def Options.turn (o : Options) : Switch → Except Stop Options
  | .check => do return { o with check := ← raised o.check }
  | .diff => do return { o with diff := ← raised o.diff }
  | .list => do return { o with list := ← raised o.list }
  | .quiet => do return { o with quiet := ← raised o.quiet }
  | .verbose => .ok { o with verbosity := o.verbosity + 1 }
  | .includeHidden => do return { o with includeHidden := ← raised o.includeHidden }
  | .singleThread => do return { o with singleThread := ← raised o.singleThread }
  | .help => .error .help
  | .version => .error .version

/-- Apply an option with its value. -/
def Options.assign (o : Options) (s : Setting) (value : String) : Except Stop Options :=
  match s with
  | .targetVersion => do return { o with targetVersion := ← once o.targetVersion value }
  | .config => do return { o with config := ← once o.config (← pathValue value) }
  | .configDirectory => do
      return { o with configDirectory := ← once o.configDirectory (← pathValue value) }
  | .modules => do return { o with modules := ← once o.modules value }
  | .moduleConfig => .ok { o with moduleConfigs := o.moduleConfigs ++ [value] }
  | .exclude => .ok { o with exclude := o.exclude ++ [value] }
  | .excludeFiles => do return { o with excludeFiles := o.excludeFiles ++ [← pathValue value] }
  | .jobs => do return { o with jobs := ← once o.jobs (← jobsValue value) }
  | .colour => do return { o with colour := ← once o.colour (← colourValue value) }

/-! ## Arguments -/

/-- What is expected of the next argument. -/
inductive Pending where
  /-- Nothing in particular. -/
  | nothing
  /-- The value of an option. -/
  | value (s : Setting)
  /-- Further values of an option that takes several. -/
  | further (s : Setting)
  deriving Repr, DecidableEq

/-- Read the letters behind a dash.  The rest behind the letter of an option with a value is its
value. -/
def readLetters (o : Options) : List Char → Except Stop (Options × Pending)
  | [] => .ok (o, .nothing)
  | c :: rest =>
      match letters.lookup c with
      | none => .error .usage
      | some (.switch s) =>
          match o.turn s with
          | .ok o => readLetters o rest
          | .error e => .error e
      | some (.setting s) =>
          match rest with
          | [] => .ok (o, .value s)
          | '=' :: value => (o.assign s (String.ofList value)).map fun o => (o, .nothing)
          | value => (o.assign s (String.ofList value)).map fun o => (o, .nothing)

/-- Read what follows two dashes: the name of an option, with a value behind an equals sign or
without. -/
def readLong (o : Options) (text : List Char) : Except Stop (Options × Pending) :=
  let (name, value) := match Text.cutFirst? '=' text with
    | some (name, value) => (name, some (String.ofList value))
    | none => (text, none)
  match longNames.lookup (String.ofList name), value with
  | some (.switch s), none => (o.turn s).map fun o => (o, .nothing)
  | some (.setting s), some value => (o.assign s value).map fun o => (o, .nothing)
  | some (.setting s), none => .ok (o, .value s)
  | _, _ => .error .usage

/-- Take an argument as a source. -/
def Options.addSource (o : Options) (text : String) : Except Stop Options := do
  return { o with sources := o.sources ++ [← pathValue text] }

/-- Take an argument that is no option. -/
def Options.take (o : Options) (pending : Pending) (text : String) :
    Except Stop (Options × Pending) :=
  match pending with
  | .nothing => (o.addSource text).map fun o => (o, .nothing)
  | .value .excludeFiles => (o.assign .excludeFiles text).map fun o => (o, .further .excludeFiles)
  | .value s => (o.assign s text).map fun o => (o, .nothing)
  | .further s => (o.assign s text).map fun o => (o, .further s)

/-- Read some arguments.  Behind two dashes alone all of them are sources. -/
def readArguments (o : Options) (pending : Pending) : List String → Except Stop Options
  | [] =>
      match pending with
      | .value _ => .error .usage
      | _ => .ok o
  | text :: rest =>
      let isOption := match text.toList with
        | '-' :: _ :: _ => true
        | _ => false
      match isOption, pending with
      | true, .value _ => .error .usage
      | true, _ =>
          match text.toList with
          | ['-', '-'] => rest.foldlM Options.addSource o
          | '-' :: '-' :: name =>
              match readLong o name with
              | .ok (o, pending) => readArguments o pending rest
              | .error e => .error e
          | cs =>
              match readLetters o (cs.drop 1) with
              | .ok (o, pending) => readArguments o pending rest
              | .error e => .error e
      | false, _ =>
          match o.take pending text with
          | .ok (o, pending) => readArguments o pending rest
          | .error e => .error e

/-- Check what belongs together: there is a source, and no two options contradict each other. -/
def Options.validate (o : Options) : Except Stop Options :=
  if o.sources.isEmpty || (o.config.isSome && o.targetVersion.isSome)
      || (o.singleThread && o.jobs.isSome) then .error .usage
  else .ok o

/-- Read a command line.  The directory of the tables may also be given by the environment. -/
def readOptions (arguments : List String) (directory : Option String) : Except Stop Options := do
  let o ← readArguments {} .nothing arguments
  let o ← match o.configDirectory, directory with
    | none, some d => o.assign .configDirectory d
    | _, _ => pure o
  o.validate

end Longhand.Command
