import Longhand.Command.Execute

/-!
# Texts about the program
-/

namespace Longhand.Command

/-- The lines that `--help` prints. -/
def helpLines : List String :=
  ["Expand abbreviated command flags in Python code to their full names",
    "",
    "Usage: flagfmt [OPTIONS] <SOURCE>...",
    "",
    "Arguments:",
    "  <SOURCE>...  Python files or directories to rewrite (supports glob patterns)",
    "",
    "Options:",
    "  -t, --target-version <VERSION>   Target version (default: highest)",
    "      --config <FILE>              Explicit flag config file (JSON or YAML)",
    "      --config-dir <DIR>           Directory holding versioned flag configs",
    "      --modules <SPECS>            Comma-separated tracked modules as package:entry",
    "      --module-config <SPEC=FILE>  Use a separate flag table for one module (repeatable)",
    "      --check                      Don't write the files back, just report the exit status",
    "      --diff                       Don't write the files back, print a diff for each file",
    "      --list                       Print every renamed flag as path:line:col",
    "  -q, --quiet                      Don't emit non-error messages",
    "  -v, --verbose...                 Increase logging (-v info, -vv debug, -vvv trace)",
    "      --exclude <GLOB>             Exclude paths matching this glob, or containing this text",
    "      --exclude-files <FILE>...    Exclude these exact files",
    "      --include-hidden             Descend into hidden directories",
    "      --single-thread              Process files one at a time",
    "  -j, --jobs <N>                   Number of worker threads",
    "      --color <WHEN>               When to color output: auto, always or never",
    "  -h, --help                       Print help",
    "  -V, --version                    Print version"]

/-- What `--help` prints. -/
def helpText : String :=
  String.join (helpLines.map (· ++ "\n"))

/-- What is printed about a command line that cannot be read. -/
def usageText : String :=
  "error: the command line cannot be read\n\nFor more information, try '--help'.\n"

/-- The directory that the paths of a pattern are all below: its components in front of the first
one with wildcards. -/
def patternDirectory (pattern : String) : String :=
  let parts := Text.splitOn '/' pattern.toList
  let plain := parts.takeWhile fun part => !Files.isGlob part
  if plain.isEmpty then "." else String.ofList (Text.joinWith ['/'] plain ++ ['/'])

/-- The paths that a run with some options may look at. -/
def pathsOf (env : Environment) (o : Options) : List String :=
  let sources := o.sources.map fun s => if Files.isGlob s.toList then patternDirectory s else s
  let overrides := o.moduleConfigs.filterMap fun item =>
    (Text.cutFirst? '=' item.toList).map fun (_, file) => String.ofList (Text.trim file)
  let tables := match o.config with
    | some path => [path]
    | none => (o.configDirectory.or (defaultDirectory? env)).toList
  tables ++ overrides ++ sources ++ o.excludeFiles

end Longhand.Command
