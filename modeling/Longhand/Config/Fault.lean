import Longhand.Files.Tree
import Longhand.Flag.Table
import Longhand.Text.Quoted
import Longhand.Tracked.Spec

/-!
# Faults of a configuration

Why the tables or the modules of a run cannot be set up, and how it is worded.
-/

namespace Longhand.Config

/-- Why the configuration of a run is refused. -/
inductive Fault where
  | read (path : String) (e : Files.AccessError)
  /-- The contents of a file are no map of maps. -/
  | malformed (path : String)
  | unusable (path : String) (u : Flag.Unusable)
  | spec (e : Tracked.SpecError)
  | unknownVersion (version : String) (available : List String) (suggestion : Option String)
  | noDirectory
  | noConfigs (directory : String)
  deriving Repr, DecidableEq

end Longhand.Config

namespace Longhand

/-- The wording of what is wrong with a module spec. -/
def Tracked.SpecFault.text : Tracked.SpecFault → String
  | .noSeparator => "expected \x60package:entry\x60"
  | .emptyPart => "package and entry must both be set"
  | .badPackage => "package is not a dotted Python name"
  | .badEntry => "entry is not a Python identifier"
  | .noFile => "expected SPEC=FILE"

def Tracked.SpecError.message (e : Tracked.SpecError) : String :=
  "invalid module spec " ++ Text.quoted e.text ++ ": " ++ e.fault.text

def Flag.Unusable.message (u : Flag.Unusable) : String :=
  let form := match u.form with
    | .short => "short flag "
    | .long => "long flag "
  form ++ Text.quoted u.flag ++ " of function " ++ Text.quoted u.command
    ++ " is not a usable Python identifier"

def Config.Fault.message : Config.Fault → String
  | .read path e => "failed to read config file " ++ path ++ ": " ++ e.message
  | .malformed path => "malformed config file " ++ path
  | .unusable path u => "config " ++ path ++ ": " ++ u.message
  | .spec e => e.message
  | .unknownVersion version available suggestion =>
      "unknown target version " ++ Text.quoted version ++ " (available: "
        ++ ", ".intercalate available ++ ")"
        ++ match suggestion with
          | some s => "; did you mean " ++ Text.quoted s ++ "?"
          | none => ""
  | .noDirectory => "could not determine a config directory; pass --config or --config-dir"
  | .noConfigs directory => "no flag configs found in " ++ directory

/-- The wording of a fault together with what caused it.  The cause of a failed reading is named
once more. -/
def Config.Fault.chain (f : Config.Fault) : String :=
  match f with
  | .read _ e => f.message ++ ": " ++ e.message
  | f => f.message

end Longhand
