import Longhand.Config.Fault
import Longhand.Flag.Yaml.Document

/-!
# Tables in files
-/

namespace Longhand.Config

/-- The table of some entries from a given origin. -/
def tableOf (origin : String) (entries : Flag.Entries) : Except Fault Flag.Table :=
  match Flag.Table.ofEntries entries with
  | .ok t => .ok t
  | .error u => .error (.unusable origin u)

/-- The name of texts that come from no file. -/
def inMemory : String := "<string>"

/-- The table that a text holds. -/
def parseTable (text : String) : Except Fault Flag.Table :=
  match Flag.Json.read? text with
  | some entries => tableOf inMemory entries
  | none => .error (.malformed inMemory)

/-- Whether a file is named as one in the layout with indentation. -/
def isYaml (path : String) : Bool :=
  match Files.extension? path with
  | some "yaml" | some "yml" => true
  | _ => false

/-- The table in a file. -/
def loadTable (t : Files.Tree) (path : String) : Except Fault Flag.Table :=
  match t.readText path with
  | .error e => .error (.read path e)
  | .ok text =>
      match if isYaml path then Flag.Yaml.read? text else Flag.Json.read? text with
      | some entries => tableOf path entries
      | none => .error (.malformed path)

end Longhand.Config
