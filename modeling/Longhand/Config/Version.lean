import Longhand.Config.Table
import Longhand.Text.Distance

/-!
# Versions

A directory of tables holds one file for each version.  Versions are ordered by the numbers in them,
and the highest one is taken if none is asked for.
-/

namespace Longhand.Config

/-- A version and the file with its table. -/
structure Versioned where
  version : String
  path : String
  deriving Repr, DecidableEq

/-! ## Order -/

/-- The largest number that counts; larger ones are equal to it. -/
def numberLimit : Nat := UInt64.size - 1

/-- The number that follows some digits of it, and the numbers behind it. -/
def numbersFrom (number : Option Nat) : List Char → List Nat
  | [] => number.toList
  | c :: rest =>
      if c.isDigit then
        numbersFrom (some (min (number.getD 0 * 10 + (c.toNat - '0'.toNat)) numberLimit)) rest
      else number.toList ++ numbersFrom none rest

/-- The numbers in a version. -/
def numbers (version : String) : List Nat :=
  numbersFrom none version.toList

/-- The order of versions: by their numbers, then as texts. -/
def compareVersions (a b : String) : Ordering :=
  (compareLists compare (numbers a) (numbers b)).then (compare a b)

/-! ## Directories -/

/-- The version that a file name stands for. -/
def version? (name : String) : Option String :=
  match Files.splitName? name with
  | some (stem, "json") | some (stem, "yaml") | some (stem, "yml") => some stem
  | _ => none

/-- The versions in a directory from the lowest to the highest.  Of several files of one version the
first that is listed stays. -/
def available (t : Files.Tree) (directory : String) : Except Fault (List Versioned) :=
  match t.list directory with
  | .error e => .error (.read directory e)
  | .ok entries =>
      let found : List Versioned := entries.filterMap fun (name, e) =>
        if e.isDirectory then none
        else (version? name).map fun version => ⟨version, Files.join directory name⟩
      .ok (stableSort (fun a b => compareVersions a.version b.version != .gt)
        (firstOfEach (fun a b => a.version == b.version) found))

/-- Versions further apart than this are never suggested for each other. -/
def suggestionLimit : Nat := 3

/-- The first of the versions that are closest to a given one, if it is close enough. -/
def suggestion? (version : String) (candidates : List String) : Option String :=
  let away := fun c => Text.distance version.toList c.toList
  let close := candidates.filter fun c => away c ≤ suggestionLimit
  close.foldl (fun best c =>
    match best with
    | none => some c
    | some b => if away c < away b then some c else some b) none

/-- The highest version in a directory, or the one that is asked for. -/
def resolve (t : Files.Tree) (directory : String) (version : Option String) :
    Except Fault Versioned :=
  match available t directory with
  | .error e => .error e
  | .ok configs =>
      match configs.getLast? with
      | none => .error (.noConfigs directory)
      | some highest =>
          match version with
          | none => .ok highest
          | some v =>
              match configs.find? (·.version == v) with
              | some c => .ok c
              | none =>
                  let versions := configs.map (·.version)
                  .error (.unknownVersion v versions (suggestion? v versions))

end Longhand.Config
