import Longhand.Config.Table
import Longhand.Tracked.Set

/-!
# Modules with tables of their own

Besides the list of specs a run takes items `SPEC=FILE`, each of which gives one module a table.  A
module that is not in the list yet is added to it.
-/

namespace Longhand.Config

/-- A table for one module, and the file that it came from. -/
structure Override where
  spec : Tracked.Spec
  file : String
  table : Flag.Table

/-- Read an item `SPEC=FILE` and the table that it names. -/
def readOverride (t : Files.Tree) (item : String) : Except Fault Override :=
  match Text.cutFirst? '=' item.toList with
  | none => .error (.spec ⟨item, .noFile⟩)
  | some (spec, file) =>
      match Tracked.Spec.parse (Text.trim spec) with
      | .error e => .error (.spec e)
      | .ok spec =>
          let file := String.ofList (Text.trim file)
          match loadTable t file with
          | .error e => .error e
          | .ok table => .ok { spec, file, table }

/-- Give a module of a list a table.  The first module with the path counts; if there is none, it is
added at the end. -/
def assign (o : Override) : List Tracked.Member → List Tracked.Member
  | [] => [⟨o.spec, some o.table⟩]
  | m :: rest =>
      if m.spec.path == o.spec.path then { m with table := some o.table } :: rest
      else m :: assign o rest

/-- The modules of a run. -/
def loadModules (t : Files.Tree) (specs : String) (items : List String) (default : Flag.Table) :
    Except Fault Tracked.Set :=
  match Tracked.Spec.parseList specs with
  | .error e => .error (.spec e)
  | .ok specs =>
      match items.mapM (readOverride t) with
      | .error e => .error e
      | .ok overrides =>
          let members := specs.map fun spec => (⟨spec, none⟩ : Tracked.Member)
          .ok (Tracked.Set.ofList (overrides.foldl (fun ms o => assign o ms) members) default)

end Longhand.Config
