import Longhand.Flag.Name
import Longhand.Text.Split

/-!
# Module specs

A tracked module is written `package:entry` or, with a dot before the entry, as a dotted path.  A
list of specs is separated by commas; blank items are skipped.
-/

namespace Longhand.Tracked

/-- A module whose calls are rewritten: the dotted name of its package and its own name there. -/
structure Spec where
  package : String
  entry : String
  deriving Repr, DecidableEq, Inhabited

/-- What is wrong with a module spec. -/
inductive SpecFault where
  | noSeparator
  | emptyPart
  | badPackage
  | badEntry
  | noFile
  deriving Repr, DecidableEq

/-- A text that was refused as a module spec. -/
structure SpecError where
  text : String
  fault : SpecFault
  deriving Repr, DecidableEq

namespace Spec

/-- The full dotted path of the module. -/
def path (s : Spec) : String :=
  s.package ++ "." ++ s.entry

/-- The spec in its `package:entry` form. -/
def text (s : Spec) : String :=
  s.package ++ ":" ++ s.entry

/-- Read one spec.  Blanks around it do not count.  A colon separates before a dot does: the first
colon if there is one, else the last dot. -/
def parse (text : List Char) : Except SpecError Spec :=
  let refuse (fault : SpecFault) : Except SpecError Spec := .error ⟨String.ofList text, fault⟩
  let body := Text.trim text
  match (Text.cutFirst? ':' body).or (Text.cutLast? '.' body) with
  | none => refuse .noSeparator
  | some (package, entry) =>
      if package.isEmpty || entry.isEmpty then refuse .emptyPart
      else if !(Text.splitOn '.' package).all (Flag.isUsable ∘ String.ofList) then
        refuse .badPackage
      else if !Flag.isUsable (String.ofList entry) then refuse .badEntry
      else .ok ⟨String.ofList package, String.ofList entry⟩

/-- Read a list of specs separated by commas, up to the first that is refused. -/
def parseList (text : String) : Except SpecError (List Spec) :=
  ((Text.splitOn ',' text.toList).filter fun part => !(Text.trim part).isEmpty).mapM parse

end Spec

end Longhand.Tracked
