import Longhand.Scope.Calls
import Longhand.Syntax.Fault

/-!
# Rewriting a text

A text is parsed, its names are resolved, the calls of tracked modules are found, their renames are
planned, and the text is patched.  A text in which no name stands for anything tracked is left as it
is without looking for calls.
-/

namespace Longhand

/-- Why a text cannot be rewritten. -/
inductive RewriteError where
  | syntaxError (e : Syntax.ParseError)
  /-- A call belongs to no module of the set. -/
  | noModule
  | patch (e : Edit.PatchError)
  deriving Repr

/-- The new text and the plan that led to it. -/
structure Rewrite where
  output : String
  plan : Edit.Plan
  /-- The number of calls of tracked modules, if they were looked for. -/
  calls : Option Nat
  deriving Repr

namespace Rewrite

/-- Whether there is anything to change. -/
def changed (r : Rewrite) : Bool :=
  !r.plan.isEmpty

/-- Plan and patch the calls of a tree, whether or not there can be any. -/
def ofTree (tracked : Tracked.Set) (source : List Char) (t : Syntax.Tree) (scopes : Scope.Scopes) :
    Except RewriteError Rewrite :=
  let calls := Scope.calls source scopes t
  match Edit.plan? tracked calls with
  | none => .error .noModule
  | some plan =>
      match Edit.patch source plan.edits with
      | .error e => .error (.patch e)
      | .ok output => .ok ⟨String.ofList output, plan, some calls.length⟩

/-- Rewrite a text. -/
def ofSource (tracked : Tracked.Set) (source : String) : Except RewriteError Rewrite :=
  let text := source.toList
  match Syntax.parseChecked text with
  | .error e => .error (.syntaxError e)
  | .ok t =>
      let scopes := Scope.resolve tracked t
      if scopes.hasTracked then ofTree tracked text t scopes
      else .ok ⟨source, Edit.Plan.empty, none⟩

/-- The new text alone. -/
def format (tracked : Tracked.Set) (source : String) : Except RewriteError String :=
  (ofSource tracked source).map Rewrite.output

end Rewrite

end Longhand
