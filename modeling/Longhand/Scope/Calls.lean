import Longhand.Edit.Plan
import Longhand.Scope.Resolve

/-!
# Calls of tracked modules

The calls of a tree whose callee is a name or a dotted name that stands for a command of a tracked
module, with their explicit keyword arguments.
-/

namespace Longhand.Scope

open Syntax (Tree)

/-- The keyword that a child of an argument list writes out, if it is a keyword argument. -/
def keyword? (source : List Char) (t : Tree) : Option Edit.Keyword :=
  if t.kind = .keywordArgument then
    match t.child? .name, t.child? .value with
    | some name, some value =>
        if name.kind = .identifier then
          some ⟨name.text, name.span, value.span, Text.positionAt source name.span.start⟩
        else none
    | _, _ => none
  else none

/-- The explicit keyword arguments of a call. -/
def keywords (source : List Char) (t : Tree) : List Edit.Keyword :=
  match t.child? .arguments with
  | none => []
  | some arguments =>
      if arguments.kind = .argumentList then arguments.children.filterMap (keyword? source)
      else []

/-- The module and the command that the callee of a call stands for. -/
def callee? (scopes : Scopes) (t : Tree) : Option (Nat × String) :=
  match t.child? .callee with
  | none => none
  | some callee =>
      match callee.kind with
      | .identifier => scopes.resolveBare callee.text t.span.start
      | .attribute =>
          match Syntax.segments? callee with
          | none => none
          | some segments => scopes.resolveDotted segments t.span.start
      | _ => none

/-- The call of a tracked module that a node is, if it is one. -/
def call? (source : List Char) (scopes : Scopes) (t : Tree) : Option Edit.Call :=
  if t.kind = .call then
    match callee? scopes t with
    | none => none
    | some (place, command) => some ⟨place, command, t.span, keywords source t⟩
  else none

mutual

/-- The calls of tracked modules in a tree at some depth, each before those inside it. -/
def callsAt (source : List Char) (scopes : Scopes) (depth : Nat) : Tree → List Edit.Call
  | .node kind role span text children =>
      if Syntax.depthLimit < depth then []
      else
        (call? source scopes (.node kind role span text children)).toList ++
          callsIn source scopes (depth + 1) children

/-- The calls of tracked modules in some trees at some depth. -/
def callsIn (source : List Char) (scopes : Scopes) (depth : Nat) : List Tree → List Edit.Call
  | [] => []
  | t :: rest => callsAt source scopes depth t ++ callsIn source scopes depth rest

end

/-- The calls of tracked modules in the tree of a text. -/
def calls (source : List Char) (scopes : Scopes) (t : Tree) : List Edit.Call :=
  callsAt source scopes 0 t

end Longhand.Scope
