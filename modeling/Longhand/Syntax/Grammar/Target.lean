import Longhand.Syntax.Grammar.Basic

/-!
# Targets

What stands to the left of an assignment is read as an expression and then turned into a target.
Names, attributes and subscripts are targets, and so are starred ones and lists and tuples of them.
-/

namespace Longhand.Syntax

mutual

/-- The target that an expression stands for. -/
def toTarget? : Tree → Option Tree
  | .node kind role span text children =>
      match kind with
      | .identifier | .attribute | .subscript => some (.node kind role span text children)
      | .listSplat =>
          match children with
          | [.node .identifier ..] | [.node .attribute ..] | [.node .subscript ..] =>
              some (.node .listSplatPattern role span text children)
          | _ => none
      | .tuple | .parenthesizedExpression =>
          match toTargets? children with
          | some targets => some (.node .tuplePattern role span text targets)
          | none => none
      | .list =>
          match toTargets? children with
          | some targets => some (.node .listPattern role span text targets)
          | none => none
      | _ => none

/-- The targets that some expressions stand for. -/
def toTargets? : List Tree → Option (List Tree)
  | [] => some []
  | t :: rest =>
      match toTarget? t, toTargets? rest with
      | some t, some rest => some (t :: rest)
      | _, _ => none

end

/-- The target of an assignment, from the expressions to the left of it. -/
def target (start : Nat) (stop : Nat) (items : List Tree) (trailing : Bool) : Parser Tree :=
  match toTargets? items with
  | none => reject
  | some [one] =>
      if trailing then pure (.node .patternList none ⟨start, stop⟩ "" [one]) else pure one
  | some many => pure (.node .patternList none ⟨start, stop⟩ "" many)

end Longhand.Syntax
