import Longhand.Syntax.Grammar.Basic

/-!
# Type annotations

A type is an expression, or a name with types in square brackets behind it, or two types that are
joined.
-/

namespace Longhand.Syntax

/-- Types in square brackets. -/
def typeParameters (rules : Rules) (l : Lexeme) : Parser Tree := do
  accept l
  let (items, _) ← separated (rules (.type Follow.inside)) Follow.inside.operator
    Follow.inside.optionalOperand fun t => t.startsExpression || t.isOperator .power
  let _ ← expect Follow.inside.operator fun | .closeSquare => true | _ => false
  node .typeParameter l.start items

/-- Types in square brackets, if there are any. -/
def typeParameters? (rules : Rules) : Parser (List Tree) := do
  let l ← peek {}
  match l.token with
  | .openSquare => return [← typeParameters rules l]
  | _ => return []

/-- A type that is not made of two others. -/
def simpleType (rules : Rules) (f : Follow) : Parser Tree := do
  let l ← peek operand
  match l.token with
  | .operator .power =>
      accept l
      node .splatType l.start [← name {}]
  | .name _ =>
      accept l
      let next ← peek f.operator
      match next.token with
      | .openSquare =>
          let params ← typeParameters rules next
          node .genericType l.start [leaf .identifier l, params]
      | _ =>
          returnTo l.here
          rules (.expression f)
  | _ => rules (.expression f)

/-- A type annotation.  A colon joins two types only where no colon has to follow the type. -/
def typeAnnotation (rules : Rules) (f : Follow) : Parser Tree := do
  let l ← peek operand
  let wrap (t : Tree) : Parser Tree := node .type l.start [t]
  let first ← wrap (← simpleType rules f)
  loop first fun t => do
    let next ← peek f.operator
    match next.token with
    | .operator .bitOr =>
        accept next
        return some (← wrap (← node .unionType l.start [t, ← rules (.type f)]))
    | .dot =>
        accept next
        return some (← wrap (← node .memberType l.start [t, ← name {}]))
    | .colon =>
        if f.newline || f.closer then
          accept next
          return some (← wrap (← node .constrainedType l.start [t, ← rules (.type f)]))
        else return none
    | _ => return none

end Longhand.Syntax
