import Longhand.Syntax.Grammar.StringLiteral

/-!
# Patterns of a match statement

What stands behind `case`.  These patterns are only read, no name in them counts as bound.
-/

namespace Longhand.Syntax

/-- Patterns separated by commas, or nothing. -/
def patterns? (item : Parser Tree) (starts : Token → Bool) : Parser (List Tree) := do
  let f := Follow.inside
  let first ← peek f.optionalOperand
  if starts first.token then return (← separated item f.operator f.optionalOperand starts).1
  else return []

/-- Patterns separated by commas up to a closing bracket. -/
def bracketedPatterns (item : Parser Tree) (starts close : Token → Bool) :
    Parser (List Tree) := do
  let items ← patterns? item starts
  let _ ← expect Follow.inside.operator close
  return items

/-- Whether a pattern can begin with a token. -/
def Token.startsPattern : Token → Bool
  | .name _ | .integer | .float | .quote _ | .openParen | .openSquare | .openBrace => true
  | .word .true_ | .word .false_ | .word .none_ => true
  | .operator .minus | .operator .times | .operator .power => true
  | _ => false

def Token.isNumber : Token → Bool
  | .integer | .float => true
  | _ => false

/-- The leaf of a number. -/
def numberLeaf (l : Lexeme) : Tree :=
  leaf (match l.token with | .float => .float | _ => .integer) l

/-- A number with an optional sign, or the sum or difference of two. -/
def numberPattern (f : Follow) : Parser Tree := do
  let first ← peek operand
  let _ ← optional? operand (Token.isOperator .minus)
  let l ← expect {} Token.isNumber
  let sign := fun (t : Token) => t.isOperator .plus || t.isOperator .minus
  match ← optional? f.operator sign with
  | none => node .casePattern first.start [numberLeaf l]
  | some _ =>
      let m ← expect {} Token.isNumber
      node .complexPattern first.start [numberLeaf l, numberLeaf m]

/-- An entry of a pattern in braces. -/
def patternEntry (rules : Rules) : Parser Tree := do
  let f := Follow.inside
  let l ← peek f.optionalOperand
  let key ← rules (.simplePattern f)
  if key.kind = .splatPattern then pure key
  else
    let _ ← expect f.operator Token.isColon
    node .pair l.start [key, ← rules (.casePattern f)]

/-- A pattern that is not an alternative of several. -/
def closedPattern (rules : Rules) (f : Follow) : Parser Tree := do
  let l ← peek operand
  match l.token with
  | .integer | .float | .operator .minus => numberPattern f
  | .word .true_ | .word .false_ | .word .none_ =>
      accept l
      pure (leaf .casePattern l)
  | .quote s => strings rules f l s
  | .operator .times | .operator .power =>
      accept l
      node .splatPattern l.start [← name {}]
  | .name _ =>
      if l.token.isNamed "_" then
        accept l
        pure (leaf .casePattern l)
      else
        let dotted ← dottedName f.operator
        match ← optional? f.operator Token.isOpenParen with
        | none => pure dotted
        | some _ =>
            let items ← bracketedPatterns (rules (.casePattern Follow.inside)) Token.startsPattern
              Token.isCloseParen
            node .classPattern l.start (dotted :: items)
  | .openParen =>
      accept l
      let items ← bracketedPatterns (rules (.casePattern Follow.inside)) Token.startsPattern
        Token.isCloseParen
      node .tuplePattern l.start items
  | .openSquare =>
      accept l
      let items ← bracketedPatterns (rules (.casePattern Follow.inside)) Token.startsPattern
        fun | .closeSquare => true | _ => false
      node .listPattern l.start items
  | .openBrace =>
      accept l
      let items ← bracketedPatterns (patternEntry rules) Token.startsPattern
        fun | .closeBrace => true | _ => false
      node .dictPattern l.start items
  | _ => reject

/-- A further pattern of those of which one has to fit, given the ones before it in reverse. -/
def alternative? (rules : Rules) (f : Follow) (trees : List Tree) :
    Parser (Option (List Tree)) := do
  match ← optional? f.operator (Token.isOperator .bitOr) with
  | none => return none
  | some _ => return some ((← closedPattern rules f) :: trees)

/-- One pattern as it is, or several, given in reverse, of which one has to fit. -/
def oneOf (start : Nat) : List Tree → Parser Tree
  | [one] => pure one
  | all => node .unionPattern start all.reverse

/-- A pattern, or several of which one has to fit. -/
def simplePattern (rules : Rules) (f : Follow) : Parser Tree := do
  let l ← peek operand
  let first ← closedPattern rules f
  let all ← loop [first] (alternative? rules f)
  oneOf l.start all

/-- Whether a token is an argument name before a pattern. -/
def isKeywordAhead (f : Follow) (l : Lexeme) : Parser Bool :=
  if l.token.isName && !l.token.isNamed "_" then do
    accept l
    let next ← peek f.operator
    returnTo l.here
    return next.token.isEquals
  else pure false

/-- A pattern with an argument name before it. -/
def keywordPattern (rules : Rules) (f : Follow) (l : Lexeme) : Parser Tree := do
  accept l
  let _ ← expect {} Token.isEquals
  node .keywordPattern l.start [leaf .identifier l, ← rules (.simplePattern f)]

/-- A pattern, with an argument name before it or without. -/
def argumentPattern (rules : Rules) (f : Follow) (l : Lexeme) : Parser Tree := do
  if ← isKeywordAhead f l then keywordPattern rules f l else rules (.simplePattern f)

/-- A pattern with a further name bound to it, if there is one. -/
def boundPattern? (f : Follow) (start : Nat) (t : Tree) : Parser (Option Tree) := do
  match ← optional? f.operator (Token.isWord .as_) with
  | none => return none
  | some _ => return some (← node .asPattern start [t, ← name {}])

/-- A pattern with an argument name before it or a bound name behind it, if any. -/
def casePattern (rules : Rules) (f : Follow) : Parser Tree := do
  let l ← peek operand
  let first ← argumentPattern rules f l
  let bound ← loop first (boundPattern? f l.start)
  node .casePattern l.start [bound]

end Longhand.Syntax
