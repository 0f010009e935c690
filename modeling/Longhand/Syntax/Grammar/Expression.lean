import Longhand.Syntax.Grammar.StringLiteral
import Longhand.Syntax.Grammar.Target

/-!
# Expressions

Operators are read by levels: or, and, not, comparison, bit operators, shifts, sums, products, unary
operators and powers, then what follows an operand without a blank of its own: calls, subscripts and
attributes.
-/

namespace Longhand.Syntax

/-- The levels of operators, from the loosest to the tightest. -/
def orLevel : Nat := 1
def andLevel : Nat := 2
def notLevel : Nat := 3
def comparisonLevel : Nat := 4
def unaryLevel : Nat := 11

/-- The level of an operator between two operands. -/
def Operator.level : Operator → Nat
  | .bitOr => 5
  | .bitAnd => 6
  | .bitXor => 7
  | .shiftLeft | .shiftRight => 8
  | .plus | .minus => 9
  | .times | .matrix | .divide | .modulo | .floorDivide => 10
  | .power => 12

/-- The names and words that may stand as an operand or before an equals sign in a call. -/
def Token.isNameLike : Token → Bool
  | .name _ | .word .async_ | .word .await_ => true
  | _ => false

/-! ## Parameters -/

/-- Expressions separated by commas, or nothing. -/
def expressions? (rules : Rules) (f : Follow) : Parser (List Tree) := do
  let first ← peek f.optionalOperand
  if first.token.startsExpression then return (← expressions rules f).1 else return []

/-- A tuple of names, or of further tuples, in a list of parameters. -/
def tupleParameter (rules : Rules) (l : Lexeme) : Parser Tree := do
  accept l
  let items ← expressions? rules Follow.inside
  let _ ← expect Follow.inside.operator Token.isCloseParen
  match toTargets? items with
  | none => reject
  | some targets => node .tuplePattern l.start targets

/-- One or two stars and the name behind them. -/
def starredParameter (kind : Kind) (l : Lexeme) : Parser Tree := do
  accept l
  node kind l.start [← name operand]

/-- The type of a parameter, if it has one.  Only a parameter list in brackets has types. -/
def annotation? (rules : Rules) (f : Follow) (typed : Bool) : Parser (Option Tree) :=
  if typed then do
    match ← optional? f.operator Token.isColon with
    | none => return none
    | some _ => return some ((← rules (.type f)).withRole .type)
  else pure none

/-- The default of a parameter, if it has one. -/
def default? (rules : Rules) (f : Follow) : Parser (Option Tree) := do
  match ← optional? f.operator Token.isEquals with
  | none => return none
  | some _ => return some ((← rules (.expression f)).withRole .value)

/-- A starred parameter with its type, if it has one. -/
def typedSplat (rules : Rules) (f : Follow) (typed : Bool) (kind : Kind) (l : Lexeme) :
    Parser Tree := do
  let splat ← starredParameter kind l
  match ← annotation? rules f typed with
  | none => pure splat
  | some type => node .typedParameter l.start [splat, type]

/-- A parameter that is a name, with its type and its default if it has them. -/
def namedParameter (rules : Rules) (f : Follow) (typed : Bool) (l : Lexeme) : Parser Tree := do
  accept l
  let type? ← annotation? rules f typed
  let value? ← default? rules f
  let id := leaf .identifier l
  match type?, value? with
  | none, none => pure id
  | none, some value => node .defaultParameter l.start [id.withRole .name, value]
  | some type, none => node .typedParameter l.start [id, type]
  | some type, some value =>
      node .typedDefaultParameter l.start [id.withRole .name, type, value]

/-- A parameter. -/
def parameter (rules : Rules) (f : Follow) (typed : Bool) : Parser Tree := do
  let l ← peek f.optionalOperand
  match l.token with
  | .name _ => namedParameter rules f typed l
  | .operator .times => do
      accept l
      let next ← peek f.operator
      if next.token.isName then
        returnTo l.here
        typedSplat rules f typed .listSplatPattern l
      else node .keywordSeparator l.start []
  | .operator .power => typedSplat rules f typed .dictionarySplatPattern l
  | .operator .divide => do
      accept l
      node .positionalSeparator l.start []
  | .openParen => do
      let tuple ← tupleParameter rules l
      match ← default? rules f with
      | none => pure tuple
      | some value => node .defaultParameter l.start [tuple.withRole .name, value]
  | _ => reject

/-- Whether a parameter can begin with a token. -/
def Token.startsParameter : Token → Bool
  | .name _ | .operator .times | .operator .power | .operator .divide | .openParen => true
  | _ => false

/-- Parameters separated by commas. -/
def parameterItems (rules : Rules) (f : Follow) (typed : Bool) : Parser (List Tree) := do
  let l ← peek f.optionalOperand
  if l.token.startsParameter then
    return (← separated (parameter rules f typed) f.operator f.optionalOperand
      Token.startsParameter).1
  else return []

/-- The parameters of a function, in brackets. -/
def parameters (rules : Rules) : Parser Tree := do
  let l ← expect {} Token.isOpenParen
  let items ← parameterItems rules Follow.inside true
  let _ ← expect Follow.inside.operator Token.isCloseParen
  node .parameters l.start items

/-- The parameters of a function without a name, if it has any. -/
def lambdaParameters? (rules : Rules) : Parser (List Tree) := do
  let first ← peek Follow.within.optionalOperand
  let items ← parameterItems rules Follow.within false
  if items.isEmpty then return []
  else return [(← node .lambdaParameters first.start items).withRole .parameters]

/-- A function without a name, given its first word. -/
def lambdaExpression (rules : Rules) (f : Follow) (l : Lexeme) : Parser Tree := do
  accept l
  let params ← lambdaParameters? rules
  let _ ← expect Follow.within.operator Token.isColon
  let body ← rules (.expression f)
  node .lambda l.start (params ++ [body.withRole .body])

/-! ## Comprehensions -/

/-- Whether a clause of a comprehension begins with a token. -/
def Token.startsClause : Token → Bool
  | .word .for_ | .word .async_ => true
  | _ => false

/-- Targets separated by commas, up to the word `in`. -/
def loopTarget (rules : Rules) : Parser Tree := do
  let first ← peek operand
  let (items, trailing) ← separated (rules (.level Follow.within 13)) {} operand
    Token.startsExpression
  target first.start (← lastEnd) items trailing

/-- The first clause of a comprehension, with its target and what it runs over. -/
def forInClause (rules : Rules) (f : Follow) : Parser Tree := do
  let first ← peek f.operator
  let _ ← optional? f.operator (Token.isWord .async_)
  let _ ← expect f.operator (Token.isWord .for_)
  let left ← loopTarget rules
  let _ ← expect {} (Token.isWord .in_)
  let (items, _) ← separated (rules (.level f 0)) f.operator f.optionalOperand
    Token.startsExpression
  node .forInClause first.start (left.withRole .left :: items.map (Tree.withRole .right))

/-- The clauses of a comprehension. -/
def clauses (rules : Rules) : Parser (List Tree) := do
  let f := Follow.inside
  let first ← forInClause rules f
  let all ← loop [first] fun trees => do
    let l ← peek f.operator
    match l.token with
    | .word .for_ | .word .async_ => return some ((← forInClause rules f) :: trees)
    | .word .if_ =>
        accept l
        let condition ← rules (.level f 0)
        return some ((← node .ifClause l.start [condition]) :: trees)
    | _ => return none
  return all.reverse

/-! ## Brackets -/

/-- Whether an item of a list, a set or a tuple can begin with a token. -/
def Token.startsElement (t : Token) : Bool :=
  t.startsExpression || t.isWord .yield_

/-- An item of a list, a set or a tuple. -/
def element (rules : Rules) : Parser Tree := do
  let f := Follow.inside
  let l ← peek f.optionalOperand
  match l.token with
  | .word .yield_ => rules (.yield f)
  | .operator .times =>
      accept l
      node .listSplat l.start [← rules (.expression f)]
  | _ => rules (.expression f)

/-- The rest of a bracketed form behind its first item: further items and what closes it, or the
clauses of a comprehension of a kind. -/
def elementsAfter (rules : Rules) (start : Nat) (close : Token → Bool) (comprehension : Kind)
    (finish : List Tree → Bool → Parser Tree) (first : Tree) : Parser Tree := do
  let f := Follow.inside
  let l ← peek f.operator
  if l.token.startsClause then
    let parts ← clauses rules
    let _ ← expect f.operator close
    node comprehension start (first :: parts)
  else
    let (rest, trailing) ← furtherItems (element rules) f Token.startsElement
    let _ ← expect f.operator close
    finish (first :: rest) trailing

/-- The items of a bracketed form and what closes it, or a comprehension of a kind.  The body of a
comprehension is an expression. -/
def elements (rules : Rules) (start : Nat) (close : Token → Bool) (comprehension : Kind)
    (finish : List Tree → Bool → Parser Tree) : Parser Tree := do
  let before ← get
  let first ← element rules
  let next ← peek Follow.inside.operator
  if next.token.startsClause && first.kind = .listSplat then
    returnTo before
    elementsAfter rules start close comprehension finish (← rules (.expression Follow.inside))
  else if next.token.startsClause && first.kind = .yield then reject
  else elementsAfter rules start close comprehension finish first

/-- A tuple, an expression in brackets or a generator. -/
def bracketed (rules : Rules) (l : Lexeme) : Parser Tree := do
  accept l
  let first ← peek Follow.inside.optionalOperand
  if first.token.isCloseParen then
    accept first
    node .tuple l.start []
  else
    elements rules l.start Token.isCloseParen .generatorExpression fun items trailing =>
      match items with
      | [one] =>
          if trailing || one.kind = .listSplat then node .tuple l.start items
          else node .parenthesizedExpression l.start items
      | _ => node .tuple l.start items

def Token.isCloseSquare : Token → Bool
  | .closeSquare => true
  | _ => false

def Token.isCloseBrace : Token → Bool
  | .closeBrace => true
  | _ => false

/-- A list or the comprehension of one. -/
def listDisplay (rules : Rules) (l : Lexeme) : Parser Tree := do
  accept l
  let first ← peek Follow.inside.optionalOperand
  if first.token.isCloseSquare then
    accept first
    node .list l.start []
  else
    elements rules l.start Token.isCloseSquare .listComprehension fun items _ =>
      node .list l.start items

/-- An entry of a dictionary. -/
def entry (rules : Rules) : Parser Tree := do
  let f := Follow.inside
  let l ← peek f.optionalOperand
  match l.token with
  | .operator .power =>
      accept l
      node .dictionarySplat l.start [← rules (.expression f)]
  | _ =>
      let key ← rules (.expression f)
      let _ ← expect f.operator Token.isColon
      let value ← rules (.expression f)
      node .pair l.start [key, value]

/-- Whether an entry of a dictionary can begin with a token. -/
def Token.startsEntry (t : Token) : Bool :=
  t.startsExpression || t.isOperator .power

/-- The rest of a dictionary behind its first entry. -/
def dictionaryAfter (rules : Rules) (start : Nat) (one : Tree) : Parser Tree := do
  let f := Follow.inside
  let (rest, _) ← furtherItems (entry rules) f Token.startsEntry
  let _ ← expect f.operator Token.isCloseBrace
  node .dictionary start (one :: rest)

/-- What is in braces when it begins with an expression: the entries of a dictionary, the items of a
set or the comprehension of one. -/
def keyed (rules : Rules) (start : Nat) (first : Lexeme) : Parser Tree := do
  let f := Follow.inside
  let key ← rules (.expression f)
  let next ← peek f.operator
  if next.token.isColon then
    accept next
    let value ← rules (.expression f)
    let one ← node .pair first.start [key, value]
    let next ← peek f.operator
    if next.token.startsClause then
      let parts ← clauses rules
      let _ ← expect f.operator Token.isCloseBrace
      node .dictionaryComprehension start (one :: parts)
    else dictionaryAfter rules start one
  else
    elementsAfter rules start Token.isCloseBrace .setComprehension
      (fun items _ => node .set start items) key

/-- A dictionary, a set or the comprehension of one. -/
def braceDisplay (rules : Rules) (l : Lexeme) : Parser Tree := do
  accept l
  let f := Follow.inside
  let first ← peek f.optionalOperand
  match first.token with
  | .closeBrace =>
      accept first
      node .dictionary l.start []
  | .comma =>
      accept first
      let _ ← expect f.operator Token.isCloseBrace
      node .dictionary l.start []
  | .operator .times | .word .yield_ =>
      elements rules l.start Token.isCloseBrace .setComprehension fun items _ =>
        node .set l.start items
  | .operator .power => dictionaryAfter rules l.start (← entry rules)
  | _ => keyed rules l.start first

/-! ## Calls and subscripts -/

/-- Whether an argument of a call can begin with a token. -/
def Token.startsArgument (t : Token) : Bool :=
  t.startsExpression || t.isOperator .power

/-- An argument that begins with a name: a keyword argument or an expression. -/
def nameArgument (rules : Rules) (l : Lexeme) : Parser Tree := do
  accept l
  match ← optional? Follow.inside.operator Token.isEquals with
  | some _ =>
      let value ← rules (.expression Follow.inside)
      node .keywordArgument l.start [(leaf .identifier l).withRole .name, value.withRole .value]
  | none =>
      returnTo l.here
      rules (.expression Follow.inside)

/-- An argument of a call. -/
def argument (rules : Rules) : Parser Tree := do
  let f := Follow.inside
  let l ← peek f.optionalOperand
  match l.token with
  | .operator .times =>
      accept l
      node .listSplat l.start [← rules (.expression f)]
  | .operator .power =>
      accept l
      node .dictionarySplat l.start [← rules (.expression f)]
  | t => if t.isNameLike then nameArgument rules l else rules (.expression f)

/-- The body of a generator that is the only argument of a call, from what was read as an argument
before its clauses. -/
def generatorBody (rules : Rules) (before : Cursor) (one : Tree) : Parser Tree :=
  match one.kind with
  | .keywordArgument | .dictionarySplat => reject
  | .listSplat => do
      returnTo before
      rules (.expression Follow.inside)
  | _ => pure one

/-- The arguments of a call, or the generator that is its only argument. -/
def arguments (rules : Rules) (l : Lexeme) : Parser Tree := do
  accept l
  let f := Follow.inside
  let first ← peek f.optionalOperand
  if first.token.startsArgument then
    let before ← get
    let one ← argument rules
    let next ← peek f.operator
    if next.token.startsClause then
      let body ← generatorBody rules before one
      let parts ← clauses rules
      let _ ← expect f.operator Token.isCloseParen
      node .generatorExpression l.start (body :: parts)
    else
      let (rest, _) ← furtherItems (argument rules) f Token.startsArgument
      let _ ← expect f.operator Token.isCloseParen
      node .argumentList l.start (one :: rest)
  else
    let _ ← optional? f.operator Token.isComma
    let _ ← expect f.operator Token.isCloseParen
    node .argumentList l.start []

/-- A part of a slice, or nothing. -/
def slicePart? (rules : Rules) : Parser (List Tree) := do
  let f := Follow.inside
  let next ← peek f.optionalOperand
  if next.token.startsExpression then return [← rules (.expression f)] else return []

/-- The part of a slice behind its second colon, or nothing. -/
def sliceStep? (rules : Rules) : Parser (List Tree) := do
  match ← optional? Follow.inside.operator Token.isColon with
  | none => return []
  | some _ => slicePart? rules

/-- A subscript or a slice. -/
def subscriptItem (rules : Rules) : Parser Tree := do
  let l ← peek operand
  let first ← slicePart? rules
  match ← optional? Follow.inside.operator Token.isColon with
  | none =>
      match first with
      | [one] => pure one
      | _ => reject
  | some _ =>
      let second ← slicePart? rules
      let third ← sliceStep? rules
      node .slice l.start (first ++ second ++ third)

/-- The subscripts in square brackets. -/
def subscripts (rules : Rules) (l : Lexeme) : Parser (List Tree) := do
  accept l
  let f := Follow.inside
  let first ← peek operand
  if first.token.startsExpression || first.token.isColon then
    let (items, _) ← separated (subscriptItem rules) f.operator f.optionalOperand
      (fun t => t.startsExpression || t.isColon)
    let _ ← expect f.operator Token.isCloseSquare
    return items
  else reject

/-! ## Operands -/

/-- An operand without anything behind it. -/
def atom (rules : Rules) (f : Follow) (l : Lexeme) : Parser Tree :=
  match l.token with
  | .name _ | .word .async_ | .word .await_ => do
      accept l
      pure (leaf .identifier l)
  | .integer => do
      accept l
      pure (leaf .integer l)
  | .float => do
      accept l
      pure (leaf .float l)
  | .word .true_ => do
      accept l
      pure (leaf .true l)
  | .word .false_ => do
      accept l
      pure (leaf .false l)
  | .word .none_ => do
      accept l
      pure (leaf .none l)
  | .ellipsis => do
      accept l
      pure (leaf .ellipsis l)
  | .quote s => strings rules f l s
  | .openParen => bracketed rules l
  | .openSquare => listDisplay rules l
  | .openBrace => braceDisplay rules l
  | _ => reject

/-- One call, subscript or attribute behind an operand. -/
def trailer? (rules : Rules) (f : Follow) (start : Nat) (t : Tree) : Parser (Option Tree) := do
  let l ← peek f.operator
  match l.token with
  | .dot =>
      accept l
      let id ← name {}
      return some (← node .attribute start [t.withRole .object, id.withRole .attribute])
  | .openSquare =>
      let items ← subscripts rules l
      return some (← node .subscript start (t.withRole .value :: items))
  | .openParen =>
      let args ← arguments rules l
      return some (← node .call start [t.withRole .callee, args.withRole .arguments])
  | _ => return none

/-- An operand with the calls, subscripts and attributes behind it. -/
def trailed (rules : Rules) (f : Follow) (start : Nat) (t : Tree) : Parser Tree :=
  loop t (trailer? rules f start)

/-- A starred operand up to here, and the place behind it. -/
def splatTo (start : Nat) (t : Tree) : Parser (Option (Tree × Cursor)) := do
  return some (← node .listSplat start [t], ← get)

/-- A starred operand that is only a name, if it is one. -/
def splatName (start : Nat) (t : Tree) : Parser (Option (Tree × Cursor)) :=
  if t.kind = .identifier then splatTo start t else pure none

/-- A starred operand.  The star reaches up to the last name, attribute or subscript; calls behind
that are calls of the starred operand. -/
def starred (rules : Rules) (f : Follow) (l : Lexeme) : Parser Tree := do
  accept l
  let first ← peek operand
  let base ← atom rules f first
  let start ← splatName l.start base
  let (_, best) ← loop (base, start) fun (t, best) => do
    match ← trailer? rules f first.start t with
    | none => return none
    | some t =>
        if t.kind = .call then return some (t, best)
        else return some (t, ← splatTo l.start t)
  match best with
  | none => reject
  | some (t, here) =>
      returnTo here
      trailed rules f l.start t

/-- An operand with what follows it without a blank of its own. -/
def primary (rules : Rules) (f : Follow) (l : Lexeme) : Parser Tree :=
  match l.token with
  | .operator .times => starred rules f l
  | _ => do trailed rules f l.start (← atom rules f l)

/-- An operand, with the power operator behind it if that is allowed. -/
def powered (rules : Rules) (f : Follow) (powers : Bool) (l : Lexeme) : Parser Tree := do
  let base ← primary rules f l
  if powers then
    match ← optional? f.operator (Token.isOperator .power) with
    | none => return base
    | some _ => node .binaryOperator l.start [base, ← rules (.level f unaryLevel)]
  else return base

/-- An operator before its only operand. -/
def prefixed (rules : Rules) (f : Follow) (kind : Kind) (l : Lexeme) : Parser Tree := do
  accept l
  node kind l.start [← rules (.level f unaryLevel)]

/-- An operand behind the word `await`, or that word as a name. -/
def awaited (rules : Rules) (f : Follow) (l : Lexeme) : Parser Tree := do
  accept l
  let next ← peek f.optionalOperand
  returnTo l.here
  if next.token.startsExpression && !next.token.isWord .not_ && !next.token.isWord .lambda_ then
    prefixed rules f .await l
  else powered rules f true l

/-- An operand of operators between two operands, with the power operator. -/
def unary (rules : Rules) (f : Follow) (powers : Bool) : Parser Tree := do
  let l ← peek operand
  if powers then
    match l.token with
    | .operator .plus | .operator .minus | .tilde => prefixed rules f .unaryOperator l
    | .word .await_ => awaited rules f l
    | _ => powered rules f true l
  else powered rules f false l

/-! ## Operators -/

/-- A value with a name given to it, or an operand that begins with a name. -/
def namedExpression (rules : Rules) (f : Follow) (n : Nat) (l : Lexeme) : Parser Tree := do
  accept l
  match ← optional? f.operator fun | .walrus => true | _ => false with
  | some _ =>
      let value ← rules (.level f (if n = 0 then 0 else orLevel))
      node .namedExpression l.start
        [(leaf .identifier l).withRole .name, value.withRole .value]
  | none =>
      returnTo l.here
      unary rules f true

/-- An operand of the loose operators: a negation, a function, a named expression or an operand of
the tight ones. -/
def looseOperand (rules : Rules) (f : Follow) (n : Nat) : Parser Tree := do
  let l ← peek operand
  if notLevel < n then unary rules f (n ≤ unaryLevel)
  else
    match l.token with
    | .word .not_ => do
        accept l
        node .notOperator l.start [← rules (.level f notLevel)]
    | .word .lambda_ => lambdaExpression rules f l
    | t => if t.isNameLike then namedExpression rules f n l else unary rules f true

/-- Whether a token is a comparison of one word or mark. -/
def Token.isComparison : Token → Bool
  | .comparison | .word .in_ | .word .is_ | .word .not_ => true
  | _ => false

/-- A comparison, given its first token. -/
def comparisonOperator (l : Lexeme) : Parser Unit := do
  accept l
  match l.token with
  | .word .not_ =>
      let _ ← expect {} (Token.isWord .in_)
      pure ()
  | .word .is_ =>
      let _ ← optional? operand (Token.isWord .not_)
      pure ()
  | _ => pure ()

/-- Two or more operands compared in a row. -/
def comparisons (rules : Rules) (f : Follow) (start : Nat) (first : Tree) : Parser Tree := do
  let all ← loop [first] fun trees => do
    let l ← peek f.operator
    if l.token.isComparison then
      comparisonOperator l
      return some ((← rules (.level f (comparisonLevel + 1))) :: trees)
    else return none
  node .comparisonOperator start all.reverse

/-- An operator between two operands, given the first of them and the level of the second. -/
def operation (rules : Rules) (f : Follow) (kind : Kind) (level start : Nat) (t : Tree)
    (l : Lexeme) : Parser Tree := do
  accept l
  node kind start [t, ← rules (.level f level)]

/-- An operator behind an operand, and the operand behind it. -/
def operation? (rules : Rules) (f : Follow) (n start : Nat) (t : Tree) : Parser (Option Tree) := do
  let l ← peek f.operator
  match l.token with
  | .word .or_ =>
      if orLevel < n then return none
      else return some (← operation rules f .booleanOperator andLevel start t l)
  | .word .and_ =>
      if andLevel < n then return none
      else return some (← operation rules f .booleanOperator notLevel start t l)
  | .operator op =>
      if op.level < n || op = .power then return none
      else return some (← operation rules f .binaryOperator (op.level + 1) start t l)
  | other =>
      if other.isComparison && n ≤ comparisonLevel then
        return some (← comparisons rules f start t)
      else return none

/-- Another name for a value, behind the value. -/
def asPattern (rules : Rules) (f : Follow) (start : Nat) (t : Tree) (l : Lexeme) :
    Parser Tree := do
  accept l
  let other ← rules (.level f orLevel)
  let target := Tree.node .asPatternTarget (some .alias) other.span "" [other]
  node .asPattern start [t, target]

/-- A condition for a value, behind the value. -/
def conditional (rules : Rules) (f : Follow) (start : Nat) (t : Tree) (l : Lexeme) :
    Parser Tree := do
  accept l
  let condition ← rules (.expression Follow.within)
  let _ ← expect {} (Token.isWord .else_)
  let other ← rules (.expression f)
  node .conditionalExpression start [t, condition, other]

/-- The loosest operators behind an operand: another name for it, and a condition for it. -/
def condition? (rules : Rules) (f : Follow) (allowed : Bool) (start : Nat) (t : Tree) :
    Parser (Option Tree) := do
  let l ← peek f.operator
  match l.token with
  | .word .as_ => return some (← asPattern rules f start t l)
  | .word .if_ =>
      if allowed then return some (← conditional rules f start t l) else return none
  | _ => return none

/-- The operators behind an operand that bind at least as tightly as a level. -/
def operations (rules : Rules) (f : Follow) (n start : Nat) (t : Tree) : Parser Tree :=
  if n = unaryLevel then pure t else loop t (operation? rules f n start)

/-- An expression whose operators bind at least as tightly as a level.  Level zero is that of an
expression without a condition. -/
def levelExpression (rules : Rules) (f : Follow) (n : Nat) : Parser Tree := do
  let l ← peek operand
  if unaryLevel < n then unary rules f false
  else
    let first ← looseOperand rules f n
    let t ← operations rules f n l.start first
    if n = 0 then loop t (condition? rules f false l.start) else pure t

/-- Any expression. -/
def expression (rules : Rules) (f : Follow) : Parser Tree := do
  let l ← peek operand
  let first ← rules (.level f 0)
  loop first (condition? rules f true l.start)

/-- A `yield`, with what it yields. -/
def yieldExpression (rules : Rules) (f : Follow) : Parser Tree := do
  let l ← expect f.optionalOperand (Token.isWord .yield_)
  let next ← peek f.optionalOperand
  match next.token with
  | .word .from_ =>
      accept next
      node .yield l.start [← rules (.expression f)]
  | t =>
      if t.startsExpression then
        let (items, _) ← expressions rules f
        node .yield l.start items
      else node .yield l.start []

end Longhand.Syntax
