import Longhand.Syntax.Grammar.Expression
import Longhand.Syntax.Grammar.TypeAnnotation
import Longhand.Syntax.Grammar.CasePattern

/-!
# Statements

Simple statements on one line, and compound statements with their blocks.  Some words begin a
statement only where the line cannot be read as an expression.
-/

namespace Longhand.Syntax

/-- What is allowed where a statement can begin. -/
def statementStart : Expect := { dedent := true, quote := true }

/-- The token behind a word that is a keyword only in some places.  The reading does not move on to
it. -/
def Lexeme.behind (l : Lexeme) (e : Expect) : Token :=
  (l.next.read e).token

/-- Whether the line or the statement ends with a token. -/
def Token.endsStatement : Token → Bool
  | .layout .newline | .semicolon => true
  | _ => false

/-- One expression as it is, or several as a list. -/
def oneOrList (start : Nat) (items : List Tree) (trailing : Bool) : Parser Tree :=
  match items, trailing with
  | [one], false => pure one
  | many, _ => node .expressionList start many

/-- One expression, or several as a list. -/
def expressionOrList (rules : Rules) (f : Follow) : Parser Tree := do
  let l ← peek operand
  let (items, trailing) ← expressions rules f
  oneOrList l.start items trailing

/-! ## Assignments -/

/-- The value that is assigned behind the type of a target, if one is. -/
def assignedValue? (rules : Rules) : Parser (List Tree) := do
  match ← optional? Follow.line.operator Token.isEquals with
  | none => return []
  | some _ => return [(← rules .assigned).withRole .right]

/-- An assignment, from what was read to the left of it, if the next token is one of assignment. -/
def assignment? (rules : Rules) (start : Nat) (items : List Tree) (trailing : Bool) :
    Parser (Option Tree) := do
  let stop ← lastEnd
  let l ← peek Follow.line.operator
  match l.token with
  | .equals =>
      let left ← target start stop items trailing
      accept l
      let right ← rules .assigned
      return some (← node .assignment start [left.withRole .left, right.withRole .right])
  | .augmented =>
      let left ← target start stop items trailing
      accept l
      let right ← rules .assigned
      return some (← node .augmentedAssignment start [left.withRole .left, right.withRole .right])
  | .colon =>
      let left ← target start stop items trailing
      accept l
      let type ← rules (.type Follow.line)
      let right ← assignedValue? rules
      return some (← node .assignment start
        (left.withRole .left :: type.withRole .type :: right))
  | _ => return none

/-- What stands to the right of an assignment. -/
def assigned (rules : Rules) : Parser Tree := do
  let l ← peek operand
  match l.token with
  | .word .yield_ => rules (.yield Follow.line)
  | _ =>
      let (items, trailing) ← expressions rules Follow.line
      match ← assignment? rules l.start items trailing with
      | some t => pure t
      | none => oneOrList l.start items trailing

/-- A statement that is an expression, several expressions, an assignment or a `yield`. -/
def expressionStatement (rules : Rules) : Parser Tree := do
  let l ← peek operand
  match l.token with
  | .word .yield_ => node .expressionStatement l.start [← rules (.yield Follow.line)]
  | _ =>
      let (items, trailing) ← expressions rules Follow.line
      match ← assignment? rules l.start items trailing with
      | some t => node .expressionStatement l.start [t]
      | none => node .expressionStatement l.start items

/-! ## Imports -/

/-- What an import statement names, with another name for it or without. -/
def importItem (e : Expect) : Parser Tree := do
  let dotted ← dottedName e
  match ← optional? e (Token.isWord .as_) with
  | none => return dotted.withRole .name
  | some _ =>
      let other ← name {}
      return (← node .aliasedImport dotted.span.start
        [dotted.withRole .name, other.withRole .alias]).withRole .name

/-- What an import statement names. -/
def importItems (f : Follow) : Parser (List Tree) := do
  return (← separated (importItem f.operator) f.operator f.operator Token.isName).1

/-- What an import statement names, in brackets or not. -/
def importList : Parser (List Tree) := do
  match ← optional? {} Token.isOpenParen with
  | none => importItems Follow.line
  | some _ =>
      let items ← importItems Follow.inside
      let _ ← expect Follow.inside.operator Token.isCloseParen
      return items

def importStatement (l : Lexeme) : Parser Tree := do
  accept l
  node .importStatement l.start (← importItems Follow.line)

/-- Whether a token is one or three of the dots before a relative module name. -/
def Token.isDots : Token → Bool
  | .dot | .ellipsis => true
  | _ => false

/-- The module that is imported from. -/
def importedModule : Parser Tree := do
  let l ← peek {}
  if l.token.isDots then
    accept l
    let _ ← loop () fun _ => do
      match ← optional? {} Token.isDots with
      | none => return none
      | some _ => return some ()
    let dots ← node .importPrefix l.start []
    let next ← peek {}
    if next.token.isName then node .relativeImport l.start [dots, ← dottedName {}]
    else node .relativeImport l.start [dots]
  else dottedName {}

/-- Whether a token goes on behind the first name of a module that is imported from. -/
def Token.followsModule : Token → Bool
  | .dot | .word .import_ => true
  | _ => false

def importFromStatement (l : Lexeme) : Parser Tree := do
  accept l
  let next ← peek {}
  if next.token.isNamed "__future__" && (next.behind {}).followsModule then
    accept next
    let _ ← expect {} (Token.isWord .import_)
    node .futureImportStatement l.start (← importList)
  else
    let origin := (← importedModule).withRole .moduleName
    let _ ← expect {} (Token.isWord .import_)
    match ← optional? {} (Token.isOperator .times) with
    | some star => node .importFromStatement l.start [origin, leaf .wildcardImport star]
    | none => node .importFromStatement l.start (origin :: (← importList))

/-! ## Simple statements -/

/-- The old statement that prints. -/
def printStatement (rules : Rules) (l : Lexeme) : Parser Tree := do
  accept l
  let next ← peek operand
  match next.token with
  | .operator .shiftRight =>
      accept next
      let stream ← rules (.expression Follow.line)
      let chevron ← node .chevron next.start [stream]
      let (rest, _) ← furtherItems (rules (.expression Follow.line)) Follow.line
        Token.startsExpression
      node .printStatement l.start (chevron :: rest)
  | _ => node .printStatement l.start (← expressions rules Follow.line).1

/-- The text that is run by an old statement. -/
def execCode (rules : Rules) : Parser Tree := do
  let next ← peek operand
  match next.token with
  | .quote s => stringLiteral rules next s
  | .name _ =>
      accept next
      pure (leaf .identifier next)
  | _ => reject

/-- The old statement that runs a text. -/
def execStatement (rules : Rules) (l : Lexeme) : Parser Tree := do
  accept l
  let code ← execCode rules
  match ← optional? Follow.line.operator (Token.isWord .in_) with
  | none => node .execStatement l.start [code]
  | some _ =>
      let (items, trailing) ← expressions rules Follow.line
      if trailing then reject else node .execStatement l.start (code :: items)

def typeAliasStatement (rules : Rules) (l : Lexeme) : Parser Tree := do
  accept l
  let left ← rules (.type Follow.within)
  let _ ← expect {} Token.isEquals
  node .typeAliasStatement l.start [left, ← rules (.type Follow.line)]

/-- One expression, several as a list, or nothing, up to the end of the line. -/
def expressionOrList? (rules : Rules) : Parser (List Tree) := do
  let next ← peek Follow.line.optionalOperand
  if next.token.startsExpression then return [← expressionOrList rules Follow.line]
  else return []

/-- A statement of one word and, if there is one, an expression or a list of some. -/
def wordStatement (rules : Rules) (kind : Kind) (l : Lexeme) : Parser Tree := do
  accept l
  node kind l.start (← expressionOrList? rules)

def raiseStatement (rules : Rules) (l : Lexeme) : Parser Tree := do
  accept l
  let raised ← expressionOrList? rules
  match ← optional? Follow.line.operator (Token.isWord .from_) with
  | none => node .raiseStatement l.start raised
  | some _ => node .raiseStatement l.start (raised ++ [← rules (.expression Follow.line)])

/-- A statement that names variables of other scopes. -/
def scopeStatement (kind : Kind) (l : Lexeme) : Parser Tree := do
  accept l
  let (items, trailing) ← separated (name {}) Follow.line.operator {} Token.isName
  if trailing then reject else node kind l.start items

/-- A statement that is read as an expression and has to end there. -/
def wholeStatement (rules : Rules) : Parser Tree := do
  let t ← expressionStatement rules
  let next ← peek Follow.line.operator
  if next.token.endsStatement then pure t else reject

/-- A statement that begins with a name.  The line is read as an expression if it can be, and a name
that is nothing like the operand of a statement behind it begins none. -/
def nameStatement (rules : Rules) (l : Lexeme) : Parser Tree :=
  let next := l.behind Follow.line.optionalOperand
  if l.token.isNamed "print" && next.isOperator .shiftRight then printStatement rules l
  else if l.token.isNamed "print" && next.startsExpression then
    firstOf (wholeStatement rules) (printStatement rules l)
  else if l.token.isNamed "exec" && next.startsExpression then
    firstOf (wholeStatement rules) (execStatement rules l)
  else if l.token.isNamed "type" && (next.startsExpression || next.isOperator .power) then
    firstOf (wholeStatement rules) (typeAliasStatement rules l)
  else wholeStatement rules

/-- A simple statement. -/
def simpleStatement (rules : Rules) : Parser Tree := do
  let l ← peek statementStart
  match l.token with
  | .word .import_ => importStatement l
  | .word .from_ => importFromStatement l
  | .word .assert_ =>
      accept l
      let (items, trailing) ← expressions rules Follow.line
      if trailing then reject else node .assertStatement l.start items
  | .word .return_ => wordStatement rules .returnStatement l
  | .word .del_ =>
      accept l
      node .deleteStatement l.start [← expressionOrList rules Follow.line]
  | .word .raise_ => raiseStatement rules l
  | .word .pass_ =>
      accept l
      pure (leaf .passStatement l)
  | .word .break_ =>
      accept l
      pure (leaf .breakStatement l)
  | .word .continue_ =>
      accept l
      pure (leaf .continueStatement l)
  | .word .global_ => scopeStatement .globalStatement l
  | .word .nonlocal_ => scopeStatement .nonlocalStatement l
  | .name _ => nameStatement rules l
  | _ => expressionStatement rules

/-- The simple statements of one line, with the end of the line. -/
def simpleLine (rules : Rules) : Parser (List Tree) := do
  let first ← simpleStatement rules
  let (all, ended) ← loop ([first], false) fun (trees, ended) => do
    if ended then return none
    let l ← peek Follow.line.operator
    match l.token with
    | .layout .newline =>
        accept l
        return some (trees, true)
    | .semicolon =>
        accept l
        let next ← peek Follow.line.optionalOperand
        if next.token.isNewline then return some (trees, false)
        else return some ((← simpleStatement rules) :: trees, false)
    | _ => reject
  if ended then return all.reverse else reject

/-! ## Compound statements -/

/-- A colon and the block behind it. -/
def colonSuite (rules : Rules) : Parser Tree := do
  let _ ← expect {} Token.isColon
  rules .suite

/-- A clause of one word and a block. -/
def blockClause (rules : Rules) (kind : Kind) (l : Lexeme) : Parser Tree := do
  accept l
  let body ← colonSuite rules
  node kind l.start [body.withRole .body]

/-- The clauses of a kind behind a block, if the next token begins one. -/
def clause? (rules : Rules) (w : Word) (kind : Kind) : Parser (List Tree) := do
  let l ← peek statementStart
  if l.token.isWord w then return [← blockClause rules kind l] else return []

/-- A clause with a condition and a block. -/
def conditionClause (rules : Rules) (l : Lexeme) : Parser (List Tree) := do
  accept l
  let condition ← rules (.expression Follow.within)
  let body ← colonSuite rules
  return [condition, body.withRole .consequence]

def ifStatement (rules : Rules) (l : Lexeme) : Parser Tree := do
  let parts ← conditionClause rules l
  let elifs ← loop ([] : List Tree) fun trees => do
    let next ← peek statementStart
    if next.token.isWord .elif_ then
      let parts ← conditionClause rules next
      return some ((← node .elifClause next.start parts) :: trees)
    else return none
  let other ← clause? rules .else_ .elseClause
  node .ifStatement l.start (parts ++ elifs.reverse ++ other)

def whileStatement (rules : Rules) (l : Lexeme) : Parser Tree := do
  let parts ← conditionClause rules l
  node .whileStatement l.start (parts ++ (← clause? rules .else_ .elseClause))

/-- A loop over the items of an expression, given where it starts and its word `for`. -/
def forStatement (rules : Rules) (start : Nat) (l : Lexeme) : Parser Tree := do
  accept l
  let left ← loopTarget rules
  let _ ← expect {} (Token.isWord .in_)
  let right ← expressionOrList rules Follow.within
  let body ← colonSuite rules
  let other ← clause? rules .else_ .elseClause
  node .forStatement start
    ([left.withRole .left, right.withRole .right, body.withRole .body] ++ other)

/-- The exceptions that a clause handles.  A comma between two of them is kept, for it is how the
bound name was once written. -/
def exceptions (rules : Rules) : Parser (List Tree) := do
  let next ← peek operand
  if next.token.startsExpression then
    let first ← rules (.expression Follow.within)
    let all ← loop [first] fun trees => do
      match ← optional? {} Token.isComma with
      | none => return none
      | some comma =>
          return some ((← rules (.expression Follow.within)) :: leaf .comma comma :: trees)
    return all.reverse
  else return []

/-- A clause that handles exceptions. -/
def exceptClause (rules : Rules) (l : Lexeme) : Parser Tree := do
  accept l
  let _ ← optional? operand (Token.isOperator .times)
  let parts ← exceptions rules
  let body ← colonSuite rules
  node .exceptClause l.start (parts ++ [body.withRole .body])

def tryStatement (rules : Rules) (l : Lexeme) : Parser Tree := do
  accept l
  let body ← colonSuite rules
  let handlers ← loop ([] : List Tree) fun trees => do
    let next ← peek statementStart
    if next.token.isWord .except_ then return some ((← exceptClause rules next) :: trees)
    else return none
  let other ← clause? rules .else_ .elseClause
  let final ← clause? rules .finally_ .finallyClause
  node .tryStatement l.start (body.withRole .body :: handlers.reverse ++ other ++ final)

/-- Something that a `with` statement opens. -/
def withItem (rules : Rules) (f : Follow) : Parser Tree := do
  let l ← peek f.optionalOperand
  node .withItem l.start [← rules (.expression f)]

/-- What a `with` statement opens, separated by commas. -/
def withItems (rules : Rules) (f : Follow) : Parser (List Tree) := do
  return (← separated (withItem rules f) f.operator f.optionalOperand Token.startsExpression).1

/-- What a `with` statement opens, in brackets of the statement. -/
def bracketedWithClause (rules : Rules) (start : Nat) : Parser Tree := do
  let _ ← expect operand Token.isOpenParen
  let items ← withItems rules Follow.inside
  let _ ← expect Follow.inside.operator Token.isCloseParen
  let clause ← node .withClause start items
  let next ← peek {}
  if next.token.isColon then pure clause else reject

/-- What a `with` statement opens.  Brackets around it are those of the statement if they can be. -/
def withClause (rules : Rules) : Parser Tree := do
  let l ← peek operand
  firstOf (bracketedWithClause rules l.start) do
    node .withClause l.start (← withItems rules Follow.within)

def withStatement (rules : Rules) (start : Nat) (l : Lexeme) : Parser Tree := do
  accept l
  let items ← withClause rules
  let body ← colonSuite rules
  node .withStatement start [items, body.withRole .body]

/-- The type of what a function returns, if it is written. -/
def resultType? (rules : Rules) : Parser (List Tree) := do
  match ← optional? {} fun | .arrow => true | _ => false with
  | none => return []
  | some _ => return [← rules (.type Follow.within)]

def functionDefinition (rules : Rules) (start : Nat) (l : Lexeme) : Parser Tree := do
  accept l
  let id ← name {}
  let typeParams ← typeParameters? rules
  let params ← parameters rules
  let result ← resultType? rules
  let body ← colonSuite rules
  node .functionDefinition start
    (id.withRole .name :: typeParams ++ params.withRole .parameters :: result ++
      [body.withRole .body])

/-- The bases of a class, if they are written. -/
def bases? (rules : Rules) : Parser (List Tree) := do
  let next ← peek {}
  if next.token.isOpenParen then
    let args ← arguments rules next
    if args.kind = .argumentList then return [args] else reject
  else return []

def classDefinition (rules : Rules) (l : Lexeme) : Parser Tree := do
  accept l
  let id ← name {}
  let typeParams ← typeParameters? rules
  let bases ← bases? rules
  let body ← colonSuite rules
  node .classDefinition l.start
    (id.withRole .name :: typeParams ++ bases ++ [body.withRole .body])

/-- A function or a class, with or without the word that makes a function asynchronous. -/
def definition (rules : Rules) (l : Lexeme) : Parser Tree := do
  match l.token with
  | .word .def_ => functionDefinition rules l.start l
  | .word .class_ => classDefinition rules l
  | .word .async_ =>
      accept l
      let next ← peek {}
      if next.token.isWord .def_ then functionDefinition rules l.start next else reject
  | _ => reject

/-- Whether a token begins a decorator. -/
def Token.isAt (t : Token) : Bool :=
  t.isOperator .matrix

def decorator (rules : Rules) (l : Lexeme) : Parser Tree := do
  accept l
  let t ← rules (.expression Follow.line)
  let d ← node .decorator l.start [t]
  let _ ← expect Follow.line.operator Token.isNewline
  pure d

def decoratedDefinition (rules : Rules) (l : Lexeme) : Parser Tree := do
  let first ← decorator rules l
  let all ← loop [first] fun trees => do
    let next ← peek {}
    if next.token.isAt then return some ((← decorator rules next) :: trees)
    else return none
  let next ← peek {}
  node .decoratedDefinition l.start (all.reverse ++ [← definition rules next])

/-- The condition of a case, if it has one. -/
def guard? (rules : Rules) : Parser (List Tree) := do
  match ← optional? {} (Token.isWord .if_) with
  | none => return []
  | some word => return [← node .ifClause word.start [← rules (.expression Follow.within)]]

def caseClause (rules : Rules) (l : Lexeme) : Parser Tree := do
  accept l
  let (patterns, _) ← separated (rules (.casePattern Follow.within)) {} operand
    Token.startsPattern
  let guard ← guard? rules
  let body ← colonSuite rules
  node .caseClause l.start (patterns ++ guard ++ [body.withRole .consequence])

def Token.isDedent : Token → Bool
  | .layout .dedent => true
  | _ => false

/-- A further case of a match statement, or the end of its block, given the cases before it in
reverse and whether the block has ended. -/
def furtherCase? (rules : Rules) : List Tree × Bool → Parser (Option (List Tree × Bool))
  | (trees, ended) => do
    if ended then return none
    let next ← peek { dedent := true }
    if next.token.isNamed "case" then return some ((← caseClause rules next) :: trees, false)
    else if next.token.isDedent then
      accept next
      return some (trees, true)
    else reject

/-- The cases of a match statement. -/
def caseBlock (rules : Rules) : Parser Tree := do
  let l ← peek { indent := true, newline := true }
  match l.token with
  | .layout .newline =>
      accept l
      node .block l.start []
  | .layout (.indent _) =>
      accept l
      let (cases, ended) ← loop ([], false) (furtherCase? rules)
      if ended then node .block l.start cases.reverse else reject
  | _ => reject

def matchStatement (rules : Rules) (l : Lexeme) : Parser Tree := do
  accept l
  let (subjects, _) ← expressions rules Follow.within
  let _ ← expect {} Token.isColon
  let body ← caseBlock rules
  node .matchStatement l.start (subjects ++ [body.withRole .body])

/-! ## Blocks -/

/-- A statement that begins with the word `async`. -/
def asyncStatement (rules : Rules) (l : Lexeme) : Parser (List Tree) := do
  accept l
  let next ← peek Follow.line.operator
  match next.token with
  | .word .def_ => return [← functionDefinition rules l.start next]
  | .word .for_ => return [← forStatement rules l.start next]
  | .word .with_ => return [← withStatement rules l.start next]
  | _ =>
      returnTo l.here
      simpleLine rules

/-- A compound statement, or the simple statements of a line. -/
def statement (rules : Rules) (l : Lexeme) : Parser (List Tree) := do
  match l.token with
  | .word .if_ => return [← ifStatement rules l]
  | .word .while_ => return [← whileStatement rules l]
  | .word .for_ => return [← forStatement rules l.start l]
  | .word .try_ => return [← tryStatement rules l]
  | .word .with_ => return [← withStatement rules l.start l]
  | .word .def_ | .word .class_ => return [← definition rules l]
  | .word .async_ => asyncStatement rules l
  | .operator .matrix => return [← decoratedDefinition rules l]
  | .name _ =>
      if l.token.isNamed "match" && (l.behind Follow.line.optionalOperand).startsExpression then
        firstOf (simpleLine rules) do return [← matchStatement rules l]
      else simpleLine rules
  | _ => simpleLine rules

/-- Whether a block or the text ends with a token. -/
def Token.endsBlock : Token → Bool
  | .layout _ | .endOfText => true
  | _ => false

/-- A further statement, if the block has not ended, given the ones before it in reverse. -/
def furtherStatement? (rules : Rules) (trees : List Tree) : Parser (Option (List Tree)) := do
  let l ← peek statementStart
  if l.token.endsBlock then return none
  else return some ((← statement rules l).reverse ++ trees)

/-- Statements up to the end of a block or of the text. -/
def statements (rules : Rules) : Parser (List Tree) := do
  let all ← loop [] (furtherStatement? rules)
  return all.reverse

/-- The block of a compound statement: an indented one, the rest of the line, or nothing. -/
def suite (rules : Rules) : Parser Tree := do
  let l ← peek { indent := true, newline := true, quote := true }
  match l.token with
  | .layout .newline =>
      accept l
      node .block l.start []
  | .layout (.indent _) =>
      accept l
      let items ← statements rules
      let stop ← expect statementStart Token.isDedent
      let start := (items.head?.map fun t => t.span.start).getD stop.start
      node .block start items
  | _ => node .block l.start (← simpleLine rules)

end Longhand.Syntax
