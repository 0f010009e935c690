import Longhand.Syntax.Token

/-!
# Parsers

A parser reads from a cursor.  When it fails, all that is told is how far it came.  The rules of the
grammar refer to each other by name, and a rule is a plain function of a parser for the names in it;
tying the knot is left to one recursion over a bound on the depth.
-/

namespace Longhand.Syntax

/-- A parser: it may fail, and else moves the cursor and yields a result.  A failure is the end of
the furthest token that was read on any way. -/
abbrev Parser := StateT Cursor (Except Nat)

/-- What may follow the expression that is being read. -/
structure Follow where
  /-- The end of the line. -/
  newline : Bool := false
  /-- A closing bracket. -/
  closer : Bool := false
  deriving Repr, DecidableEq, Inhabited

namespace Follow

/-- On a line of its own. -/
def line : Follow := { newline := true }

/-- Inside brackets. -/
def inside : Follow := { closer := true }

/-- Before a word or a mark that has to come. -/
def within : Follow := {}

/-- What is allowed behind a complete operand. -/
def operator (f : Follow) : Expect := { newline := f.newline, closer := f.closer }

/-- What is allowed where an operand may be left out. -/
def optionalOperand (f : Follow) : Expect :=
  { newline := f.newline, closer := f.closer, quote := true }

end Follow

/-- What is allowed where an operand has to come. -/
def operand : Expect := { quote := true }

/-- The rules that refer to themselves through others. -/
inductive Rule where
  /-- Any expression. -/
  | expression (f : Follow)
  /-- An expression whose operators bind at least as tightly as a level. -/
  | level (f : Follow) (n : Nat)
  /-- A `yield`. -/
  | yield (f : Follow)
  /-- An expression in braces, in a format string. -/
  | braced
  /-- A type annotation. -/
  | type (f : Follow)
  /-- A pattern of a `case`. -/
  | casePattern (f : Follow)
  /-- A pattern of a `case` without a name bound to it. -/
  | simplePattern (f : Follow)
  /-- What is assigned, further assignments included. -/
  | assigned
  /-- The part of a compound statement behind its colon. -/
  | suite
  deriving Repr, DecidableEq

/-- A parser for each of the rules. -/
abbrev Rules := Rule → Parser Tree

/-- Fail. -/
def reject {α : Type} : Parser α := fun c => .error c.furthest

/-- The first of two ways that does not fail. -/
def firstOf {α : Type} (p q : Parser α) : Parser α := fun c =>
  match p c with
  | .ok r => .ok r
  | .error furthest => q { c with furthest := max c.furthest furthest }

/-- Go back to a place. -/
def returnTo (place : Cursor) : Parser Unit := fun c =>
  .ok ((), { place with furthest := c.furthest })

/-- The next token.  The cursor moves up to it, so that it stays the next token whatever is expected
later. -/
def peek (e : Expect) : Parser Lexeme := fun c =>
  let l := c.read e
  .ok (l, l.here)

/-- Move on behind a token. -/
def accept (l : Lexeme) : Parser Unit := fun c =>
  .ok ((), { l.next with furthest := max c.furthest l.next.last })

/-- The end of the last token. -/
def lastEnd : Parser Nat := fun c => .ok (c.last, c)

/-- Read a token that has to be one of some kind. -/
def expect (e : Expect) (isWanted : Token → Bool) : Parser Lexeme := do
  let l ← peek e
  if isWanted l.token then
    accept l
    pure l
  else reject

/-- Read a token if it is one of some kind. -/
def optional? (e : Expect) (isWanted : Token → Bool) : Parser (Option Lexeme) := do
  let l ← peek e
  if isWanted l.token then
    accept l
    pure (some l)
  else pure none

/-- Go on from a value as long as a step yields another one, at most some number of times. -/
def iterate {α : Type} (step : α → Parser (Option α)) : Nat → α → Parser α
  | 0, a => pure a
  | n + 1, a => do
      match ← step a with
      | none => pure a
      | some b => iterate step n b

/-- Go on from a value as long as a step yields another one.  A step that yields one reads a token,
so the bound on the tokens of the text bounds the number of steps. -/
def loop {α : Type} (a : α) (step : α → Parser (Option α)) : Parser α := fun c =>
  iterate step (c.size + 1) a c

/-- The node of some children that begins at an offset and ends with the last token. -/
def node (kind : Kind) (start : Nat) (children : List Tree) : Parser Tree := do
  return .node kind none ⟨start, ← lastEnd⟩ "" children

/-- The leaf of a token. -/
def leaf (kind : Kind) (l : Lexeme) : Tree :=
  .node kind none ⟨l.start, l.next.offset⟩ (String.ofList l.text) []

/-- The text from a cursor to an offset. -/
def Cursor.textUpTo (c : Cursor) (stop : Nat) : List Char :=
  match Text.splitAt? c.rest (stop - c.offset) with
  | none => []
  | some (before, _) => before

def Token.isComma : Token → Bool
  | .comma => true
  | _ => false

def Token.isColon : Token → Bool
  | .colon => true
  | _ => false

def Token.isEquals : Token → Bool
  | .equals => true
  | _ => false

def Token.isNewline : Token → Bool
  | .layout .newline => true
  | _ => false

def Token.isWord (w : Word) : Token → Bool
  | .word v => v = w
  | _ => false

def Token.isOperator (op : Operator) : Token → Bool
  | .operator o => o = op
  | _ => false

def Token.isName : Token → Bool
  | .name _ => true
  | _ => false

/-- Whether a token is a given name, which is a keyword only in some places. -/
def Token.isNamed (text : String) : Token → Bool
  | .name t => t = text.toList
  | _ => false

def Token.isOpenParen : Token → Bool
  | .openParen => true
  | _ => false

def Token.isCloseParen : Token → Bool
  | .closeParen => true
  | _ => false

/-- Whether an expression can begin with a token. -/
def Token.startsExpression : Token → Bool
  | .word w =>
      match w with
      | .async_ | .await_ | .true_ | .false_ | .none_ | .lambda_ | .not_ => true
      | _ => false
  | .name _ | .integer | .float | .quote _ | .tilde | .openParen | .openSquare | .openBrace
  | .ellipsis => true
  | .operator .plus | .operator .minus | .operator .times => true
  | _ => false

/-- One more of the items separated by commas, given those before it in reverse and whether the last
thing read was a comma.  After a comma there may be no further item, which `more` tells from the
token there. -/
def furtherItem? (item : Parser Tree) (comma next : Expect) (more : Token → Bool) :
    List Tree × Bool → Parser (Option (List Tree × Bool))
  | (items, trailing) => do
    if trailing then return none
    match ← optional? comma Token.isComma with
    | none => return none
    | some _ =>
        let l ← peek next
        if more l.token then return some ((← item) :: items, false)
        else return some (items, true)

/-- Items separated by commas, the first of which has to come.  The result says whether the last
thing read was a comma. -/
def separated (item : Parser Tree) (comma next : Expect) (more : Token → Bool) :
    Parser (List Tree × Bool) := do
  let first ← item
  let (items, trailing) ← loop ([first], false) (furtherItem? item comma next more)
  return (items.reverse, trailing)

/-- The further items behind a first one, and whether there was a comma behind that. -/
def furtherItems (item : Parser Tree) (f : Follow) (more : Token → Bool) :
    Parser (List Tree × Bool) := do
  match ← optional? f.operator Token.isComma with
  | none => return ([], false)
  | some _ =>
      let l ← peek f.optionalOperand
      if more l.token then return ((← separated item f.operator f.optionalOperand more).1, true)
      else return ([], true)

/-- Expressions separated by commas, with or without a comma at the end. -/
def expressions (rules : Rules) (f : Follow) : Parser (List Tree × Bool) :=
  separated (rules (.expression f)) f.operator f.optionalOperand Token.startsExpression

/-- A name. -/
def name (e : Expect) : Parser Tree := do
  return leaf .identifier (← expect e Token.isName)

/-- Names joined by dots.  The text of the node is what is written, blanks included. -/
def dottedName (e : Expect) : Parser Tree := do
  let l ← expect {} Token.isName
  let ids ← loop [leaf .identifier l] fun ids => do
    match ← optional? e fun | .dot => true | _ => false with
    | none => return none
    | some _ => return some ((← name {}) :: ids)
  match ids with
  | [] => reject
  | z :: _ =>
      return .node .dottedName none ⟨l.start, z.span.stop⟩
        (String.ofList (l.here.textUpTo z.span.stop)) ids.reverse

end Longhand.Syntax
