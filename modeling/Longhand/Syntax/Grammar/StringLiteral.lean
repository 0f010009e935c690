import Longhand.Syntax.Grammar.Basic

/-!
# String literals

A string is read piece by piece: runs of plain characters, escapes, the expressions of a format
string, and the closing marks.  A run of plain characters does not go over the end of a line unless
the string has three marks, but a line end right behind an escape or an expression is let through.
-/

namespace Longhand.Syntax

/-- What the characters before the next one of a string have left to be done. -/
inductive Skim where
  | plain
  /-- After a backslash of a raw string. -/
  | rawEscape
  /-- After a mark that a backslash of a raw string hid. -/
  | rawLine
  /-- After a carriage return that a backslash of a raw string hid. -/
  | rawFeed
  /-- After a backslash of a byte string. -/
  | bytesEscape
  /-- Before a character that is passed whatever it is. -/
  | anything
  deriving DecidableEq, Repr

/-- A piece of a string, with its number of characters. -/
inductive Piece where
  | content (size : Nat)
  | closing (size : Nat)
  deriving DecidableEq, Repr

/-- The piece that is read at a mark like that which opened the string, given the text behind the
mark and what was read before it. -/
def markPiece (s : StringOpening) (rest : List Char) (some? : Bool) (n : Nat) : Option Piece :=
  if s.tripled then
    match rest with
    | d :: e :: _ =>
        if d = s.mark && e = s.mark then
          if some? then some (.content n) else some (.closing (n + 3))
        else if d = s.mark then some (.content (n + 2))
        else some (.content (n + 1))
    | [d] => some (.content (if d = s.mark then n + 2 else n + 1))
    | [] => some (.content (n + 1))
  else if some? then some (.content n)
  else some (.closing (n + 1))

/-- The piece of plain characters or the closing at the front of a text.  There is none before an
escape, before an expression and where a line ends too early. -/
def piece? (s : StringOpening) : List Char → Skim → Bool → Nat → Option Piece
  | [], _, _, _ => none
  | c :: rest, skim, some?, n =>
      let run : Option Piece := if some? then some (.content n) else none
      if skim = .rawEscape && (c = s.mark || c = '\\') then piece? s rest .rawLine some? (n + 1)
      else if (skim = .rawEscape || skim = .rawLine) && c = '\r' then
        piece? s rest .rawFeed some? (n + 1)
      else if (skim = .rawEscape || skim = .rawLine || skim = .rawFeed) && c = '\n' then
        piece? s rest .plain some? (n + 1)
      else if skim = .anything then piece? s rest .plain true (n + 1)
      else if skim = .bytesEscape then
        if c = 'N' || c = 'u' || c = 'U' then piece? s rest .anything some? (n + 1)
        else if some? then some (.content (n - 1)) else none
      else if c = '\x00' then none
      else if s.format && (c = '\x7b' || c = '\x7d') then run
      else if c = '\\' then
        if s.raw then piece? s rest .rawEscape some? (n + 1)
        else if s.bytes then piece? s rest .bytesEscape some? (n + 1)
        else run
      else if c = s.mark then markPiece s rest some? n
      else if c = '\n' && some? && !s.tripled then none
      else piece? s rest .plain true (n + 1)

def isHexDigit (c : Char) : Bool :=
  c.isDigit || ('a' ≤ c && c ≤ 'f') || ('A' ≤ c && c ≤ 'F')

/-- Whether a text begins with some number of hexadecimal digits. -/
def startsHex (n : Nat) (cs : List Char) : Bool :=
  n ≤ ((cs.take n).takeWhile isHexDigit).length

/-- The number of characters of the escape that begins with the backslash before a text.  A
backslash that begins no escape stands for itself. -/
def escapeSize : List Char → Nat
  | 'u' :: rest => if startsHex 4 rest then 6 else 1
  | 'U' :: rest => if startsHex 8 rest then 10 else 1
  | 'x' :: rest => if startsHex 2 rest then 4 else 1
  | 'N' :: '\x7b' :: rest =>
      let size := (rest.takeWhile (· != '\x7d')).length
      if size ≠ 0 && size < rest.length then size + 4 else 1
  | '\r' :: '\n' :: _ => 3
  | c :: rest =>
      if c.isDigit then 2 + ((rest.take 2).takeWhile Char.isDigit).length
      else if "\n'\"abfrntv\\".toList.contains c then 2
      else 1
  | [] => 1

/-- Move on by some characters, which belong to a token. -/
def advance (size : Nat) : Parser Unit := fun c =>
  let next := c.skip (c.rest.take size)
  .ok ((), { next with last := next.offset, furthest := max c.furthest next.offset })

/-- The rest of the text. -/
def remaining : Parser (List Char) := fun c => .ok (c.rest, c)

/-- Move over blanks. -/
def skipGap : Parser Unit := fun c => .ok ((), c.skip (c.rest.takeWhile isGap))

/-- Set whether the string that was last opened or closed is a format string. -/
def setFormat (b : Bool) : Parser Unit := fun c => .ok ((), { c with inFormat := b })

/-- A character that is plain text behind the colon of an expression in braces. -/
def isFormatText (c : Char) : Bool :=
  c != '\x7b' && c != '\x7d' && c != '\n'

/-- The part of an expression in braces behind its colon: text without braces, and further
expressions in braces. -/
def formatText (rules : Rules) : Parser (List Tree) := do
  let trees ← loop ([] : List Tree) fun trees => do
    match ← remaining with
    | [] => reject
    | c :: rest =>
        if c = '\x7b' then return some ((← rules .braced) :: trees)
        else if c = '\x7d' then return none
        else if c = '\n' then
          skipGap
          return some trees
        else
          advance ((rest.takeWhile isFormatText).length + 1)
          return some trees
  return trees.reverse

/-- Whether a text begins with a conversion. -/
def startsConversion : List Char → Bool
  | '!' :: c :: _ => 'a' ≤ c && c ≤ 'z'
  | _ => false

/-- The conversion behind an expression in braces, if there is one. -/
def conversion? : Parser Unit := do
  let l ← peek Follow.inside.operator
  if startsConversion l.here.rest then
    returnTo l.here
    advance 2
  else pure ()

/-- What an expression in braces consists of. -/
def bracedItems (rules : Rules) : Parser (List Tree) := do
  let l ← peek operand
  if l.token.isWord .yield_ then return [← rules (.yield Follow.inside)]
  else return (← expressions rules Follow.inside).1

/-- How an expression in braces is to be formatted, if that is told. -/
def formatSpecifier? (rules : Rules) : Parser (List Tree) := do
  let l ← peek Follow.inside.operator
  if l.here.rest.head? = some ':' then
    returnTo l.here
    advance 1
    let trees ← formatText rules
    return [← node .formatSpecifier l.start trees]
  else return []

/-- An expression in braces. -/
def braced (rules : Rules) : Parser Tree := do
  let start ← get
  advance 1
  let trees ← bracedItems rules
  let _ ← optional? Follow.inside.operator Token.isEquals
  conversion?
  let format ← formatSpecifier? rules
  let _ ← expect Follow.inside.operator fun | .closeBrace => true | _ => false
  node .interpolation start.offset (trees ++ format)

/-- Whether a text begins with a doubled brace, which stands for the brace itself. -/
def startsDoubledBrace : List Char → Bool
  | '\x7b' :: '\x7b' :: _ => true
  | '\x7d' :: '\x7d' :: _ => true
  | _ => false

/-- What stands in a string where no plain characters do: an escape, a comment or an expression in
braces. -/
def embedded (rules : Rules) (trees : List Tree) : Parser (List Tree) := do
  let rest ← remaining
  if rest.head? = some '\\' then
    advance (escapeSize rest.tail)
    return trees
  else
    skipGap
    let rest ← remaining
    if rest.head? = some '#' then
      modify Cursor.skipComment
      return trees
    else if rest.head? = some '\x7b' then return (← rules .braced) :: trees
    else reject

/-- The next part of a string, given the trees in it so far.  The result says whether it was the
end. -/
def stringPart (rules : Rules) (s : StringOpening) (trees : List Tree) :
    Parser (List Tree × Bool) := do
  let rest ← remaining
  if s.format && startsDoubledBrace rest then
    advance 2
    return (trees, false)
  else
    match piece? s rest .plain false 0 with
    | some (.content size) =>
        advance size
        return (trees, false)
    | some (.closing size) =>
        advance size
        setFormat false
        return (trees, true)
    | none => return (← embedded rules trees, false)

/-- One string, given its opening. -/
def stringLiteral (rules : Rules) (l : Lexeme) (s : StringOpening) : Parser Tree := do
  accept l
  setFormat s.format
  let (trees, closed) ← loop (([leaf .stringStart l] : List Tree), false) fun (trees, closed) => do
    if closed then return none
    else return some (← stringPart rules s trees)
  if closed then node .string l.start trees.reverse else reject

/-- One or more strings in a row. -/
def strings (rules : Rules) (f : Follow) (l : Lexeme) (s : StringOpening) : Parser Tree := do
  let first ← stringLiteral rules l s
  let all ← loop [first] fun trees => do
    let l ← peek f.optionalOperand
    match l.token with
    | .quote s => return some ((← stringLiteral rules l s) :: trees)
    | _ => return none
  match all with
  | [one] => pure one
  | all => node .concatenatedString l.start all.reverse

end Longhand.Syntax
