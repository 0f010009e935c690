import Longhand.Text.CharClass
import Longhand.Text.Span

/-!
# Lines and indentation

Line ends and changes of indentation are tokens without width.  Whether one is read at a place hangs
on what the grammar allows there: a line end that no rule asks for is a blank like any other, while
a line that is indented less than its block ends the block even where no rule allows it, unless a
closing bracket could stand there.  Line ends may also be supplied where the text has none.
-/

namespace Longhand.Syntax

/-- The tokens that the grammar allows at a place, as far as reading the next token hangs on it. -/
structure Expect where
  newline : Bool := false
  indent : Bool := false
  dedent : Bool := false
  /-- A closing bracket. -/
  closer : Bool := false
  /-- The beginning of a string. -/
  quote : Bool := false
  deriving Repr, Inhabited

/-- A bound on the number of tokens of a text.  Every character may be one, but those that continue a
name belong to the token of its first. -/
def tokenBound (inName : Bool) : List Char → Nat
  | [] => 0
  | c :: rest =>
      if inName && Text.isIdentifierPart c then tokenBound true rest
      else tokenBound (Text.isIdentifierStart c) rest + 1

/-- A place in a text, with what has been read so far as it bears on what follows. -/
structure Cursor where
  /-- A bound on the number of tokens of the whole text, and so on how often anything is read. -/
  size : Nat
  /-- The rest of the text. -/
  rest : List Char
  /-- The byte offset of the place. -/
  offset : Nat
  /-- The byte offset of the end of the last token. -/
  last : Nat
  /-- The widths of the open indentations, innermost first. -/
  indents : List Nat
  /-- Whether the last string that was opened or closed was opened as a format string. -/
  inFormat : Bool
  /-- The byte offsets of the ends of tokens that a line end is supplied behind. -/
  supplied : List Nat
  /-- The byte offset of the end of the furthest token that was read on any way so far. -/
  furthest : Nat
  deriving Repr, Inhabited

/-- The beginning of a text, with line ends supplied behind some of its tokens. -/
def Cursor.ofText (source : List Char) (supplied : List Nat) : Cursor :=
  { size := tokenBound false source, rest := source, offset := 0, last := 0, indents := [],
    inFormat := false, supplied, furthest := 0 }

/-- The width of the indentation that a block has to reach. -/
def Cursor.indentation (c : Cursor) : Nat :=
  c.indents.headD 0

/-- The place after some characters that hold no token. -/
def Cursor.skip (c : Cursor) (chars : List Char) : Cursor :=
  { c with
    rest := c.rest.drop chars.length
    offset := c.offset + Text.byteSize chars }

/-- What is known of the blanks before a token. -/
structure Blanks where
  /-- Whether a line end was passed. -/
  ended : Bool := false
  /-- The indentation of the line that the token stands on. -/
  width : Nat := 0
  /-- The indentation of the first comment line that was passed. -/
  comment : Option Nat := none
  deriving Repr, Inhabited

/-- Read over blanks, line ends, joined lines and whole lines of comment, and give the rest of the
text.  A comment behind other text and a backslash that joins no lines stop the reading for good.
Tabs count eight columns; a carriage return or a form feed begins the line anew.  Comments are
passed only when `comments` is set, and `inComment` says that one is being passed. -/
def readBlanks (comments : Bool) : List Char → Bool → Blanks → Option (Blanks × List Char)
  | [], _, b => some ({ b with ended := true, width := 0 }, [])
  | c :: rest, true, b =>
      if c = '\n' || c = '\x00' then readBlanks comments rest false { b with width := 0 }
      else readBlanks comments rest true b
  | '\n' :: rest, false, b => readBlanks comments rest false { b with ended := true, width := 0 }
  | ' ' :: rest, false, b => readBlanks comments rest false { b with width := b.width + 1 }
  | '\t' :: rest, false, b => readBlanks comments rest false { b with width := b.width + 8 }
  | '\r' :: rest, false, b => readBlanks comments rest false { b with width := 0 }
  | '\x0c' :: rest, false, b => readBlanks comments rest false { b with width := 0 }
  | '\\' :: '\r' :: '\n' :: rest, false, b => readBlanks comments rest false b
  | '\\' :: '\n' :: rest, false, b => readBlanks comments rest false b
  | ['\\', '\r'], false, b => some ({ b with ended := true, width := 0 }, [])
  | ['\\'], false, b => some ({ b with ended := true, width := 0 }, [])
  | '\\' :: _, false, _ => none
  | '#' :: rest, false, b =>
      if !comments then some (b, '#' :: rest)
      else if !b.ended then none
      else readBlanks comments rest true { b with comment := b.comment.or (some b.width) }
  | c :: rest, false, b => some (b, c :: rest)

/-- A token of the layout. -/
inductive LayoutToken where
  | newline
  | indent (width : Nat)
  | dedent
  deriving Repr, DecidableEq

/-- Whether a text begins with a quotation mark. -/
def startsQuote : List Char → Bool
  | '"' :: _ => true
  | '\'' :: _ => true
  | '\x60' :: _ => true
  | _ => false

/-- Whether a supplied line end is read at a place.  It is none where a block may begin. -/
def Cursor.endsHere (c : Cursor) (e : Expect) : Bool :=
  e.newline && !e.indent && c.supplied.contains c.last

/-- The token of the layout at a place, if there is one.  A block does not end before the comment
lines that are indented like it, and not inside a format string. -/
def Cursor.layout? (c : Cursor) (e : Expect) : Option LayoutToken :=
  if c.endsHere e then some .newline
  else
  match readBlanks (e.newline || e.indent || e.dedent) c.rest false {} with
  | none => none
  | some (b, rest) =>
      if !b.ended then none
      else if e.indent && c.indentation < b.width then some (.indent b.width)
      else if (e.dedent || (!e.newline && !(e.quote && startsQuote rest) && !e.closer))
          && b.width < c.indentation && !c.inFormat
          && b.comment.all (· < c.indentation) then some .dedent
      else if e.newline then some .newline
      else none

/-- The blanks that may stand between two tokens, line ends included. -/
def isGap (c : Char) : Bool :=
  c == ' ' || ('\t' ≤ c && c ≤ '\r') || c == '\u200b' || c == '\u2060' || c == '\ufeff'

/-- The place after the comment that begins here. -/
def Cursor.skipComment (c : Cursor) : Cursor :=
  c.skip (c.rest.takeWhile fun x => x != '\n' && x != '\x00')

/-- Move over blanks, comments and joined lines up to a token.  The result says whether that is a
token of the layout. -/
def Cursor.settle (e : Expect) : Nat → Cursor → Option LayoutToken × Cursor
  | 0, c => (none, c)
  | fuel + 1, c =>
      match c.layout? e with
      | some t => (some t, c)
      | none =>
          let c := c.skip (c.rest.takeWhile isGap)
          match c.rest with
          | '#' :: _ => settle e fuel c.skipComment
          | '\\' :: '\n' :: _ => settle e fuel (c.skip ['\\', '\n'])
          | '\\' :: '\r' :: '\n' :: _ => settle e fuel (c.skip ['\\', '\r', '\n'])
          | ['\\'] => settle e fuel (c.skip ['\\'])
          | _ => (none, c)

end Longhand.Syntax
