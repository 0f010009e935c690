import Longhand.Syntax.Layout
import Longhand.Syntax.Tree
import Longhand.Text.CharClass

/-!
# Tokens

Names, reserved words, numbers, operators and the openings of strings.  A token is the longest that
its first character allows, and nothing need stand between two tokens.
-/

namespace Longhand.Syntax

/-- The reserved words. -/
inductive Word where
  | and_ | as_ | assert_ | async_ | await_ | break_ | class_ | continue_ | def_ | del_ | elif_
  | else_ | except_ | false_ | finally_ | for_ | from_ | global_ | if_ | import_ | in_ | is_
  | lambda_ | none_ | nonlocal_ | not_ | or_ | pass_ | raise_ | return_ | true_ | try_ | while_
  | with_ | yield_
  deriving DecidableEq, Repr

/-- The operators between two operands, comparisons excepted. -/
inductive Operator where
  | bitOr | bitAnd | bitXor | shiftLeft | shiftRight | plus | minus | times | matrix | divide
  | modulo | floorDivide | power
  deriving DecidableEq, Repr

/-- The letters and quotation marks that open a string. -/
structure StringOpening where
  format : Bool := false
  raw : Bool := false
  bytes : Bool := false
  mark : Char
  tripled : Bool := false
  /-- The number of characters of the opening. -/
  size : Nat
  deriving Repr

inductive Token where
  | layout (t : LayoutToken)
  | endOfText
  | word (w : Word)
  | name (text : List Char)
  | integer
  | float
  | quote (s : StringOpening)
  | operator (op : Operator)
  | comparison
  | augmented
  | tilde
  | openParen | closeParen | openSquare | closeSquare | openBrace | closeBrace
  | comma | colon | semicolon | dot | ellipsis | arrow | equals | walrus
  | unknown
  deriving Repr

/-- The spellings of the reserved words. -/
def words : List (List Char × Word) :=
  [("and".toList, .and_), ("as".toList, .as_), ("assert".toList, .assert_),
    ("async".toList, .async_), ("await".toList, .await_), ("break".toList, .break_), ("class".toList, .class_),
    ("continue".toList, .continue_), ("def".toList, .def_), ("del".toList, .del_),
    ("elif".toList, .elif_), ("else".toList, .else_), ("except".toList, .except_),
    ("False".toList, .false_), ("finally".toList, .finally_), ("for".toList, .for_),
    ("from".toList, .from_), ("global".toList, .global_), ("if".toList, .if_),
    ("import".toList, .import_), ("in".toList, .in_), ("is".toList, .is_),
    ("lambda".toList, .lambda_), ("None".toList, .none_), ("nonlocal".toList, .nonlocal_),
    ("not".toList, .not_), ("or".toList, .or_), ("pass".toList, .pass_), ("raise".toList, .raise_),
    ("return".toList, .return_), ("True".toList, .true_), ("try".toList, .try_),
    ("while".toList, .while_), ("with".toList, .with_), ("yield".toList, .yield_)]

/-- The spellings of operators and punctuation, longer ones before those that begin them. -/
def marks : List (List Char × Token) :=
  [("...".toList, .ellipsis), ("<<=".toList, .augmented), (">>=".toList, .augmented),
    ("**=".toList, .augmented), ("//=".toList, .augmented), ("->".toList, .arrow),
    (":=".toList, .walrus), ("==".toList, .comparison), ("!=".toList, .comparison),
    ("<=".toList, .comparison), (">=".toList, .comparison), ("<>".toList, .comparison),
    ("<<".toList, .operator .shiftLeft), (">>".toList, .operator .shiftRight),
    ("**".toList, .operator .power), ("//".toList, .operator .floorDivide),
    ("+=".toList, .augmented), ("-=".toList, .augmented), ("*=".toList, .augmented),
    ("/=".toList, .augmented), ("%=".toList, .augmented), ("@=".toList, .augmented),
    ("&=".toList, .augmented), ("|=".toList, .augmented), ("^=".toList, .augmented),
    (['('], .openParen), ([')'], .closeParen), (['['], .openSquare), ([']'], .closeSquare),
    (['\x7b'], .openBrace), (['\x7d'], .closeBrace), ([','], .comma), ([':'], .colon),
    ([';'], .semicolon), (['.'], .dot), (['='], .equals), (['+'], .operator .plus),
    (['-'], .operator .minus), (['*'], .operator .times), (['/'], .operator .divide),
    (['%'], .operator .modulo), (['@'], .operator .matrix), (['&'], .operator .bitAnd),
    (['|'], .operator .bitOr), (['^'], .operator .bitXor), (['~'], .tilde),
    (['<'], .comparison), (['>'], .comparison)]

/-- The number of characters that the groups of decimal digits at the front of a text take up.  A
group may end in one underscore. -/
def digitsSize (afterDigit : Bool) : List Char → Nat
  | [] => 0
  | c :: rest =>
      if c.isDigit then digitsSize true rest + 1
      else if c = '_' && afterDigit then digitsSize false rest + 1
      else 0

/-- The number of characters of the digits of some base at the front of a text.  Each group may
begin with one underscore, which has to have a digit behind it. -/
def basedSize (isDigit : Char → Bool) : List Char → Nat
  | '_' :: c :: rest => if isDigit c then basedSize isDigit rest + 2 else 0
  | c :: rest => if isDigit c then basedSize isDigit rest + 1 else 0
  | [] => 0

/-- One if a text begins with one of two characters, else zero. -/
def suffixSize (a b : Char) : List Char → Nat
  | c :: _ => if c = a || c = b then 1 else 0
  | [] => 0

/-- The number of characters of the exponent at the front of a text. -/
def exponentSize : List Char → Nat
  | c :: rest =>
      if c = 'e' || c = 'E' then
        let sign := suffixSize '+' '-' rest
        let digits := digitsSize false (rest.drop sign)
        if digits = 0 then 0 else 1 + sign + digits
      else 0
  | [] => 0

/-- The number of characters of an integer of a base that is named at the front of a text. -/
def basedIntegerSize : List Char → Nat
  | '0' :: c :: rest =>
      let digits :=
        if c = 'x' || c = 'X' then
          basedSize (fun d => d.isDigit || ('a' ≤ d && d ≤ 'f') || ('A' ≤ d && d ≤ 'F')) rest
        else if c = 'o' || c = 'O' then basedSize (fun d => '0' ≤ d && d ≤ '7') rest
        else if c = 'b' || c = 'B' then basedSize (fun d => d = '0' || d = '1') rest
        else 0
      if digits = 0 then 0 else 2 + digits + suffixSize 'l' 'L' (rest.drop digits)
  | _ => 0

/-- The number at the front of a text, and how many characters it takes up. -/
def number? (cs : List Char) : Option (Token × Nat) :=
  let whole := digitsSize false cs
  let withImaginary (n : Nat) : Nat := n + suffixSize 'j' 'J' (cs.drop n)
  match cs.drop whole with
  | '.' :: rest =>
      let fraction := digitsSize false rest
      if whole = 0 && fraction = 0 then none
      else
        let size := whole + 1 + fraction
        some (.float, withImaginary (size + exponentSize (rest.drop fraction)))
  | rest =>
      if whole = 0 then none
      else
        let exponent := exponentSize rest
        if exponent ≠ 0 then some (.float, withImaginary (whole + exponent))
        else
          let based := basedIntegerSize cs
          if based ≠ 0 then some (.integer, based)
          else
            let long := suffixSize 'l' 'L' rest
            some (.integer, if long = 0 then withImaginary whole else whole + long)

/-- The opening of a string at the front of a text, given what its letters said so far. -/
def opening? (s : StringOpening) : List Char → Option StringOpening
  | [] => none
  | c :: rest =>
      let next := { s with size := s.size + 1 }
      if c = 'f' || c = 'F' || c = 't' || c = 'T' then opening? { next with format := true } rest
      else if c = 'r' || c = 'R' then opening? { next with raw := true } rest
      else if c = 'b' || c = 'B' then opening? { next with bytes := true } rest
      else if c = 'u' || c = 'U' then opening? next rest
      else if c = '\x60' then some { next with mark := c }
      else if c = '\'' || c = '"' then
        match rest with
        | d :: e :: _ =>
            if d = c && e = c then some { next with mark := c, tripled := true, size := s.size + 3 }
            else some { next with mark := c }
        | _ => some { next with mark := c }
      else none

/-- The token at the front of a text that does not begin with a blank, and how many characters it
takes up.  Strings open only where `quote` allows it. -/
def token (quote : Bool) (cs : List Char) : Token × Nat :=
  match cs with
  | [] => (.endOfText, 0)
  | c :: rest =>
      match if quote then opening? { mark := c, size := 0 } cs else none with
      | some s => (.quote s, s.size)
      | none =>
          if Text.isIdentifierStart c then
            let text := c :: rest.takeWhile Text.isIdentifierPart
            match words.lookup text with
            | some w => (.word w, text.length)
            | none => (.name text, text.length)
          else
            match number? cs with
            | some (t, size) => (t, size)
            | none =>
                match marks.find? fun (spelling, _) => spelling.isPrefixOf cs with
                | some (spelling, t) => (t, spelling.length)
                | none => (.unknown, 0)

/-- A token and its text, with the places before and after it. -/
structure Lexeme where
  token : Token
  text : List Char
  here : Cursor
  next : Cursor

/-- The byte offset at which a token begins. -/
def Lexeme.start (l : Lexeme) : Nat :=
  l.here.offset

/-- Read the next token. -/
def Cursor.read (c : Cursor) (e : Expect) : Lexeme :=
  match c.settle e (c.size + 1) with
  | (some t, c) =>
      let indents :=
        match t with
        | .newline => c.indents
        | .indent width => width :: c.indents
        | .dedent => c.indents.tail
      { token := .layout t, text := [], here := c, next := { c with indents, last := c.offset } }
  | (none, c) =>
      let (t, size) := Syntax.token e.quote c.rest
      let text := c.rest.take size
      let next := c.skip text
      { token := t, text, here := c, next := { next with last := next.offset } }

end Longhand.Syntax
