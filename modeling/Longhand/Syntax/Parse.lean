import Longhand.Syntax.Grammar.Statement

/-!
# Parsing a text

Every text has a tree.  The tree of a text that the grammar does not accept is a module with an
error in it.

Where a simple statement runs into the next one, a line end is supplied between them and the text is
accepted after all.  This is not done where it would be as easy to leave something out: one token
behind the place, or one statement or operand before it, if it is short.
-/

namespace Longhand.Syntax

/-- The meaning of a rule, given the meanings of the rules in it. -/
def meaning (rules : Rules) : Rule → Parser Tree
  | .expression f => expression rules f
  | .level f n => levelExpression rules f n
  | .yield f => yieldExpression rules f
  | .braced => braced rules
  | .type f => typeAnnotation rules f
  | .casePattern f => casePattern rules f
  | .simplePattern f => simplePattern rules f
  | .assigned => assigned rules
  | .suite => suite rules

/-- The rules of the grammar, up to a depth of the references between them. -/
def rulesTo : Nat → Rules
  | 0, _ => reject
  | depth + 1, r => meaning (rulesTo depth) r

/-- Statements up to the end of the text. -/
def wholeText (rules : Rules) : Parser (List Tree) := do
  let items ← statements rules
  let _ ← expect statementStart fun | .endOfText => true | _ => false
  return items

/-- A whole text as a list of statements, with line ends supplied behind some tokens, or the end of
the furthest token that was read.  At most four rules refer to each other before a token is read,
which bounds the depth. -/
def moduleItems (source : List Char) (supplied : List Nat) : Except Nat (List Tree) :=
  (wholeText (rulesTo (4 * tokenBound false source + 16)) (Cursor.ofText source supplied)).map
    Prod.fst

/-! ## Supplied line ends -/

/-- The longest part, in bytes, that is rather left out than that a line end is supplied. -/
def cutLimit : Nat := 10

/-- The token behind an offset, given the text from there on. -/
def tokenAfter (offset : Nat) (after : List Char) : Text.Span :=
  let l := (Cursor.ofText after []).read operand
  ⟨offset + l.here.offset, offset + l.next.offset⟩

/-- The statement of some number of characters before an offset, given the text up to there
reversed.  A statement does not begin within a name. -/
def statementBefore? (offset : Nat) (before : List Char) (size : Nat) : Option Text.Span :=
  let piece := (before.take size).reverse
  let inName := piece.head?.any Text.isIdentifierPart &&
    (before.drop size).head?.any Text.isIdentifierPart
  match moduleItems piece [] with
  | .ok [_] => if inName then none else some ⟨offset - Text.byteSize piece, offset⟩
  | _ => none

/-- The parts next to an offset that can be left out. -/
def cuts (source : List Char) (offset : Nat) : List Text.Span :=
  match Text.splitAt? source offset with
  | none => []
  | some (before, after) =>
      let all := tokenAfter offset after ::
        (List.range cutLimit).filterMap fun n => statementBefore? offset before.reverse (n + 1)
      all.filter fun s => s.start < s.stop && s.stop ≤ s.start + cutLimit

/-- A text without a part of it. -/
def without (source : List Char) (s : Text.Span) : List Char :=
  match Text.splitAt? source s.start, Text.splitAt? source s.stop with
  | some (before, _), some (_, after) => before ++ after
  | _, _ => source

/-- Whether leaving out a part lets the reading come as far as it came otherwise. -/
def mends (source : List Char) (supplied : List Nat) (otherwise : Except Nat (List Tree))
    (s : Text.Span) : Bool :=
  match moduleItems (without source s) supplied, otherwise with
  | .ok _, _ => true
  | .error _, .ok _ => false
  | .error furthest, .error other => other ≤ furthest + (s.stop - s.start)

/-- Read on from a reading, supplying line ends as long as that helps.  Each is supplied behind
another token, which bounds their number. -/
def supplyEnds (source : List Char) :
    Nat → List Nat → Except Nat (List Tree) → Option (List Tree)
  | _, _, .ok items => some items
  | 0, _, .error _ => none
  | bound + 1, supplied, .error furthest =>
      let next := moduleItems source (furthest :: supplied)
      let helps := match next with
        | .ok _ => true
        | .error other => furthest < other
      if helps && !(cuts source furthest).any (mends source supplied next) then
        supplyEnds source bound (furthest :: supplied) next
      else none

/-! ## Trees -/

/-- The tree of a text. -/
def parse (source : List Char) : Tree :=
  let span : Text.Span := ⟨0, Text.byteSize source⟩
  match supplyEnds source (tokenBound false source) [] (moduleItems source []) with
  | some items => .node .module none span "" items
  | none => .node .module none span "" [.node .error none span "" []]

end Longhand.Syntax
