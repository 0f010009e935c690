import Longhand.Syntax.Parse

/-!
# Faults of a text

What keeps a text from being rewritten: errors, and forms that only an old version of the language
has.  The tree is searched from the front, parents before children, down to the depth limit.
-/

namespace Longhand.Syntax

/-- What is wrong with a node. -/
inductive Fault where
  | invalid
  | missing
  | printStatement
  | execStatement
  | exceptComma
  | backtick
  | oldInteger
  deriving DecidableEq, Repr

/-- What is wrong with a text, and where. -/
structure ParseError where
  position : Text.Position
  fault : Fault
  deriving DecidableEq, Repr

/-- Whether an integer is written in a way of old: with a leading zero before other digits, or with
the mark of a long integer at the end. -/
def isOldInteger (text : List Char) : Bool :=
  match text.getLast? with
  | some 'l' | some 'L' => true
  | _ =>
      let digits := text.filter (· != '_')
      1 < digits.length && digits.head? = some '0' && digits.all Char.isDigit
        && digits.any (· != '0')

/-- What is wrong with a node itself. -/
def Tree.ownFault? (t : Tree) : Option Fault :=
  match t.kind with
  | .missing => some .missing
  | .error => some .invalid
  | .printStatement => some .printStatement
  | .execStatement => some .execStatement
  | .exceptClause =>
      if t.children.any fun c => c.kind = .comma then some .exceptComma else none
  | .stringStart => if t.text.toList.getLast? = some '\x60' then some .backtick else none
  | .integer => if isOldInteger t.text.toList then some .oldInteger else none
  | _ => none

mutual

/-- The first faulty node of a tree at some depth, with its fault. -/
def Tree.firstFault? (depth : Nat) : Tree → Option (Fault × Tree)
  | .node kind role span text children =>
      if depthLimit < depth then none
      else
        let t := Tree.node kind role span text children
        match t.ownFault? with
        | some f => some (f, t)
        | none => Tree.firstFaultIn? (depth + 1) children

/-- The first faulty node of some trees at some depth, with its fault. -/
def Tree.firstFaultIn? (depth : Nat) : List Tree → Option (Fault × Tree)
  | [] => none
  | t :: rest =>
      match Tree.firstFault? depth t with
      | some f => some f
      | none => Tree.firstFaultIn? depth rest

end

/-- The error of a faulty node.  A text that is not accepted as a whole has no place of error. -/
def Fault.error (source : List Char) (fault : Fault) (t : Tree) : ParseError :=
  match fault with
  | .invalid | .missing => ⟨⟨0, 0⟩, fault⟩
  | _ => ⟨Text.positionAt source t.span.start, fault⟩

/-- The tree of a text, or what is wrong with the text. -/
def parseChecked (source : List Char) : Except ParseError Tree :=
  let t := parse source
  match t.firstFault? 0 with
  | some (fault, node) => .error (fault.error source node)
  | none => .ok t

def Fault.text : Fault → String
  | .invalid | .missing => "invalid syntax"
  | .printStatement => "Python 2 print statement"
  | .execStatement => "Python 2 exec statement"
  | .exceptComma => "Python 2 \x60except E, e\x60 clause"
  | .backtick => "Python 2 backtick repr"
  | .oldInteger => "Python 2 integer literal"

def ParseError.message (e : ParseError) : String :=
  toString e.position.line ++ ":" ++ toString e.position.column ++ ": " ++ e.fault.text

end Longhand.Syntax
