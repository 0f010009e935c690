/-!
# Characters of YAML

The classes of characters that the forms of a scalar are told apart by, and how line breaks are read
into a value.
-/

namespace Longhand.Flag.Yaml

def isBreak (c : Char) : Bool :=
  c == '\n' || c == '\r' || c == '\u0085' || c == '\u2028' || c == '\u2029'

def isBlank (c : Char) : Bool :=
  c == ' ' || c == '\t'

/-- Whether a text begins with a blank or a break, or is at its end. -/
def startsBlank : List Char → Bool
  | [] => true
  | c :: _ => isBlank c || isBreak c

/-- Whether a text begins with a break, or is at its end. -/
def startsBreak : List Char → Bool
  | [] => true
  | c :: _ => isBreak c

/-- The characters of names of anchors and directives. -/
def isNameChar (c : Char) : Bool :=
  c.isAlphanum || c == '_' || c == '-'

/-- The characters of a tag. -/
def isTagChar (c : Char) : Bool :=
  isNameChar c || ";/?:@&=+$.!~*'()%".toList.contains c

/-- The characters that may stand in a document. -/
def isAllowed (c : Char) : Bool :=
  c == '\t' || c == '\n' || c == '\r' || (' ' ≤ c && c ≤ '~') || c == '\u0085'
    || ('\u00a0' ≤ c && c ≤ '\ufffd') || 0xffff < c.toNat

/-- The break at the front of a text as it is read into a value, and the text behind it.  Most
breaks are read as a line feed. -/
def takeBreak? : List Char → Option (Char × List Char)
  | '\r' :: '\n' :: rest => some ('\n', rest)
  | c :: rest =>
      if c == '\u2028' || c == '\u2029' then some (c, rest)
      else if isBreak c then some ('\n', rest)
      else none
  | [] => none

/-- A place in a document. -/
structure Spot where
  rest : List Char
  line : Nat
  column : Nat
  index : Nat
  deriving Repr, Inhabited

namespace Spot

/-- Move over one character that is no break. -/
def step (s : Spot) : Spot :=
  { s with rest := s.rest.drop 1, column := s.column + 1, index := s.index + 1 }

/-- Move over some characters that are no breaks. -/
def steps (s : Spot) (n : Nat) : Spot :=
  { s with rest := s.rest.drop n, column := s.column + n, index := s.index + n }

/-- Move over the characters of a class, none of them a break. -/
def stepsWhile (s : Spot) (p : Char → Bool) : Spot :=
  s.steps (s.rest.takeWhile p).length

/-- Move over a break. -/
def breakLine (s : Spot) : Spot :=
  match takeBreak? s.rest with
  | some (_, rest) =>
      { rest, line := s.line + 1, column := 0,
        index := s.index + (s.rest.length - rest.length) }
  | none => s

/-- Whether a mark of three dashes or dots for the bounds of a document stands here. -/
def atDocumentMark (s : Spot) : Bool :=
  s.column == 0 &&
    match s.rest with
    | '-' :: '-' :: '-' :: rest => startsBlank rest
    | '.' :: '.' :: '.' :: rest => startsBlank rest
    | _ => false

end Spot

/-- What was passed since the last character of a scalar that is no blank: blanks on its line, or
the first break and the further ones. -/
inductive Gap where
  | blanks (text : List Char)
  | breaks (first : List Char) (further : List Char)
  deriving Repr, Inhabited

/-- How a gap is read into a value that is folded: a single break as a blank, several as all but the
first of them. -/
def Gap.folded : Gap → List Char
  | .blanks text => text
  | .breaks first further =>
      if first = ['\n'] then
        if further.isEmpty then [' '] else further
      else first ++ further

/-- Pass the blanks and breaks at a spot.  Fails at a tab in the indentation, which has to be at
least `indent` wide. -/
def passGap (indent : Nat) : Nat → Spot → Gap → Option (Spot × Gap)
  | 0, s, g => some (s, g)
  | bound + 1, s, g =>
      match s.rest with
      | [] => some (s, g)
      | c :: _ =>
          if isBlank c then
            match g with
            | .blanks text => passGap indent bound s.step (.blanks (text ++ [c]))
            | .breaks .. =>
                if c == '\t' && s.column < indent then none else passGap indent bound s.step g
          else
            match takeBreak? s.rest with
            | none => some (s, g)
            | some (b, _) =>
                match g with
                | .blanks _ => passGap indent bound s.breakLine (.breaks [b] [])
                | .breaks first further =>
                    passGap indent bound s.breakLine (.breaks first (further ++ [b]))

end Longhand.Flag.Yaml
