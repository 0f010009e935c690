import Longhand.Flag.Yaml.Scalar

/-!
# Tokens of YAML

A document is cut into tokens.  Keys are found late: a token that begins a line or follows a bracket
is a candidate, and the mark of a key goes in front of it once a colon follows on the same line.
Blocks open and close with the columns of their keys.  Sequences never occur in a table, so their
marks are refused here.
-/

namespace Longhand.Flag.Yaml

inductive Token where
  | key
  | value
  | blockStart
  | blockEnd
  | flowStart
  | flowEnd
  | flowEntry
  | scalar (text : String)
  | alias (name : String)
  | anchor (name : String)
  | tag (handle : String)
  | documentStart
  | documentEnd
  | version (major minor : Nat)
  | handle (name : String)
  deriving DecidableEq, Repr

/-- A token that is a key if a colon follows.  A required one has to be. -/
structure Candidate where
  start : Spot
  tokensBefore : Nat
  required : Bool
  deriving Repr

/-- The state of cutting.  The newest token is the first.  Blocks are known by their columns, and
each open bracket keeps the candidate that it may belong to. -/
structure Scanner where
  spot : Spot
  tokens : List Token
  indent : Int
  outerIndents : List Int
  keyAllowed : Bool
  candidate : Option Candidate
  outerCandidates : List (Option Candidate)
  deriving Repr

namespace Scanner

/-- The state at the front of a text. -/
def start (text : List Char) : Scanner where
  spot := { rest := text, line := 0, column := 0, index := 0 }
  tokens := []
  indent := -1
  outerIndents := []
  keyAllowed := true
  candidate := none
  outerCandidates := []

/-- Whether a bracket is open. -/
def inFlow (s : Scanner) : Bool :=
  !s.outerCandidates.isEmpty

def push (s : Scanner) (t : Token) : Scanner :=
  { s with tokens := t :: s.tokens }

/-- Put a token in front of all but the first `before` tokens. -/
def insert (s : Scanner) (before : Nat) (t : Token) : Scanner :=
  let later := s.tokens.length - before
  { s with tokens := s.tokens.take later ++ t :: s.tokens.drop later }

/-! ## Candidates -/

/-- Give up the candidate, unless it is required. -/
def forget? (s : Scanner) : Option Scanner :=
  match s.candidate with
  | some c => if c.required then none else some { s with candidate := none }
  | none => some s

/-- Make the token at the spot a candidate, where keys are allowed. -/
def propose? (s : Scanner) : Option Scanner :=
  if s.keyAllowed then
    s.forget?.map fun s =>
      { s with
        candidate := some
          { start := s.spot, tokensBefore := s.tokens.length,
            required := !s.inFlow && s.indent == s.spot.column } }
  else some s

/-- Whether a candidate can no longer be a key: it has to be on the line of its colon, and not
longer than 1024 characters. -/
def isStale (spot : Spot) (c : Candidate) : Bool :=
  c.start.line < spot.line || c.start.index + 1024 < spot.index

/-- Give up all candidates that are stale. -/
def forgetStale? (s : Scanner) : Option Scanner :=
  let stale := fun (c : Option Candidate) => c.any (isStale s.spot)
  if (s.candidate :: s.outerCandidates).any fun c => stale c && c.any (·.required) then none
  else
    let keep := fun c => if stale c then none else c
    some { s with candidate := keep s.candidate, outerCandidates := s.outerCandidates.map keep }

/-! ## Blocks -/

/-- Close the blocks right of a column, given the columns of the open ones. -/
def closed (column : Int) : (indent : Int) → List Int → Nat × Int × List Int
  | indent, [] => (0, indent, [])
  | indent, outer :: rest =>
      if column < indent then
        let (n, left) := closed column outer rest
        (n + 1, left)
      else (0, indent, outer :: rest)

/-- Close the blocks right of a column.  Inside brackets columns do not count. -/
def unroll (s : Scanner) (column : Int) : Scanner :=
  if s.inFlow then s
  else
    let (n, indent, outerIndents) := closed column s.indent s.outerIndents
    { s with tokens := List.replicate n .blockEnd ++ s.tokens, indent, outerIndents }

/-- Open a block at a column that is right of the open ones. -/
def roll (s : Scanner) (column before : Nat) : Scanner :=
  if s.inFlow || (column : Int) ≤ s.indent then s
  else
    { s.insert before .blockStart with
        indent := column, outerIndents := s.indent :: s.outerIndents }

/-! ## Blanks and comments -/

/-- Pass blanks, comments and breaks.  Tabs count as blanks where no key is allowed.  A byte order
mark at the front of the text is passed. -/
def skipToToken : Nat → Scanner → Scanner
  | 0, s => s
  | bound + 1, s =>
      let tabs := s.inFlow || !s.keyAllowed
      let spot := s.spot
      let spot :=
        if spot.index == 0 && spot.rest.head? == some '\ufeff' then spot.step else spot
      let spot := spot.stepsWhile fun c => c == ' ' || (tabs && c == '\t')
      let spot :=
        if spot.rest.head? == some '#' then spot.stepsWhile fun c => !isBreak c else spot
      match takeBreak? spot.rest with
      | none => { s with spot }
      | some _ =>
          skipToToken bound
            { s with spot := spot.breakLine, keyAllowed := s.keyAllowed || !s.inFlow }

/-! ## Marks -/

/-- A mark for the bounds of a document. -/
def documentMark? (s : Scanner) (t : Token) : Option Scanner :=
  (s.unroll (-1)).forget?.map fun s =>
    { s.push t with spot := s.spot.steps 3, keyAllowed := false }

def flowStart? (s : Scanner) : Option Scanner :=
  s.propose?.map fun s =>
    { s.push .flowStart with
      spot := s.spot.step, keyAllowed := true,
      candidate := none, outerCandidates := s.candidate :: s.outerCandidates }

def flowEnd? (s : Scanner) : Option Scanner :=
  s.forget?.map fun s =>
    { s.push .flowEnd with
      spot := s.spot.step, keyAllowed := false,
      candidate := s.outerCandidates.head?.join, outerCandidates := s.outerCandidates.tail }

def flowEntry? (s : Scanner) : Option Scanner :=
  s.forget?.map fun s =>
    { s.push .flowEntry with spot := s.spot.step, keyAllowed := true }

/-- A question mark in front of a key. -/
def key? (s : Scanner) : Option Scanner :=
  if !s.inFlow && !s.keyAllowed then none
  else
    (s.roll s.spot.column s.tokens.length).forget?.map fun s =>
      { s.push .key with spot := s.spot.step, keyAllowed := !s.inFlow }

/-- A colon.  It makes a key of the candidate; without one it stands in front of the value of a key
that was marked as such. -/
def value? (s : Scanner) : Option Scanner :=
  match s.candidate with
  | some c =>
      let s := (s.insert c.tokensBefore .key).roll c.start.column c.tokensBefore
      some { s.push .value with spot := s.spot.step, candidate := none, keyAllowed := false }
  | none =>
      if !s.inFlow && !s.keyAllowed then none
      else
        let s := s.roll s.spot.column s.tokens.length
        some { s.push .value with spot := s.spot.step, keyAllowed := !s.inFlow }

/-! ## Names, tags and directives -/

/-- An anchor or an alias, from its sign on. -/
def named? (s : Scanner) (make : String → Token) : Option Scanner :=
  match s.propose? with
  | none => none
  | some s =>
      let name := (s.spot.rest.drop 1).takeWhile isNameChar
      let spot := s.spot.steps (name.length + 1)
      let ends := spot.rest.head?.any fun c => "?:,]\x7d%@\x60".toList.contains c
      if name.isEmpty || !(startsBlank spot.rest || ends) then none
      else some { s.push (make (String.ofList name)) with spot, keyAllowed := false }

/-- The number of bytes of a character, given the first of them. -/
def sizeOfFirstByte? (byte : Nat) : Option Nat :=
  if byte < 0x80 then some 1
  else if 0xc0 ≤ byte && byte < 0xe0 then some 2
  else if 0xe0 ≤ byte && byte < 0xf0 then some 3
  else if 0xf0 ≤ byte && byte < 0xf8 then some 4
  else none

/-- The length of the tag at the front of a text.  Bytes may be written as a percent sign with two
digits; `due` of them have to follow to complete a character.  A tag in angle brackets may hold some
more marks. -/
def tagLength? (inAngles : Bool) : (due : Nat) → List Char → Option Nat
  | due, '%' :: a :: b :: rest =>
      match Json.hexDigit? a, Json.hexDigit? b with
      | some a, some b =>
          let byte := a * 16 + b
          let due? :=
            match due with
            | 0 => (sizeOfFirstByte? byte).map (· - 1)
            | due + 1 => if 0x80 ≤ byte && byte < 0xc0 then some due else none
          match due? with
          | none => none
          | some due => (tagLength? inAngles due rest).map (· + 3)
      | _, _ => none
  | due, c :: rest =>
      if due = 0 then
        if c = '%' then none
        else if isTagChar c || (inAngles && ",[]".toList.contains c) then
          (tagLength? inAngles 0 rest).map (· + 1)
        else some 0
      else none
  | due, [] => if due = 0 then some 0 else none

/-- The handle at the front of a tag: an exclamation mark, and a name with one more if there is. -/
def handleOf (cs : List Char) : List Char :=
  let name := (cs.drop 1).takeWhile isNameChar
  '!' :: name ++ if (cs.drop (name.length + 1)).head? == some '!' then ['!'] else []

/-- A tag, from its sign on.  Of a tag only the handle matters, which has to be known. -/
def tag? (s : Scanner) : Option Scanner :=
  let finish (s : Scanner) (handle : String) (size : Nat) :=
    let spot := s.spot.steps size
    if startsBlank spot.rest || (s.inFlow && spot.rest.head? == some ',') then
      some { s.push (.tag handle) with spot, keyAllowed := false }
    else none
  match s.propose? with
  | none => none
  | some s =>
      match s.spot.rest with
      | _ :: '<' :: rest =>
          match tagLength? true 0 rest with
          | none => none
          | some n =>
              if n = 0 || (rest.drop n).head? != some '>' then none else finish s "" (n + 3)
      | rest =>
          let handle := handleOf rest
          match tagLength? false 0 (rest.drop handle.length) with
          | none => none
          | some n =>
              if 2 ≤ handle.length && handle.getLast? == some '!' then
                if n = 0 then none else finish s (String.ofList handle) (handle.length + n)
              else finish s (if handle.length + n = 1 then "" else "!") (handle.length + n)

/-- A number of at most nine digits. -/
def number? (cs : List Char) : Option (Nat × List Char) :=
  let digits := cs.takeWhile Char.isDigit
  if digits.isEmpty || 9 < digits.length then none
  else
    some (digits.foldl (fun n d => n * 10 + (d.toNat - '0'.toNat)) 0, cs.drop digits.length)

/-- What follows a percent sign, and the text behind it. -/
def directive? (cs : List Char) : Option (Token × List Char) :=
  let name := cs.takeWhile isNameChar
  let rest := cs.drop name.length
  if !startsBlank rest then none
  else
    let rest := rest.dropWhile isBlank
    match String.ofList name with
    | "YAML" =>
        match number? rest with
        | some (major, '.' :: rest) =>
            match number? rest with
            | some (minor, rest) => some (.version major minor, rest)
            | none => none
        | _ => none
    | "TAG" =>
        let handle := handleOf rest
        let after := rest.drop handle.length
        if rest.head? != some '!' || (handle.getLast? != some '!') || !after.head?.any isBlank then
          none
        else
          let after := after.dropWhile isBlank
          match tagLength? true 0 after with
          | none => none
          | some n =>
              if n = 0 || !startsBlank (after.drop n) then none
              else some (.handle (String.ofList handle), after.drop n)
    | _ => none

/-- A directive, up to the end of its line. -/
def directiveLine? (s : Scanner) : Option Scanner :=
  match (s.unroll (-1)).forget? with
  | none => none
  | some s =>
      match directive? (s.spot.rest.drop 1) with
      | none => none
      | some (t, rest) =>
          let spot := (s.spot.steps (s.spot.rest.length - rest.length)).stepsWhile isBlank
          let spot :=
            if spot.rest.head? == some '#' then spot.stepsWhile fun c => !isBreak c else spot
          if !startsBreak spot.rest then none
          else some { s.push t with spot := spot.breakLine, keyAllowed := false }

/-! ## Scalars -/

def plainScalar? (s : Scanner) : Option Scanner :=
  match s.propose? with
  | none => none
  | some s =>
      let longest := s.spot.rest.length + 1
      match plain? s.inFlow (s.indent + 1).toNat longest s.spot (.blanks []) [] with
      | none => none
      | some (text, spot, broken) =>
          some { s.push (.scalar (String.ofList text)) with spot, keyAllowed := broken }

def quotedScalar? (s : Scanner) (mark : Char) : Option Scanner :=
  match s.propose? with
  | none => none
  | some s =>
      match quoted? mark (s.spot.rest.length + 1) s.spot.step [] with
      | none => none
      | some (text, spot) =>
          some { s.push (.scalar (String.ofList text)) with spot, keyAllowed := false }

def blockScalar? (s : Scanner) (literal : Bool) : Option Scanner :=
  match s.forget? with
  | none => none
  | some s =>
      match block? literal s.indent s.spot.step with
      | none => none
      | some (text, spot) =>
          some { s.push (.scalar (String.ofList text)) with spot, keyAllowed := true }

/-! ## All tokens -/

/-- The token that begins with the given character at the spot. -/
def token? (s : Scanner) (c : Char) : Option Scanner :=
  let blankNext := startsBlank (s.spot.rest.drop 1)
  if s.spot.column == 0 && c == '%' then s.directiveLine?
  else if s.spot.atDocumentMark then
    s.documentMark? (if c == '-' then .documentStart else .documentEnd)
  else if c == '[' || c == ']' then none
  else if c == '\x7b' then s.flowStart?
  else if c == '\x7d' then s.flowEnd?
  else if c == ',' then s.flowEntry?
  else if c == '-' && blankNext then none
  else if c == '?' && (s.inFlow || blankNext) then s.key?
  else if c == ':' && (s.inFlow || blankNext) then s.value?
  else if c == '*' then s.named? .alias
  else if c == '&' then s.named? .anchor
  else if c == '!' then s.tag?
  else if (c == '|' || c == '>') && !s.inFlow then s.blockScalar? (c == '|')
  else if c == '\'' || c == '"' then s.quotedScalar? c
  else if "#|>%@\x60\t".toList.contains c then none
  else s.plainScalar?

/-- All tokens of a text.  Each of them is at least one character long, which bounds their number.
-/
def run? : Nat → Scanner → Option Scanner
  | 0, _ => none
  | bound + 1, s =>
      match (skipToToken (s.spot.rest.length + 1) s).forgetStale? with
      | none => none
      | some s =>
          match s.spot.rest with
          | [] => (s.unroll (-1)).forget?
          | c :: _ => ((s.unroll s.spot.column).token? c).bind (run? bound)

end Scanner

/-- The tokens of a text, which may begin with a byte order mark. -/
def tokens? (text : List Char) : Option (List Token) :=
  let text := if text.head? == some '\ufeff' then text.drop 1 else text
  if text.all isAllowed then
    (Scanner.run? (text.length + 1) (Scanner.start text)).map fun s => s.tokens.reverse
  else none

end Longhand.Flag.Yaml
