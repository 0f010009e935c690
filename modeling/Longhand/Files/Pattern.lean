/-!
# Glob patterns

A question mark stands for any character, a star for any characters, and brackets for one character
of a class.  Two stars have to be a whole component of a path, and stand for any number of
components.  Here slashes are characters like others; a pattern is matched against one component of
a path where they shall not be.
-/

namespace Longhand.Files

/-- The characters from one to another; a single one is a range of its own. -/
structure CharRange where
  first : Char
  last : Char
  deriving Repr, DecidableEq

/-- One part of a pattern. -/
inductive Glob where
  | char (c : Char)
  | anyChar
  | anyText
  | anyComponents
  | oneOf (ranges : List CharRange)
  | noneOf (ranges : List CharRange)
  deriving Repr, DecidableEq

/-- A pattern, part by part. -/
abbrev Pattern := List Glob

/-- What is wrong with a pattern. -/
inductive PatternFault where
  | wildcards
  | recursion
  | range
  deriving Repr, DecidableEq

/-- A fault and the index of the character where it shows. -/
structure PatternError where
  index : Nat
  fault : PatternFault
  deriving Repr, DecidableEq

def PatternError.message (e : PatternError) : String :=
  let text := match e.fault with
    | .wildcards => "wildcards are either regular \x60*\x60 or recursive \x60**\x60"
    | .recursion => "recursive wildcards must form a single path component"
    | .range => "invalid range pattern"
  "Pattern syntax error near position " ++ toString e.index ++ ": " ++ text

/-! ## Reading -/

/-- The ranges of a class between its brackets. -/
def ranges : List Char → List CharRange
  | a :: '-' :: b :: rest => ⟨a, b⟩ :: ranges rest
  | a :: rest => ⟨a, a⟩ :: ranges rest
  | [] => []

/-- The characters up to the bracket that closes a class, and what is behind it.  The first
character is never that bracket. -/
def untilBracket? : List Char → Option (List Char × List Char)
  | first :: rest =>
      let body := rest.takeWhile (· != ']')
      match rest.drop body.length with
      | _ :: after => some (first :: body, after)
      | [] => none
  | [] => none

/-- A class behind its opening bracket, and what is behind it. -/
def class? : List Char → Option (Glob × List Char)
  | '!' :: rest => (untilBracket? rest).map fun (body, after) => (.noneOf (ranges body), after)
  | rest => (untilBracket? rest).map fun (body, after) => (.oneOf (ranges body), after)

/-- The parts of a pattern from an index on.  `fresh` tells that a component begins there. -/
def patternFrom : Nat → (index : Nat) → (fresh : Bool) → List Char → Except PatternError Pattern
  | 0, _, _, _ => .ok []
  | _ + 1, _, _, [] => .ok []
  | bound + 1, index, fresh, c :: rest =>
      let more (part : Glob) (taken : Nat) (fresh : Bool) (rest : List Char) :=
        (patternFrom bound (index + taken) fresh rest).map (part :: ·)
      match c with
      | '?' => more .anyChar 1 false rest
      | '*' =>
          match rest with
          | '*' :: '*' :: _ => .error ⟨index + 2, .wildcards⟩
          | '*' :: rest =>
              if !fresh then .error ⟨index - 1, .recursion⟩
              else
                match rest with
                | [] => more .anyComponents 2 false []
                | '/' :: rest => more .anyComponents 3 true rest
                | _ => .error ⟨index + 2, .recursion⟩
          | rest => more .anyText 1 false rest
      | '[' =>
          match class? rest with
          | some (part, after) => more part (rest.length + 1 - after.length) false after
          | none => .error ⟨index, .range⟩
      | c => more (.char c) 1 (c == '/') rest

/-- Read a pattern. -/
def Pattern.parse (text : List Char) : Except PatternError Pattern :=
  patternFrom (text.length + 1) 0 true text

/-! ## Matching -/

/-- The outcome of matching a pattern from some place on.  When the text ends too early, it does so
too for all later places. -/
inductive Outcome where
  | whole
  | mismatch
  | tooShort
  deriving Repr, DecidableEq

/-- Whether a part for one character stands for the given one. -/
def Glob.accepts (g : Glob) (c : Char) : Bool :=
  let within := fun (rs : List CharRange) => rs.any fun r => r.first ≤ c && c ≤ r.last
  match g with
  | .char d => c == d
  | .oneOf rs => within rs
  | .noneOf rs => !within rs
  | _ => true

/-- Pass characters until the rest of the pattern is decided.  Only a slash may be the last one
passed if whole components are. -/
def afterSome (rest : List Char → Outcome) (components : Bool) : List Char → Outcome
  | [] => rest []
  | c :: cs =>
      if components && c != '/' then afterSome rest components cs
      else
        match rest cs with
        | .mismatch => afterSome rest components cs
        | outcome => outcome

/-- Pass any number of characters, none of them first. -/
def afterAny (rest : List Char → Outcome) (components : Bool) (cs : List Char) : Outcome :=
  match rest cs with
  | .mismatch => afterSome rest components cs
  | outcome => outcome

/-- Match a pattern against a text. -/
def Pattern.run : Pattern → List Char → Outcome
  | [], [] => .whole
  | [], _ :: _ => .mismatch
  | .anyText :: rest, cs => afterAny (Pattern.run rest) false cs
  | .anyComponents :: rest, cs => afterAny (Pattern.run rest) true cs
  | _ :: _, [] => .tooShort
  | g :: rest, c :: cs => if g.accepts c then Pattern.run rest cs else .mismatch

/-- Whether a text is an instance of a pattern. -/
def Pattern.matches (p : Pattern) (text : List Char) : Bool :=
  p.run text = .whole

/-- The text that is the only instance of a pattern without wildcards and classes. -/
def Pattern.literal? : Pattern → Option (List Char)
  | [] => some []
  | .char c :: rest => (Pattern.literal? rest).map (c :: ·)
  | _ :: _ => none

/-- Whether a text is meant as a pattern. -/
def isGlob (text : List Char) : Bool :=
  text.any fun c => c == '*' || c == '?' || c == '['

end Longhand.Files
