import Longhand.Flag.Yaml.Text
import Longhand.Flag.Json

/-!
# Scalars of YAML

Plain scalars, scalars in single and double quotes, and block scalars that keep or fold their lines.
Each is read from a spot and yields its value and the spot behind it.
-/

namespace Longhand.Flag.Yaml

/-! ## Plain scalars -/

/-- The run of a plain scalar up to a blank or to what ends it.  Inside brackets some marks end it
and a colon before such a mark is refused. -/
def plainRun? (inFlow : Bool) : List Char → Option (List Char)
  | [] => some []
  | c :: rest =>
      if isBlank c || isBreak c then some []
      else if inFlow && c = ':' &&
          (match rest with
            | d :: _ => ",?[]\x7b\x7d".toList.contains d
            | [] => false) then none
      else if c = ':' && startsBlank rest then some []
      else if inFlow && ",[]\x7b\x7d".toList.contains c then some []
      else (plainRun? inFlow rest).map (c :: ·)

/-- The value of a plain scalar that continues at a spot behind a gap, the spot behind it, and
whether a break was passed there. -/
def plain? (inFlow : Bool) (indent : Nat) : Nat → Spot → Gap → List Char →
    Option (List Char × Spot × Bool)
  | 0, _, _, _ => none
  | bound + 1, s, g, value =>
      let broken := match g with | .blanks _ => false | .breaks .. => true
      if s.atDocumentMark || s.rest.head? = some '#' then some (value, s, broken)
      else
        match plainRun? inFlow s.rest with
        | none => none
        | some run =>
            let after := s.steps run.length
            let broken := broken && run.isEmpty
            let value := if run.isEmpty then value else value ++ g.folded ++ run
            match after.rest with
            | [] => some (value, after, broken)
            | c :: _ =>
                if !(isBlank c || isBreak c) then some (value, after, broken)
                else
                  match passGap indent (after.rest.length + 1) after
                      (if run.isEmpty then g else .blanks []) with
                  | none => none
                  | some (next, g) =>
                      let broken := match g with | .blanks _ => false | .breaks .. => true
                      if !inFlow && next.column < indent then some (value, next, broken)
                      else plain? inFlow indent bound next g value

/-! ## Quoted scalars -/

/-- The character that a letter behind a backslash stands for. -/
def escaped? : Char → Option Char
  | '0' => some '\x00'
  | 'a' => some '\x07'
  | 'b' => some '\x08'
  | 't' => some '\t'
  | '\t' => some '\t'
  | 'n' => some '\n'
  | 'v' => some '\x0b'
  | 'f' => some '\x0c'
  | 'r' => some '\r'
  | 'e' => some '\x1b'
  | ' ' => some ' '
  | '"' => some '"'
  | '/' => some '/'
  | '\\' => some '\\'
  | 'N' => some '\u0085'
  | '_' => some '\u00a0'
  | 'L' => some '\u2028'
  | 'P' => some '\u2029'
  | _ => none

/-- The number of hexadecimal digits behind a backslash and a letter. -/
def codeSize? : Char → Option Nat
  | 'x' => some 2
  | 'u' => some 4
  | 'U' => some 8
  | _ => none

/-- The character with the code that some hexadecimal digits give. -/
def charOfDigits? (digits : List Char) : Option Char :=
  match digits.mapM Json.hexDigit? with
  | none => none
  | some ds =>
      let code := ds.foldl (fun n d => n * 16 + d) 0
      if (0xd800 ≤ code && code ≤ 0xdfff) || 0x10ffff < code then none
      else some (Char.ofNat code)

/-- A quoted scalar from a spot inside of it. -/
def quoted? (mark : Char) : Nat → Spot → List Char → Option (List Char × Spot)
  | 0, _, _ => none
  | bound + 1, s, value =>
      if s.atDocumentMark then none
      else
        match s.rest with
        | [] => none
        | c :: rest =>
            if isBlank c || isBreak c then
              match passGap 0 (s.rest.length + 1) s (.blanks []) with
              | none => none
              | some (next, g) => quoted? mark bound next (value ++ g.folded)
            else if c = mark then
              match mark, rest with
              | '\'', '\'' :: _ => quoted? mark bound (s.steps 2) (value ++ ['\''])
              | _, _ => some (value, s.step)
            else if mark = '"' && c = '\\' then
              match rest with
              | [] => none
              | d :: digits =>
                  if isBreak d then
                    match passGap 0 (s.rest.length + 1) s.step.breakLine (.breaks [] []) with
                    | none => none
                    | some (next, g) => quoted? mark bound next (value ++ g.folded)
                  else
                    match escaped? d, codeSize? d with
                    | some e, _ => quoted? mark bound (s.steps 2) (value ++ [e])
                    | none, some size =>
                        if digits.length < size then none
                        else
                          match charOfDigits? (digits.take size) with
                          | none => none
                          | some e => quoted? mark bound (s.steps (2 + size)) (value ++ [e])
                    | none, none => none
            else quoted? mark bound s.step (value ++ [c])

/-! ## Block scalars -/

/-- What becomes of the breaks at the end of a block scalar. -/
inductive Chomp where
  | strip
  | clip
  | keep
  deriving DecidableEq, Repr

/-- The marks behind the sign of a block scalar: what becomes of its last breaks, and by how much
its lines are indented. -/
def blockHeader? (s : Spot) : Option (Chomp × Option Nat × Spot) :=
  let chomp? : List Char → Option Chomp
    | '+' :: _ => some .keep
    | '-' :: _ => some .strip
    | _ => none
  let increment? : List Char → Option Nat
    | c :: _ => if c.isDigit then some (c.toNat - '0'.toNat) else none
    | [] => none
  let finish (chomp : Option Chomp) (increment : Option Nat) (s : Spot) :=
    if increment = some 0 then none else some (chomp.getD .clip, increment, s)
  match chomp? s.rest, increment? s.rest with
  | some chomp, _ =>
      match increment? s.step.rest with
      | some n => finish (some chomp) (some n) (s.steps 2)
      | none => finish (some chomp) none s.step
  | none, some n =>
      match chomp? s.step.rest with
      | some chomp => finish (some chomp) (some n) (s.steps 2)
      | none => finish none (some n) s.step
  | none, none => finish none none s

/-- Pass empty lines and the indentation of a block scalar.  The breaks are collected; so is the
widest indentation, as long as none is set. -/
def blockBreaks? (indent : Option Nat) : Nat → Spot → Nat → List Char →
    Option (Spot × Nat × List Char)
  | 0, _, _, _ => none
  | bound + 1, s, widest, breaks =>
      let inside := fun (s : Spot) => indent.all (s.column < ·)
      if s.rest.head? = some ' ' && inside s then blockBreaks? indent bound s.step widest breaks
      else
        let widest := max widest s.column
        if s.rest.head? = some '\t' && inside s then none
        else
          match takeBreak? s.rest with
          | none => some (s, widest, breaks)
          | some (b, _) => blockBreaks? indent bound s.breakLine widest (breaks ++ [b])

/-- The lines of a block scalar, given the break before them and what else is open. -/
def blockLines? (literal : Bool) (indent : Nat) : Nat → Spot → (leading further : List Char) →
    (afterBlank : Bool) → List Char → Option (List Char × List Char × List Char × Spot)
  | 0, _, _, _, _, _ => none
  | bound + 1, s, leading, further, afterBlank, value =>
      if s.column ≠ indent || s.rest.isEmpty then some (value, leading, further, s)
      else
        let blank := s.rest.head?.any isBlank
        let value :=
          if !literal && leading = ['\n'] && !afterBlank && !blank then
            value ++ (if further.isEmpty then [' '] else further)
          else value ++ leading ++ further
        let line := s.rest.takeWhile fun c => !isBreak c
        let ended := s.steps line.length
        let leading := ((takeBreak? ended.rest).map fun (b, _) => [b]).getD []
        match blockBreaks? (some indent) (ended.rest.length + 2) ended.breakLine 0 [] with
        | none => none
        | some (next, _, further) =>
            blockLines? literal indent bound next leading further blank (value ++ line)

/-- A block scalar from behind its sign, in a block that is indented by `parent`. -/
def block? (literal : Bool) (parent : Int) (s : Spot) : Option (List Char × Spot) :=
  match blockHeader? s with
  | none => none
  | some (chomp, increment, s) =>
      let s := s.stepsWhile isBlank
      let s := if s.rest.head? = some '#' then s.stepsWhile (fun c => !isBreak c) else s
      if !startsBreak s.rest then none
      else
        let s := s.breakLine
        let indent := increment.map fun n => if 0 ≤ parent then parent.toNat + n else n
        match blockBreaks? indent (s.rest.length + 2) s 0 [] with
        | none => none
        | some (s, widest, breaks) =>
            let indent := indent.getD (max widest (max (parent + 1).toNat 1))
            match blockLines? literal indent (s.rest.length + 2) s [] breaks false [] with
            | none => none
            | some (value, leading, further, s) =>
                let value := if chomp = .strip then value else value ++ leading
                some (if chomp = .keep then value ++ further else value, s)

end Longhand.Flag.Yaml
