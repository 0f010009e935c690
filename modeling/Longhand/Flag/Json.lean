import Longhand.Flag.Table

/-!
# Tables in JSON

A table is written as an object of objects of strings.  The reading is strict: no comments, no comma
at the end, nothing behind the outer object.
-/

namespace Longhand.Flag.Json

/-- A text without the blanks at its front. -/
def skipBlanks (cs : List Char) : List Char :=
  cs.dropWhile fun c => c == ' ' || c == '\t' || c == '\n' || c == '\r'

/-- The value of a hexadecimal digit. -/
def hexDigit? (c : Char) : Option Nat :=
  if '0' ≤ c && c ≤ '9' then some (c.toNat - '0'.toNat)
  else if 'a' ≤ c && c ≤ 'f' then some (c.toNat - 'a'.toNat + 10)
  else if 'A' ≤ c && c ≤ 'F' then some (c.toNat - 'A'.toNat + 10)
  else none

/-- The value of four hexadecimal digits. -/
def unit? (a b c d : Char) : Option Nat :=
  match hexDigit? a, hexDigit? b, hexDigit? c, hexDigit? d with
  | some a, some b, some c, some d => some (((a * 16 + b) * 16 + c) * 16 + d)
  | _, _, _, _ => none

/-- The character that a letter behind a backslash stands for. -/
def escaped? : Char → Option Char
  | '"' => some '"'
  | '\\' => some '\\'
  | '/' => some '/'
  | 'b' => some '\x08'
  | 'f' => some '\x0c'
  | 'n' => some '\n'
  | 'r' => some '\r'
  | 't' => some '\t'
  | _ => none

/-- The rest of a string behind its opening quote, and the text behind the string.  Characters
outside of the first plane are written as two units; half of such a pair is refused. -/
def stringBody? : List Char → Option (List Char × List Char)
  | [] => none
  | '"' :: rest => some ([], rest)
  | '\\' :: 'u' :: a :: b :: c :: d :: rest =>
      match unit? a b c d with
      | none => none
      | some u =>
          if 0xd800 ≤ u && u < 0xdc00 then
            match rest with
            | '\\' :: 'u' :: a' :: b' :: c' :: d' :: rest =>
                match unit? a' b' c' d' with
                | none => none
                | some v =>
                    if 0xdc00 ≤ v && v < 0xe000 then
                      let code := 0x10000 + (u - 0xd800) * 0x400 + (v - 0xdc00)
                      (stringBody? rest).map fun (s, rest) => (Char.ofNat code :: s, rest)
                    else none
            | _ => none
          else if 0xdc00 ≤ u && u < 0xe000 then none
          else (stringBody? rest).map fun (s, rest) => (Char.ofNat u :: s, rest)
  | '\\' :: c :: rest =>
      match escaped? c with
      | none => none
      | some e => (stringBody? rest).map fun (s, rest) => (e :: s, rest)
  | c :: rest =>
      if c < ' ' || c = '\\' then none
      else (stringBody? rest).map fun (s, rest) => (c :: s, rest)

/-- A string at the front of a text. -/
def string? (cs : List Char) : Option (String × List Char) :=
  match skipBlanks cs with
  | '"' :: rest => (stringBody? rest).map fun (s, rest) => (String.ofList s, rest)
  | _ => none

/-- The members of an object from its first key on, up to its end.  Each member is longer than one
character, which bounds their number. -/
def members? {α : Type} (value : List Char → Option (α × List Char)) :
    Nat → List Char → Option (List (String × α) × List Char)
  | 0, _ => none
  | bound + 1, cs =>
      match string? cs with
      | none => none
      | some (key, rest) =>
          match skipBlanks rest with
          | ':' :: rest =>
              match value rest with
              | none => none
              | some (v, rest) =>
                  match skipBlanks rest with
                  | '\x7d' :: rest => some ([(key, v)], rest)
                  | ',' :: rest =>
                      (members? value bound rest).map fun (more, rest) => ((key, v) :: more, rest)
                  | _ => none
          | _ => none

/-- An object at the front of a text, given how its values are read. -/
def object? {α : Type} (value : List Char → Option (α × List Char)) (cs : List Char) :
    Option (List (String × α) × List Char) :=
  match skipBlanks cs with
  | '\x7b' :: rest =>
      match skipBlanks rest with
      | '\x7d' :: rest => some ([], rest)
      | rest => members? value rest.length rest
  | _ => none

/-- The entries of a table in JSON. -/
def read? (text : String) : Option Entries :=
  match object? (object? string?) text.toList with
  | some (entries, rest) => if (skipBlanks rest).isEmpty then some entries else none
  | none => none

end Longhand.Flag.Json
