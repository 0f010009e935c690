import Longhand.Text.CharClass

/-!
# Quoted text

The form in which a message quotes a text: between double quotes, with escapes for what would not
show or would end the quotation.
-/

namespace Longhand.Text

/-- A code point in lower-case hexadecimal, without leading zeros. -/
def hexadecimal (n : Nat) : List Char :=
  Nat.toDigits 16 n

/-- How a character is written inside quotes.  Marks that would join the character before them and
characters without a printed form are written by number. -/
def quotedChar (c : Char) : List Char :=
  if c == '\x00' then ['\\', '0']
  else if c == '\t' then ['\\', 't']
  else if c == '\r' then ['\\', 'r']
  else if c == '\n' then ['\\', 'n']
  else if c == '"' then ['\\', '"']
  else if c == '\\' then ['\\', '\\']
  else if isExtending c || !isPrintable c then
    ['\\', 'u', '\x7b'] ++ hexadecimal c.toNat ++ ['\x7d']
  else [c]

/-- A text between double quotes. -/
def quoted (s : String) : String :=
  String.ofList ('"' :: s.toList.flatMap quotedChar ++ ['"'])

end Longhand.Text
