import Longhand.Text.CharClass

/-!
# Flag names

A flag is usable when it can be written as the name of a keyword argument: letters, digits and
underscores, not beginning with a digit, and none of the reserved words.
-/

namespace Longhand.Flag

/-- The words of the parsed language that are never names. -/
def reservedWords : List String :=
  ["False", "None", "True", "and", "as", "assert", "async", "await", "break", "class", "continue",
    "def", "del", "elif", "else", "except", "finally", "for", "from", "global", "if", "import",
    "in", "is", "lambda", "nonlocal", "not", "or", "pass", "raise", "return", "try", "while",
    "with", "yield"]

/-- Whether a name can be written as a keyword argument. -/
def isUsable (name : String) : Bool :=
  match name.toList with
  | [] => false
  | first :: rest =>
      (Text.isAlphabetic first || first == '_') &&
        rest.all (fun c => Text.isAlphanumeric c || c == '_') && !reservedWords.contains name

end Longhand.Flag
