/-!
# Coloured diffs

Terminal escapes around the lines of a diff: file headers are bold, hunk headers cyan, added lines
green and removed lines red.  The end of a line stays outside of the escapes.
-/

namespace Longhand.Diff

/-- The ways in which a line is set off. -/
inductive Style where
  | plain
  | bold
  | cyan
  | green
  | red
  deriving Repr, DecidableEq

/-- A terminal escape that sets a graphic attribute. -/
def escape (code : List Char) : List Char :=
  '\x1b' :: '[' :: code ++ ['m']

/-- The escape that begins a style. -/
def Style.on : Style → List Char
  | .plain => []
  | .bold => escape ['1']
  | .cyan => escape ['3', '6']
  | .green => escape ['3', '2']
  | .red => escape ['3', '1']

/-- The escape that ends a style. -/
def Style.off : Style → List Char
  | .plain => []
  | .bold => escape ['0']
  | .cyan | .green | .red => escape ['3', '9']

/-- A text in a style. -/
def Style.paint (s : Style) (text : List Char) : List Char :=
  s.on ++ text ++ s.off

/-- The style of a line of a diff, known by how the line begins. -/
def Style.ofLine : List Char → Style
  | '-' :: '-' :: '-' :: ' ' :: _ => .bold
  | '+' :: '+' :: '+' :: ' ' :: _ => .bold
  | '@' :: '@' :: _ => .cyan
  | '+' :: _ => .green
  | '-' :: _ => .red
  | _ => .plain

/-- The lines of a text without their line feeds, and for each whether it had one.  A text that ends
in a line feed has no empty line after it. -/
def feedLines : List Char → List (List Char × Bool)
  | [] => []
  | '\n' :: rest => ([], true) :: feedLines rest
  | c :: rest =>
      match feedLines rest with
      | [] => [([c], false)]
      | (line, ended) :: more => (c :: line, ended) :: more

/-- A diff with colours. -/
def colourise (diff : List Char) : List Char :=
  (feedLines diff).flatMap fun (line, ended) =>
    (Style.ofLine line).paint line ++ (if ended then ['\n'] else [])

end Longhand.Diff
