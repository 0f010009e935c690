import Longhand.Diff.Lines
import Longhand.Diff.Region

/-!
# Unified diffs

The text that shows how one text becomes another: two header lines, then the hunks, each with the
ranges of lines that it covers.  A line without its end is marked as such.
-/

namespace Longhand.Diff

/-- How much a diff changes. -/
structure Stats where
  files : Nat := 0
  added : Nat := 0
  removed : Nat := 0
  deriving Repr, DecidableEq, Inhabited

def Stats.add (a b : Stats) : Stats :=
  ⟨a.files + b.files, a.added + b.added, a.removed + b.removed⟩

/-- Whether a line of a diff belongs to both texts, to the old or to the new one. -/
inductive Mark where
  | context
  | removed
  | added
  deriving Repr, DecidableEq

def Mark.char : Mark → Char
  | .context => ' '
  | .removed => '-'
  | .added => '+'

/-- A line of a hunk. -/
structure BodyLine where
  mark : Mark
  line : List Char
  deriving Repr, DecidableEq

/-- Some lines of a text, each with a mark. -/
def marked (mark : Mark) (ls : Array (List Char)) (start size : Nat) : List BodyLine :=
  ((ls.toList.drop start).take size).map (⟨mark, ·⟩)

/-- The lines of a region.  Of changed lines the old ones come first. -/
def Region.body (old new : Array (List Char)) (r : Region) : List BodyLine :=
  if r.kept then marked .context old r.old r.oldSize
  else marked .removed old r.old r.oldSize ++ marked .added new r.new r.newSize

def Hunk.body (old new : Array (List Char)) (h : Hunk) : List BodyLine :=
  h.flatMap (Region.body old new)

/-- A range of lines in a hunk header.  An empty one is named by the line before it. -/
def rangeText (start stop : Nat) : List Char :=
  let number (n : Nat) : List Char := Nat.toDigits 10 n
  if stop - start = 1 then number (start + 1)
  else if stop - start = 0 then number start ++ [',', '0']
  else number (start + 1) ++ ',' :: number (stop - start)

/-- The header of the hunk from one region to another. -/
def headerText (first last : Region) : List Char :=
  "@@ -".toList ++ rangeText first.old (last.old + last.oldSize) ++ " +".toList
    ++ rangeText first.new (last.new + last.newSize) ++ " @@\n".toList

/-- The line that follows a line without its end. -/
def noEndOfLine : List Char :=
  "\n\\ No newline at end of file\n".toList

def BodyLine.text (l : BodyLine) : List Char :=
  l.mark.char :: l.line ++ (if isTerminated l.line then [] else noEndOfLine)

/-- A hunk with its header.  A hunk without lines has no text. -/
def Hunk.text (old new : Array (List Char)) (h : Hunk) : List Char :=
  match h.head?, h.getLast?, Hunk.body old new h with
  | some first, some last, l :: ls => headerText first last ++ (l :: ls).flatMap BodyLine.text
  | _, _, _ => []

/-- The two lines that name the file. -/
def fileHeader (path : List Char) : List Char :=
  "--- ".toList ++ path ++ "\n+++ ".toList ++ path ++ ['\n']

/-- The numbers of lines that some regions add and remove. -/
def countLines (rs : List Region) : Stats :=
  let changed := rs.filter (!·.kept)
  let added := changed.foldr (fun r n => r.newSize + n) 0
  let removed := changed.foldr (fun r n => r.oldSize + n) 0
  ⟨if added = 0 && removed = 0 then 0 else 1, added, removed⟩

/-- The diff from one text to another with some lines of context, and how much it changes. -/
def unified (path : String) (old new : List Char) (context : Nat) : String × Stats :=
  let oldLines := (lines old).toArray
  let newLines := (lines new).toArray
  let rs := regions (compact oldLines newLines (script oldLines newLines))
  let body := (hunks context rs).flatMap (Hunk.text oldLines newLines)
  (String.ofList (fileHeader path.toList ++ body), countLines rs)

end Longhand.Diff
