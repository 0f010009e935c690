import Longhand.Diff.Colour
import Longhand.Proofs.Reread
import Mathlib.Data.List.Basic
import Mathlib.Data.List.TakeWhile

/-!
# Colours of a diff

What a line of a diff is follows from its place: the file headers come first, then the hunks, each with
its header, its lines and the notes after lines without an end.  The colours are chosen without the
place, by how a line begins.  Where all lines end in line feeds the two agree, but for a removed line
that begins with two dashes and a space and an added one that begins with two pluses and a space:
these look like a file header.

The escapes of the colours can be taken out again, which leaves the diff.
-/

namespace Longhand.Diff

/-! ## The lines of a diff -/

/-- What a line of a diff is. -/
inductive LineKind where
  | fileHeader
  | hunkHeader
  | body (mark : Mark)
  | note
  deriving Repr, DecidableEq

/-- The style that sets off a kind of line. -/
def LineKind.style : LineKind → Style
  | .fileHeader => .bold
  | .hunkHeader => .cyan
  | .body .added => .green
  | .body .removed => .red
  | .body .context | .note => .plain

/-- A line of a diff, without its line feed. -/
structure DiffLine where
  kind : LineKind
  line : List Char
  deriving Repr, DecidableEq

def DiffLine.text (l : DiffLine) : List Char :=
  l.line ++ ['\n']

/-- A text up to its first line feed. -/
def upToFeed (cs : List Char) : List Char :=
  cs.takeWhile (· != '\n')

/-- The lines that show a line of a text: the line itself and a note if it has no end. -/
def BodyLine.shown (b : BodyLine) : List DiffLine :=
  ⟨.body b.mark, b.mark.char :: upToFeed b.line⟩ ::
    if isTerminated b.line then [] else [⟨.note, note.dropLast⟩]

def Range.text (r : Range) : List Char :=
  rangeText r.before (r.before + r.size)

/-- The header of a hunk, without its line feed. -/
def Chunk.header (c : Chunk) : List Char :=
  '@' :: '@' :: ' ' :: '-' :: (c.old.text ++ ' ' :: '+' :: (c.new.text ++ [' ', '@', '@']))

def Chunk.shown (c : Chunk) : List DiffLine :=
  ⟨.hunkHeader, c.header⟩ :: c.body.flatMap BodyLine.shown

/-- The lines of the diff from one text to another. -/
def diffLines (path old new : List Char) (context : Nat) : List DiffLine :=
  ⟨.fileHeader, '-' :: '-' :: '-' :: ' ' :: path⟩ ::
    ⟨.fileHeader, '+' :: '+' :: '+' :: ' ' :: path⟩ ::
      (chunks (lines old).toArray (lines new).toArray context).flatMap Chunk.shown

/-- Whether a removed or an added line looks like a line that names a file. -/
def DiffLine.posesAsHeader (l : DiffLine) : Bool :=
  l.kind = .body .removed && ['-', '-', '-', ' '].isPrefixOf l.line ||
    l.kind = .body .added && ['+', '+', '+', ' '].isPrefixOf l.line

/-- The style that a line is shown in. -/
def DiffLine.style (l : DiffLine) : Style :=
  if l.posesAsHeader then .bold else l.kind.style

/-- A text without its escapes.  An escape runs from the escape character to the next `m`. -/
def unescaped (inEscape : Bool) : List Char → List Char
  | [] => []
  | c :: rest =>
      if inEscape then unescaped (c ≠ 'm') rest
      else if c = '\x1b' then unescaped true rest
      else c :: unescaped false rest

/-! ## Texts with line feeds only -/

variable {path old new cs w rest : List Char} {l : DiffLine} {ls : List DiffLine} {context : Nat}

theorem mem_of_mem_lines {line : List Char} (hline : line ∈ lines cs) {x : Char} (hx : x ∈ line) :
    x ∈ cs := by
  have hflat := List.mem_flatten_of_mem hline hx
  rwa [flatten_lines] at hflat

/-- A line of a text without carriage returns ends in a line feed or has no line feed at all. -/
theorem feed_of_mem_lines (hcs : '\r' ∉ cs) {line : List Char} (h : line ∈ lines cs) :
    ∃ w, '\n' ∉ w ∧ (line = w ++ ['\n'] ∨ line = w ∧ isTerminated w = false) := by
  obtain ⟨w, e, rfl, hw, he⟩ := exists_of_mem_lines h
  have hreturn : '\r' ∉ w ++ e := fun hmem => hcs (mem_of_mem_lines h hmem)
  refine ⟨w, fun hmem => (hw _ hmem).1 rfl, ?_⟩
  rcases he with he | ⟨rfl, -⟩
  · cases he with
    | feed => exact .inl rfl
    | pair => simp at hreturn
    | carriage => simp at hreturn
  · exact .inr ⟨List.append_nil w, isTerminated_of_unbroken hw⟩

theorem upToFeed_of_notMem (hw : '\n' ∉ w) : upToFeed w = w := by
  rw [upToFeed, List.takeWhile_eq_self_iff]
  intro c hc
  rw [bne_iff_ne]
  rintro rfl
  exact hw hc

theorem upToFeed_append (hw : '\n' ∉ w) : upToFeed (w ++ ['\n']) = w := by
  rw [upToFeed, List.takeWhile_append, ← upToFeed, upToFeed_of_notMem hw]
  simp

theorem notMem_upToFeed (cs : List Char) : '\n' ∉ upToFeed cs := by
  intro hmem
  have hne := List.mem_takeWhile_imp hmem
  simp at hne

/-- What shows a line of a text makes up the text of it in the diff. -/
theorem flatMap_shown (hcs : '\r' ∉ cs) {b : BodyLine} (hb : b.line ∈ lines cs) :
    b.shown.flatMap DiffLine.text = b.text := by
  obtain ⟨mark, line⟩ := b
  obtain ⟨w, hw, rfl | ⟨rfl, hend⟩⟩ := feed_of_mem_lines hcs hb
  · have hend : isTerminated (w ++ ['\n']) = true := isTerminated_append .feed w
    simp [BodyLine.shown, BodyLine.text, DiffLine.text, upToFeed_append hw, hend]
  · have hnote : note = note.dropLast ++ ['\n'] := rfl
    simp [BodyLine.shown, BodyLine.text, DiffLine.text, upToFeed_of_notMem hw, hend,
      noEndOfLine_eq, ← hnote]

theorem text_range (start stop : Nat) :
    (⟨start, stop - start⟩ : Range).text = rangeText start stop := by
  simp [Range.text, rangeText]

theorem Hunk.text_eq {c : Chunk} {h : Hunk} {a b : Array (List Char)}
    (hc : Hunk.chunk a b h = some c) :
    Hunk.text a b h = c.header ++ '\n' :: c.body.flatMap BodyLine.text := by
  unfold Hunk.chunk at hc
  split at hc
  · rename_i first last l ls hfirst hlast hbody
    cases hc
    rw [Hunk.text, hfirst, hlast, hbody]
    simp [Chunk.header, text_range, headerText_eq]
  · cases hc

/-- The hunks of a diff make up the texts of the hunks that it is printed from. -/
theorem flatMap_text (a b : Array (List Char)) (hs : List Hunk) : hs.flatMap (Hunk.text a b) =
    (hs.filterMap (Hunk.chunk a b)).flatMap fun c =>
      c.header ++ '\n' :: c.body.flatMap BodyLine.text := by
  induction hs with
  | nil => rfl
  | cons h hs ih =>
      rw [List.flatMap_cons]
      cases hc : Hunk.chunk a b h with
      | none => rw [Hunk.text_of_none hc, List.filterMap_cons_none hc, List.nil_append, ih]
      | some c => rw [Hunk.text_eq hc, List.filterMap_cons_some hc, List.flatMap_cons, ih]

/-- The lines of a hunk are lines of the texts that are compared. -/
theorem line_mem_of_mem_chunks {c : Chunk}
    (hc : c ∈ chunks (lines old).toArray (lines new).toArray context) {b : BodyLine}
    (hb : b ∈ c.body) : b.line ∈ lines old ∨ b.line ∈ lines new := by
  obtain ⟨h, -, hchunk⟩ := List.mem_filterMap.1 hc
  rw [(Hunk.chunk_eq_some hchunk).1] at hb
  simpa using line_mem_of_mem_body hb

/-- The lines of a diff make up its text. -/
theorem flatMap_diffLines (path : String) (hold : '\r' ∉ old) (hnew : '\r' ∉ new) (context : Nat) :
    (diffLines path.toList old new context).flatMap DiffLine.text =
      (unified path old new context).1.toList := by
  have hchunk : ∀ c ∈ chunks (lines old).toArray (lines new).toArray context,
      c.shown.flatMap DiffLine.text = c.header ++ '\n' :: c.body.flatMap BodyLine.text := by
    intro c hc
    have hbody : ∀ b ∈ c.body, b.shown.flatMap DiffLine.text = b.text := by
      intro b hb
      rcases line_mem_of_mem_chunks hc hb with hline | hline
      · exact flatMap_shown hold hline
      · exact flatMap_shown hnew hline
    rw [Chunk.shown, List.flatMap_cons, List.flatMap_assoc, List.flatMap_congr hbody, DiffLine.text]
    simp
  have hunified : (unified path old new context).1.toList = fileHeader path.toList ++
      (hunks context (regionsBetween (lines old).toArray (lines new).toArray)).flatMap
        (Hunk.text (lines old).toArray (lines new).toArray) :=
    String.toList_ofList
  rw [hunified, flatMap_text, fileHeader_eq, diffLines, List.flatMap_cons, List.flatMap_cons,
    List.flatMap_assoc, List.flatMap_congr hchunk]
  simp [DiffLine.text]
  rfl

/-! ## How the lines of a diff look -/

/-- A property of all lines of a diff is one of its headers, of the lines of the texts with a mark and
of the note. -/
theorem forall_diffLines {P : DiffLine → Prop}
    (hfrom : P ⟨.fileHeader, '-' :: '-' :: '-' :: ' ' :: path⟩)
    (hto : P ⟨.fileHeader, '+' :: '+' :: '+' :: ' ' :: path⟩)
    (hheader : ∀ c : Chunk, P ⟨.hunkHeader, c.header⟩)
    (hbody : ∀ (mark : Mark) (line : List Char), line ∈ lines old ∨ line ∈ lines new →
      P ⟨.body mark, mark.char :: upToFeed line⟩)
    (hnote : P ⟨.note, note.dropLast⟩) : ∀ l ∈ diffLines path old new context, P l := by
  intro l hl
  rw [diffLines, List.mem_cons, List.mem_cons, List.mem_flatMap] at hl
  rcases hl with rfl | rfl | ⟨c, hc, hl⟩
  · exact hfrom
  · exact hto
  rw [Chunk.shown, List.mem_cons, List.mem_flatMap] at hl
  rcases hl with rfl | ⟨b, hb, hl⟩
  · exact hheader c
  rw [BodyLine.shown, List.mem_cons] at hl
  rcases hl with rfl | hl
  · exact hbody b.mark b.line (line_mem_of_mem_chunks hc hb)
  · split at hl
    · cases hl
    · rw [List.mem_singleton.1 hl]
      exact hnote

/-- The characters of a range. -/
theorem mem_text_range {r : Range} {x : Char} (hx : x ∈ r.text) : x.isDigit = true ∨ x = ',' := by
  have hdigits : ∀ n, x ∈ Nat.toDigits 10 n → x.isDigit = true :=
    fun n h => Nat.isDigit_of_mem_toDigits (by omega) (by omega) h
  unfold Range.text rangeText at hx
  split at hx
  · exact .inl (hdigits _ hx)
  split at hx
  · rcases List.mem_append.1 hx with hx | hx
    · exact .inl (hdigits _ hx)
    · simp only [List.mem_cons, List.not_mem_nil, or_false] at hx
      rcases hx with rfl | rfl
      · exact .inr rfl
      · exact .inl rfl
  · rcases List.mem_append.1 hx with hx | hx
    · exact .inl (hdigits _ hx)
    · rcases List.mem_cons.1 hx with rfl | hx
      · exact .inr rfl
      · exact .inl (hdigits _ hx)

/-- A header is made of digits and a few other characters. -/
theorem notMem_header {x : Char} (hdigit : x.isDigit = false)
    (hx : x ∉ ['@', ' ', '-', '+', ',']) (c : Chunk) : x ∉ c.header := by
  have hrange : ∀ r : Range, x ∉ r.text := by
    intro r hmem
    rcases mem_text_range hmem with h | rfl
    · rw [hdigit] at h
      cases h
    · simp at hx
  simp only [List.mem_cons, List.not_mem_nil, or_false, not_or] at hx
  simp [Chunk.header, hrange, hx]

/-- A character that is in no header, mark, note, path or line of the texts is not in a diff. -/
theorem notMem_shown {x : Char} (hdigit : x.isDigit = false)
    (hmarks : x ∉ ['@', ' ', '-', '+', ',']) (hnote : x ∉ note.dropLast) (hpath : x ∉ path)
    (hlines : ∀ line, line ∈ lines old ∨ line ∈ lines new → x ∉ upToFeed line) :
    ∀ l ∈ diffLines path old new context, x ∉ l.line := by
  have hmark : ∀ mark : Mark, x ≠ mark.char := by
    rintro (_ | _ | _) rfl <;> simp [Mark.char] at hmarks
  have hheader := notMem_header hdigit hmarks
  simp only [List.mem_cons, List.not_mem_nil, or_false, not_or] at hmarks
  refine forall_diffLines ?_ ?_ hheader ?_ hnote
  · simp [hmarks, hpath]
  · simp [hmarks, hpath]
  · intro mark line hline
    rw [List.mem_cons, not_or]
    exact ⟨hmark mark, hlines line hline⟩

/-- No line of a diff has a line feed in it. -/
theorem feed_notMem (hpath : '\n' ∉ path) :
    ∀ l ∈ diffLines path old new context, '\n' ∉ l.line :=
  notMem_shown rfl (by simp) (by simp [note]) hpath fun line _ => notMem_upToFeed line

/-- No line of a diff of texts without escapes has an escape in it. -/
theorem escape_notMem (hpath : '\x1b' ∉ path) (hold : '\x1b' ∉ old) (hnew : '\x1b' ∉ new) :
    ∀ l ∈ diffLines path old new context, '\x1b' ∉ l.line := by
  refine notMem_shown rfl (by simp) (by simp [note]) hpath ?_
  rintro line (hline | hline) hx
  · exact hold (mem_of_mem_lines hline ((List.takeWhile_prefix _).subset hx))
  · exact hnew (mem_of_mem_lines hline ((List.takeWhile_prefix _).subset hx))

/-- A changed line is bold where two more of its marks and a space follow its mark. -/
theorem ofLine_changed {c : Char} {s : Style}
    (hheader : ∀ tail, Style.ofLine (c :: c :: c :: ' ' :: tail) = .bold)
    (hother : ∀ w, (∀ tail, w = c :: c :: ' ' :: tail → False) → Style.ofLine (c :: w) = s)
    (w : List Char) : Style.ofLine (c :: w) =
      if [c, c, c, ' '].isPrefixOf (c :: w) then .bold else s := by
  split
  · rename_i h
    obtain ⟨tail, htail⟩ := List.isPrefixOf_iff_prefix.1 h
    rw [← htail]
    exact hheader tail
  · rename_i h
    refine hother w fun tail heq => h ?_
    rw [heq]
    simp

/-- The style of a line is found by how it begins. -/
theorem ofLine_shown : ∀ l ∈ diffLines path old new context, Style.ofLine l.line = l.style := by
  refine forall_diffLines rfl rfl (fun _ => rfl) ?_ rfl
  intro mark line _
  cases mark with
  | context => rfl
  | removed =>
      have hstyle := ofLine_changed (fun _ => rfl) Style.ofLine.eq_5 (upToFeed line)
      simpa [DiffLine.style, DiffLine.posesAsHeader, Mark.char, LineKind.style] using hstyle
  | added =>
      have hstyle := ofLine_changed (fun _ => rfl) Style.ofLine.eq_4 (upToFeed line)
      simpa [DiffLine.style, DiffLine.posesAsHeader, Mark.char, LineKind.style] using hstyle

/-! ## Colours line by line -/

theorem feedLines_line (hw : '\n' ∉ w) (rest : List Char) :
    feedLines (w ++ '\n' :: rest) = (w, true) :: feedLines rest := by
  induction w with
  | nil => rfl
  | cons c w ih =>
      rw [List.mem_cons, not_or] at hw
      rw [List.cons_append, feedLines, ih hw.2]
      rintro rfl
      exact hw.1 rfl

theorem colourise_line (hw : '\n' ∉ w) (rest : List Char) : colourise (w ++ '\n' :: rest) =
    (Style.ofLine w).paint w ++ '\n' :: colourise rest := by
  rw [colourise, feedLines_line hw]
  simp [colourise]

/-- A text is coloured line by line. -/
theorem colourise_flatMap (hls : ∀ l ∈ ls, '\n' ∉ l.line) : colourise (ls.flatMap DiffLine.text) =
    ls.flatMap fun l => (Style.ofLine l.line).paint l.line ++ ['\n'] := by
  induction ls with
  | nil => rfl
  | cons l ls ih =>
      obtain ⟨hl, hls⟩ := List.forall_mem_cons.1 hls
      rw [List.flatMap_cons, List.flatMap_cons, ← ih hls, DiffLine.text, List.append_assoc]
      simpa using colourise_line hl (ls.flatMap DiffLine.text)

/-! ## Escapes taken out -/

theorem unescaped_append (hw : '\x1b' ∉ w) (rest : List Char) :
    unescaped false (w ++ rest) = w ++ unescaped false rest := by
  induction w with
  | nil => rfl
  | cons c w ih =>
      rw [List.mem_cons, not_or] at hw
      have hc : c ≠ '\x1b' := fun heq => hw.1 heq.symm
      simp [unescaped, hc, ih hw.2]

theorem unescaped_escape {code : List Char} (hcode : 'm' ∉ code) (rest : List Char) :
    unescaped false (escape code ++ rest) = unescaped false rest := by
  have hinside : unescaped true (code ++ 'm' :: rest) = unescaped false rest := by
    induction code with
    | nil => simp [unescaped]
    | cons c code ih =>
        rw [List.mem_cons, not_or] at hcode
        have hc : c ≠ 'm' := fun heq => hcode.1 heq.symm
        simp [unescaped, hc, ih hcode.2]
  simpa [escape, unescaped] using hinside

/-- A text in a style is the text again without the escapes. -/
theorem unescaped_paint (s : Style) (hw : '\x1b' ∉ w) (rest : List Char) :
    unescaped false (s.paint w ++ rest) = w ++ unescaped false rest := by
  have hescape : ∀ {a b : List Char}, 'm' ∉ a → 'm' ∉ b →
      unescaped false (escape a ++ w ++ escape b ++ rest) = w ++ unescaped false rest := by
    intro a b ha hb
    rw [List.append_assoc, List.append_assoc, unescaped_escape ha, unescaped_append hw,
      unescaped_escape hb]
  cases s with
  | plain => simpa [Style.paint, Style.on, Style.off] using unescaped_append hw rest
  | _ => exact hescape (by simp) (by simp)

theorem unescaped_flatMap (style : DiffLine → Style) (hls : ∀ l ∈ ls, '\x1b' ∉ l.line) :
    unescaped false (ls.flatMap fun l => (style l).paint l.line ++ ['\n']) =
      ls.flatMap DiffLine.text := by
  induction ls with
  | nil => rfl
  | cons l ls ih =>
      obtain ⟨hl, hls⟩ := List.forall_mem_cons.1 hls
      have hfeed : '\x1b' ∉ ['\n'] := by simp
      rw [List.flatMap_cons, List.flatMap_cons, List.append_assoc, unescaped_paint _ hl,
        unescaped_append hfeed, ih hls, DiffLine.text, List.append_assoc]

/-- The colours of the diff of two texts whose lines all end in line feeds, where neither they nor the
path have escapes in them.  Without its escapes the coloured diff is the diff.  File headers are bold,
headers of hunks cyan, added lines green, removed lines red and all others plain, but a removed line
that begins with two dashes and a space is bold, and so is an added line that begins with two pluses
and a space. -/
theorem coloured_by_kind {path : String} (hpath : '\n' ∉ path.toList) (hold : '\r' ∉ old)
    (hnew : '\r' ∉ new) (hescape : '\x1b' ∉ path.toList ∧ '\x1b' ∉ old ∧ '\x1b' ∉ new)
    (context : Nat) :
    (diffLines path.toList old new context).flatMap DiffLine.text =
        (unified path old new context).1.toList ∧
      unescaped false (colourise (unified path old new context).1.toList) =
        (unified path old new context).1.toList ∧
      colourise (unified path old new context).1.toList =
        (diffLines path.toList old new context).flatMap fun l => l.style.paint l.line ++ ['\n'] := by
  have htext := flatMap_diffLines path hold hnew context
  have hcolours : colourise (unified path old new context).1.toList =
      (diffLines path.toList old new context).flatMap fun l => l.style.paint l.line ++ ['\n'] := by
    rw [← htext, colourise_flatMap (feed_notMem hpath)]
    refine List.flatMap_congr fun l hl => ?_
    rw [ofLine_shown l hl]
  refine ⟨htext, ?_, hcolours⟩
  rw [hcolours, unescaped_flatMap _ (escape_notMem hescape.1 hescape.2.1 hescape.2.2), htext]

/-- The colours of the diff between two texts of which the last line begins with two dashes and a space
and does not end. -/
theorem coloured_by_kind_of_dashes :
    '\n' ∉ "a.py".toList ∧ '\r' ∉ "x\n-- f(a=1)".toList ∧ '\r' ∉ "x\n-- f(b=1)".toList ∧
      ('\x1b' ∉ "a.py".toList ∧ '\x1b' ∉ "x\n-- f(a=1)".toList ∧
        '\x1b' ∉ "x\n-- f(b=1)".toList) ∧
      colourise (unified "a.py" "x\n-- f(a=1)".toList "x\n-- f(b=1)".toList 1).1.toList =
        ("\x1b[1m--- a.py\x1b[0m\n\x1b[1m+++ a.py\x1b[0m\n\x1b[36m@@ -1,2 +1,2 @@\x1b[39m\n x\n" ++
          "\x1b[1m--- f(a=1)\x1b[0m\n\\ No newline at end of file\n" ++
          "\x1b[32m+-- f(b=1)\x1b[39m\n\\ No newline at end of file\n").toList := by
  have hpath : '\n' ∉ "a.py".toList := by decide
  have hold : '\r' ∉ "x\n-- f(a=1)".toList := by decide
  have hnew : '\r' ∉ "x\n-- f(b=1)".toList := by decide
  have hescape : '\x1b' ∉ "a.py".toList ∧ '\x1b' ∉ "x\n-- f(a=1)".toList ∧
      '\x1b' ∉ "x\n-- f(b=1)".toList := by decide
  obtain ⟨-, -, hcolours⟩ := coloured_by_kind hpath hold hnew hescape 1
  refine ⟨hpath, hold, hnew, hescape, ?_⟩
  rw [hcolours]
  decide +kernel

/-- Colours by kind would make the last line of this diff red.  It is a removed line, but it looks like
a file header and is bold. -/
theorem removed_line_bold :
    (diffLines ['a'] "-- x\n".toList [] 5).getLast? = some ⟨.body .removed, "--- x".toList⟩ ∧
      colourise (unified "a" "-- x\n".toList [] 5).1.toList =
        ("\x1b[1m--- a\x1b[0m\n\x1b[1m+++ a\x1b[0m\n\x1b[36m@@ -1 +0,0 @@\x1b[39m\n" ++
          "\x1b[1m--- x\x1b[0m\n").toList ∧
      colourise (unified "a" "-- x\n".toList [] 5).1.toList ≠
        (diffLines ['a'] "-- x\n".toList [] 5).flatMap fun l =>
          l.kind.style.paint l.line ++ ['\n'] := by
  decide +kernel

end Longhand.Diff
