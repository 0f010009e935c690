import Longhand.Proofs.Applied

/-!
# Diffs read back

A reader of unified diffs gets back the hunks that were printed.  The text is cut into lines as the
compared texts are, after each line feed, each carriage return with a line feed and each lone carriage
return; a note after a line takes its line feed away.  Applied to the old text the hunks that are read
make the new one.
-/

namespace Longhand.Diff

/-! ## Reading -/

/-- A number at the front of a text, and the text behind it. -/
def readNumber (cs : List Char) : Option (Nat × List Char) :=
  let digits := cs.takeWhile (·.isDigit)
  if digits.isEmpty then none
  else some (Nat.ofDigitChars 10 digits 0, cs.dropWhile (·.isDigit))

/-- A range at the front of a text, and the text behind it.  A range names its first line, or the line
before it if it has none, and then the number of its lines, if it is not one. -/
def readRange (cs : List Char) : Option (Range × List Char) :=
  match readNumber cs with
  | none => none
  | some (n, ',' :: rest) =>
      (readNumber rest).map fun p => (⟨if p.1 = 0 then n else n - 1, p.1⟩, p.2)
  | some (n, rest) => some (⟨n - 1, 1⟩, rest)

/-- The ranges of a hunk header, where the old one is known. -/
def readNewRange (old : Range) : List Char → Option (Range × Range)
  | ' ' :: '+' :: cs =>
      (readRange cs).bind fun p => if p.2 = [' ', '@', '@', '\n'] then some (old, p.1) else none
  | _ => none

/-- The ranges of a hunk header. -/
def readHeader : List Char → Option (Range × Range)
  | '@' :: '@' :: ' ' :: '-' :: cs => (readRange cs).bind fun p => readNewRange p.1 p.2
  | _ => none

/-- The mark that a line of a hunk begins with. -/
def Mark.ofChar? : Char → Option Mark
  | ' ' => some .context
  | '-' => some .removed
  | '+' => some .added
  | _ => none

/-- Whether a note follows that a line has no end. -/
def startsNote : List (List Char) → Bool
  | ('\\' :: _) :: _ => true
  | _ => false

/-- A line put before the body lines that follow up to a header and the hunks from there on. -/
def readLine (line : List Char) (rest : List (List Char)) (p : List BodyLine × List Chunk) :
    Option (List BodyLine × List Chunk) :=
  match line with
  | '@' :: _ => (readHeader line).map fun ranges => ([], ⟨ranges.1, ranges.2, p.1⟩ :: p.2)
  | '\\' :: _ => some p
  | c :: text =>
      (Mark.ofChar? c).map fun mark =>
        (⟨mark, if startsNote rest then text.dropLast else text⟩ :: p.1, p.2)
  | [] => none

/-- The body lines before the first header, and the hunks from there on. -/
def readHunks : List (List Char) → Option (List BodyLine × List Chunk)
  | [] => some ([], [])
  | line :: rest => (readHunks rest).bind (readLine line rest)

/-- The hunks of a diff of one file. -/
def readDiff (text : List Char) : Option (List Chunk) :=
  match lines text with
  | ('-' :: '-' :: '-' :: ' ' :: _) :: ('+' :: '+' :: '+' :: ' ' :: _) :: rest =>
      (readHunks rest).bind fun p => if p.1.isEmpty then some p.2 else none
  | _ => none

/-! ## Lines -/

variable {cs w e rest l : List Char} {ls : List (List Char)} {n : Nat}

/-- Whether a text has no line end. -/
def Unbroken (cs : List Char) : Prop :=
  ∀ c ∈ cs, c ≠ '\n' ∧ c ≠ '\r'

/-- The ends of lines. -/
inductive LineEnd : List Char → Prop
  | feed : LineEnd ['\n']
  | pair : LineEnd ['\r', '\n']
  | carriage : LineEnd ['\r']

theorem unbroken_cons {c : Char} : Unbroken (c :: cs) ↔ (c ≠ '\n' ∧ c ≠ '\r') ∧ Unbroken cs := by
  simp [Unbroken]

theorem unbroken_append : Unbroken (w ++ cs) ↔ Unbroken w ∧ Unbroken cs :=
  List.forall_mem_append

theorem lines_cons {c : Char} (hc : c ≠ '\n' ∧ c ≠ '\r') (cs : List Char) :
    lines (c :: cs) = consLine c (lines cs) :=
  lines.eq_5 c cs (by simp [hc.1]) (by simp [hc.2]) (by simp [hc.2])

/-- A text without line ends in front of another one belongs to its first line. -/
theorem lines_append (hw : Unbroken w) (hcs : lines cs = l :: ls) :
    lines (w ++ cs) = (w ++ l) :: ls := by
  induction w with
  | nil => exact hcs
  | cons c w ih =>
      obtain ⟨hc, hw⟩ := unbroken_cons.1 hw
      rw [List.cons_append, lines_cons hc, ih hw]
      rfl

/-- A line end ends a line, if no line feed follows. -/
theorem lines_end (he : LineEnd e) (hrest : rest.head? ≠ some '\n') :
    lines (e ++ rest) = e :: lines rest := by
  cases he with
  | feed => rfl
  | pair => rfl
  | carriage =>
      cases rest with
      | nil => rfl
      | cons d rest =>
          have hd : d ≠ '\n' := by simpa using hrest
          exact lines.eq_4 (d :: rest) (by simp [hd])

/-- A line of a text is a text without line ends, followed by one unless it is the last line. -/
theorem exists_of_mem_lines (h : l ∈ lines cs) :
    ∃ w e, l = w ++ e ∧ Unbroken w ∧ (LineEnd e ∨ e = [] ∧ w ≠ []) := by
  fun_induction lines cs generalizing l with
  | case1 => cases h
  | case2 rest ih =>
      rcases List.mem_cons.1 h with rfl | h
      · exact ⟨[], _, rfl, by simp [Unbroken], .inl .feed⟩
      · exact ih h
  | case3 rest ih =>
      rcases List.mem_cons.1 h with rfl | h
      · exact ⟨[], _, rfl, by simp [Unbroken], .inl .pair⟩
      · exact ih h
  | case4 rest hne ih =>
      rcases List.mem_cons.1 h with rfl | h
      · exact ⟨[], _, rfl, by simp [Unbroken], .inl .carriage⟩
      · exact ih h
  | case5 c rest hfeed hpair hreturn ih =>
      have hc : c ≠ '\n' ∧ c ≠ '\r' := ⟨by simpa using hfeed, by simpa using hreturn⟩
      cases hrest : lines rest with
      | nil =>
          rw [hrest] at h
          obtain rfl : l = [c] := by simpa [consLine] using h
          exact ⟨[c], [], rfl, unbroken_cons.2 ⟨hc, by simp [Unbroken]⟩, .inr ⟨rfl, by simp⟩⟩
      | cons first more =>
          rw [hrest, consLine] at h
          rw [hrest] at ih
          rcases List.mem_cons.1 h with rfl | h
          · obtain ⟨w, e, rfl, hw, he⟩ := ih List.mem_cons_self
            refine ⟨c :: w, e, rfl, unbroken_cons.2 ⟨hc, hw⟩, he.imp_right fun h => ⟨h.1, ?_⟩⟩
            exact List.cons_ne_nil c w
          · exact ih (List.mem_cons_of_mem _ h)

theorem isTerminated_append (he : LineEnd e) (w : List Char) : isTerminated (w ++ e) = true := by
  cases he <;> simp [isTerminated]

theorem isTerminated_of_unbroken (hw : Unbroken w) : isTerminated w = false := by
  unfold isTerminated
  split
  · rename_i c hc
    have hbreak := hw c (List.mem_of_getLast? hc)
    simp [hbreak]
  · rfl

/-! ## Bodies -/

/-- The note after a line without its end. -/
def note : List Char :=
  ['\\', ' ', 'N', 'o', ' ', 'n', 'e', 'w', 'l', 'i', 'n', 'e', ' ', 'a', 't', ' ', 'e', 'n', 'd',
    ' ', 'o', 'f', ' ', 'f', 'i', 'l', 'e', '\n']

theorem noEndOfLine_eq : noEndOfLine = ['\n'] ++ note := by
  unfold noEndOfLine note
  simp

theorem lines_note (hrest : rest.head? ≠ some '\n') : lines (note ++ rest) = note :: lines rest := by
  have hunbroken : Unbroken note.dropLast := by
    simp [Unbroken, note]
  have hnote : note = note.dropLast ++ ['\n'] := rfl
  rw [hnote, List.append_assoc]
  exact lines_append hunbroken (lines_end .feed hrest)

/-- The lines of a diff that show a line of a text. -/
def BodyLine.rows (b : BodyLine) : List (List Char) :=
  if isTerminated b.line then [b.mark.char :: b.line]
  else [b.mark.char :: (b.line ++ ['\n']), note]

theorem unbroken_mark (m : Mark) (hw : Unbroken w) : Unbroken (m.char :: w) := by
  rw [unbroken_cons]
  refine ⟨?_, hw⟩
  cases m <;> simp [Mark.char]

theorem lines_text {b : BodyLine} (hb : b.line ∈ lines cs) (hrest : rest.head? ≠ some '\n') :
    lines (b.text ++ rest) = b.rows ++ lines rest := by
  obtain ⟨m, line⟩ := b
  obtain ⟨w, e, rfl, hw, he | ⟨rfl, -⟩⟩ := exists_of_mem_lines hb
  · have hline := lines_append (unbroken_mark m hw) (lines_end he hrest)
    simp only [BodyLine.text, BodyLine.rows, isTerminated_append he, if_true, List.append_nil]
    simpa using hline
  · have hfeed : (note ++ rest).head? ≠ some '\n' := by simp [note]
    have hline := lines_append (unbroken_mark m hw) (lines_end .feed hfeed)
    rw [lines_note hrest] at hline
    simp only [List.append_nil, BodyLine.text, BodyLine.rows, isTerminated_of_unbroken hw,
      Bool.false_eq_true, if_false, noEndOfLine_eq]
    simpa using hline

theorem readHunks_note (ls : List (List Char)) : readHunks (note :: ls) = readHunks ls := by
  rw [readHunks]
  cases readHunks ls <;> rfl

/-- A line with a mark is read to the line. -/
theorem readLine_mark (m : Mark) (text : List Char) (p : List BodyLine × List Chunk) :
    readLine (m.char :: text) ls p =
      some (⟨m, if startsNote ls then text.dropLast else text⟩ :: p.1, p.2) := by
  cases m <;> rfl

/-- The rows of a body line are read to it, unless a note follows that is not its own. -/
theorem readHunks_rows (b : BodyLine) (hls : startsNote ls = false) :
    readHunks (b.rows ++ ls) = (readHunks ls).map fun p => (b :: p.1, p.2) := by
  obtain ⟨m, line⟩ := b
  have hone : ∀ (text : List Char) (ls : List (List Char)),
      (if startsNote ls then text.dropLast else text) = line →
        readHunks ((m.char :: text) :: ls) = (readHunks ls).map fun p => (⟨m, line⟩ :: p.1, p.2) := by
    intro text ls htext
    rw [readHunks]
    cases readHunks ls with
    | none => rfl
    | some p => rw [Option.bind_some, readLine_mark, htext, Option.map_some]
  unfold BodyLine.rows
  split
  · exact hone line ls (by rw [hls]; rfl)
  · rw [← readHunks_note ls]
    apply hone (line ++ ['\n']) (note :: ls)
    show (line ++ ['\n']).dropLast = line
    simp

/-- Whether what follows a line of a body neither belongs to its end nor is a note. -/
def Fresh (cs : List Char) : Prop :=
  ∀ c ∈ cs.head?, c ≠ '\n' ∧ c ≠ '\\'

theorem head?_lines (cs : List Char) : (lines cs).head?.bind List.head? = cs.head? := by
  fun_induction lines cs with
  | case5 c rest => cases lines rest <;> rfl
  | _ => rfl

theorem Fresh.startsNote (h : Fresh cs) : startsNote (lines cs) = false := by
  have hhead := head?_lines cs
  unfold Diff.startsNote
  split
  · rename_i text ls hlines
    rw [hlines] at hhead
    exact absurd rfl (h '\\' hhead.symm).2
  · rfl

theorem fresh_text (b : BodyLine) (rest : List Char) : Fresh (b.text ++ rest) := by
  obtain ⟨m, line⟩ := b
  rintro c ⟨⟩
  cases m <;> simp [Mark.char]

/-- The text of a body is read to the body. -/
theorem readHunks_body {body : List BodyLine} (hbody : ∀ b ∈ body, ∃ cs, b.line ∈ lines cs)
    (hrest : Fresh rest) : readHunks (lines (body.flatMap BodyLine.text ++ rest)) =
      (readHunks (lines rest)).map fun p => (body ++ p.1, p.2) := by
  induction body with
  | nil => simp
  | cons b body ih =>
      obtain ⟨cs, hb⟩ := hbody b List.mem_cons_self
      have hfresh : Fresh (body.flatMap BodyLine.text ++ rest) := by
        cases body with
        | nil => exact hrest
        | cons b' body =>
            rw [List.flatMap_cons, List.append_assoc]
            exact fresh_text b' _
      rw [List.flatMap_cons, List.append_assoc, lines_text hb fun h => (hfresh _ h).1 rfl,
        readHunks_rows b hfresh.startsNote, ih fun b' hb' => hbody b' (List.mem_cons_of_mem _ hb'),
        Option.map_map]
      rfl

/-! ## Headers -/

theorem readNumber_digits {c : Char} (hc : c.isDigit = false) (n : Nat) :
    readNumber (Nat.toDigits 10 n ++ c :: rest) = some (n, c :: rest) := by
  have hdigits : ∀ d ∈ Nat.toDigits 10 n, d.isDigit = true :=
    fun d hd => Nat.isDigit_of_mem_toDigits (by omega) (by omega) hd
  have htake : (Nat.toDigits 10 n ++ c :: rest).takeWhile (·.isDigit) = Nat.toDigits 10 n := by
    rw [List.takeWhile_append_of_pos hdigits]
    simp [hc]
  have hdrop : (Nat.toDigits 10 n ++ c :: rest).dropWhile (·.isDigit) = c :: rest := by
    rw [List.dropWhile_append_of_pos hdigits]
    simp [hc]
  rw [readNumber, htake, hdrop, Nat.ofDigitChars_ten_toDigits, if_neg]
  simp [Nat.toDigits_ne_nil]

theorem readRange_one {c : Char} (hc : c.isDigit = false) (hcomma : c ≠ ',') (n : Nat) :
    readRange (Nat.toDigits 10 n ++ c :: rest) = some (⟨n - 1, 1⟩, c :: rest) := by
  unfold readRange
  rw [readNumber_digits hc]
  split
  · rename_i heq
    cases heq
  · rename_i heq
    simp only [Option.some.injEq, Prod.mk.injEq, List.cons.injEq] at heq
    exact absurd heq.2.1 hcomma
  · rename_i heq
    cases heq
    rfl

theorem readRange_comma {c : Char} (hc : c.isDigit = false) (n size : Nat) :
    readRange (Nat.toDigits 10 n ++ ',' :: (Nat.toDigits 10 size ++ c :: rest)) =
      some (⟨if size = 0 then n else n - 1, size⟩, c :: rest) := by
  unfold readRange
  rw [readNumber_digits rfl]
  show (readNumber (Nat.toDigits 10 size ++ c :: rest)).map _ = _
  rw [readNumber_digits hc]
  rfl

/-- A range is read to the place where it starts and the number of its lines. -/
theorem readRange_rangeText {c : Char} (hc : c.isDigit = false) (hcomma : c ≠ ',')
    (start stop : Nat) : readRange (rangeText start stop ++ c :: rest) =
      some (⟨start, stop - start⟩, c :: rest) := by
  unfold rangeText
  split
  · rename_i hone
    rw [readRange_one hc hcomma, hone, Nat.add_sub_cancel]
  split
  · rename_i hnone
    rw [hnone, List.append_assoc]
    exact readRange_comma hc start 0
  · rename_i hnone
    rw [List.append_assoc, List.cons_append, readRange_comma hc, if_neg hnone, Nat.add_sub_cancel]

theorem headerText_eq (first last : Region) : headerText first last =
    '@' :: '@' :: ' ' :: '-' :: (rangeText first.old (last.old + last.oldSize) ++
      ' ' :: '+' :: (rangeText first.new (last.new + last.newSize) ++ [' ', '@', '@', '\n'])) := by
  have hold : "@@ -".toList = ['@', '@', ' ', '-'] := rfl
  have hnew : " +".toList = [' ', '+'] := rfl
  have hend : " @@\n".toList = [' ', '@', '@', '\n'] := rfl
  show "@@ -".toList ++ _ ++ " +".toList ++ _ ++ " @@\n".toList = _
  rw [hold, hnew, hend]
  simp only [List.append_assoc, List.cons_append, List.nil_append]

theorem readHeader_headerText (first last : Region) : readHeader (headerText first last) =
    some (⟨first.old, last.old + last.oldSize - first.old⟩,
      ⟨first.new, last.new + last.newSize - first.new⟩) := by
  rw [headerText_eq]
  show (readRange (rangeText _ _ ++ ' ' :: _)).bind _ = _
  rw [readRange_rangeText rfl (by decide)]
  show (readRange (rangeText _ _ ++ [' ', '@', '@', '\n'])).bind _ = _
  rw [readRange_rangeText rfl (by decide)]
  rfl

theorem unbroken_digits (n : Nat) : Unbroken (Nat.toDigits 10 n) := by
  intro c hc
  have hdigit := Nat.isDigit_of_mem_toDigits (by omega) (by omega) hc
  constructor <;> rintro rfl <;> simp at hdigit

theorem unbroken_rangeText (start stop : Nat) : Unbroken (rangeText start stop) := by
  unfold rangeText
  split
  · exact unbroken_digits _
  split
  · exact unbroken_append.2 ⟨unbroken_digits _, by simp [Unbroken]⟩
  · exact unbroken_append.2 ⟨unbroken_digits _, unbroken_cons.2 ⟨by simp, unbroken_digits _⟩⟩

/-- A hunk header is a line. -/
theorem lines_headerText (first last : Region) (hrest : rest.head? ≠ some '\n') :
    lines (headerText first last ++ rest) = headerText first last :: lines rest := by
  have hunbroken : Unbroken ('@' :: '@' :: ' ' :: '-' ::
      (rangeText first.old (last.old + last.oldSize) ++
        ' ' :: '+' :: (rangeText first.new (last.new + last.newSize) ++ [' ', '@', '@']))) := by
    simp only [unbroken_cons, unbroken_append, unbroken_rangeText]
    simp [Unbroken]
  have hline := lines_append hunbroken (lines_end .feed hrest)
  rw [headerText_eq]
  simpa using hline

/-! ## Diffs -/

theorem fileHeader_eq (path : List Char) : fileHeader path =
    '-' :: '-' :: '-' :: ' ' :: (path ++ '\n' :: '+' :: '+' :: '+' :: ' ' :: (path ++ ['\n'])) := by
  have hold : "--- ".toList = ['-', '-', '-', ' '] := rfl
  have hnew : "\n+++ ".toList = ['\n', '+', '+', '+', ' '] := rfl
  show "--- ".toList ++ path ++ "\n+++ ".toList ++ path ++ ['\n'] = _
  rw [hold, hnew]
  simp only [List.append_assoc, List.cons_append, List.nil_append]

/-- The two lines that name the file. -/
theorem lines_fileHeader {path : List Char} (hpath : Unbroken path)
    (hrest : rest.head? ≠ some '\n') : lines (fileHeader path ++ rest) =
      ('-' :: '-' :: '-' :: ' ' :: (path ++ ['\n'])) ::
        ('+' :: '+' :: '+' :: ' ' :: (path ++ ['\n'])) :: lines rest := by
  have hname : ∀ mark : Char, mark ≠ '\n' ∧ mark ≠ '\r' →
      Unbroken (mark :: mark :: mark :: ' ' :: path) := by
    intro mark hmark
    simp [unbroken_cons, hmark, hpath]
  have hhead : ('+' :: '+' :: '+' :: ' ' :: (path ++ ('\n' :: rest))).head? ≠ some '\n' := by
    simp
  have hfirst := lines_append (hname '-' (by simp)) (lines_end .feed hhead)
  have hsecond := lines_append (hname '+' (by simp)) (lines_end .feed hrest)
  simp only [List.cons_append, List.nil_append] at hfirst hsecond
  rw [hsecond] at hfirst
  rw [fileHeader_eq]
  simp only [List.append_assoc, List.cons_append, List.nil_append]
  exact hfirst

variable {old new : Array (List Char)} {h : Hunk} {hs : List Hunk}

theorem line_mem_of_mem_marked {mark : Mark} {ls : Array (List Char)} {start size : Nat} {b : BodyLine}
    (hb : b ∈ marked mark ls start size) : b.line ∈ ls.toList := by
  obtain ⟨line, hline, rfl⟩ := List.mem_map.1 hb
  exact List.mem_of_mem_drop (List.mem_of_mem_take hline)

/-- The lines of a hunk are lines of the texts that are compared. -/
theorem line_mem_of_mem_body {b : BodyLine} (hb : b ∈ Hunk.body old new h) :
    b.line ∈ old.toList ∨ b.line ∈ new.toList := by
  obtain ⟨r, -, hr⟩ := List.mem_flatMap.1 hb
  unfold Region.body at hr
  split at hr
  · exact .inl (line_mem_of_mem_marked hr)
  · rcases List.mem_append.1 hr with hr | hr
    · exact .inl (line_mem_of_mem_marked hr)
    · exact .inr (line_mem_of_mem_marked hr)

theorem Hunk.text_of_none (hc : Hunk.chunk old new h = none) : Hunk.text old new h = [] := by
  unfold Hunk.text
  rw [Hunk.chunk_eq_none hc]
  split
  · rename_i hbody
    cases hbody
  · rfl

theorem Hunk.text_of_some {c : Chunk} (hc : Hunk.chunk old new h = some c) :
    ∃ first last, Hunk.text old new h = headerText first last ++ c.body.flatMap BodyLine.text ∧
      readHeader (headerText first last) = some (c.old, c.new) := by
  unfold Hunk.chunk at hc
  split at hc
  · rename_i first last l ls hfirst hlast hbody
    cases hc
    refine ⟨first, last, ?_, readHeader_headerText first last⟩
    rw [Hunk.text, hfirst, hlast, hbody]
  · cases hc

theorem fresh_hunks (hs : List Hunk) : Fresh (hs.flatMap (Hunk.text old new)) := by
  induction hs with
  | nil => simp [Fresh]
  | cons h hs ih =>
      rw [List.flatMap_cons]
      cases hc : Hunk.chunk old new h with
      | none => rwa [Hunk.text_of_none hc]
      | some c =>
          obtain ⟨first, last, htext, -⟩ := Hunk.text_of_some hc
          rw [htext, headerText_eq]
          rintro c ⟨⟩
          simp

/-- The text of some hunks is read to them as they are applied. -/
theorem readHunks_hunks {o n : List Char} (hold : old = (lines o).toArray)
    (hnew : new = (lines n).toArray) (hs : List Hunk) :
    readHunks (lines (hs.flatMap (Hunk.text old new))) =
      some ([], hs.filterMap (Hunk.chunk old new)) := by
  induction hs with
  | nil => rfl
  | cons h hs ih =>
      rw [List.flatMap_cons]
      cases hc : Hunk.chunk old new h with
      | none => rw [Hunk.text_of_none hc, List.nil_append, List.filterMap_cons_none hc, ih]
      | some c =>
          obtain ⟨first, last, htext, hheader⟩ := Hunk.text_of_some hc
          have hbody : ∀ b ∈ c.body, ∃ cs, b.line ∈ lines cs := by
            intro b hb
            rw [(Hunk.chunk_eq_some hc).1] at hb
            rcases line_mem_of_mem_body hb with hmem | hmem
            · exact ⟨o, by simpa [hold] using hmem⟩
            · exact ⟨n, by simpa [hnew] using hmem⟩
          have hfresh : (c.body.flatMap BodyLine.text ++
              hs.flatMap (Hunk.text old new)).head? ≠ some '\n' := by
            intro hhead
            cases hlines : c.body with
            | nil =>
                rw [hlines] at hhead
                exact (fresh_hunks hs _ hhead).1 rfl
            | cons b body =>
                rw [hlines, List.flatMap_cons, List.append_assoc] at hhead
                exact (fresh_text b _ _ hhead).1 rfl
          rw [htext, List.append_assoc, lines_headerText first last hfresh, readHunks,
            readHunks_body hbody (fresh_hunks hs), ih, List.filterMap_cons_some hc]
          have hat : ∃ more, headerText first last = '@' :: more := ⟨_, headerText_eq first last⟩
          obtain ⟨more, hmore⟩ := hat
          rw [hmore] at hheader ⊢
          simp [readLine, hheader]

/-- What the hunks of a diff make of a text. -/
def applyTo (strict : Bool) (cs : List Chunk) (old : List Char) : Option (List Char) :=
  (patch strict 0 0 cs (lines old)).map List.flatten

theorem lines_inj {a b : List Char} : lines a = lines b ↔ a = b := by
  constructor
  · intro h
    rw [← flatten_lines a, h, flatten_lines]
  · exact congrArg lines

end Longhand.Diff
