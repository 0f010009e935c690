/-!
# Byte offsets in a text

A text is a list of characters and a place in it is a byte offset of its UTF-8 form.  Offsets that
fall inside a character name no place, so cutting a text at an offset can fail.  The main statement
says that a cut loses nothing and falls where the offset says.
-/

namespace Longhand.Text

/-- The length in bytes of the UTF-8 form of a text. -/
def byteSize : List Char → Nat
  | [] => 0
  | c :: rest => c.utf8Size + byteSize rest

@[simp] theorem byteSize_nil : byteSize [] = 0 := rfl

@[simp] theorem byteSize_cons (c : Char) (rest : List Char) :
    byteSize (c :: rest) = c.utf8Size + byteSize rest := rfl

@[simp] theorem byteSize_append (a b : List Char) :
    byteSize (a ++ b) = byteSize a + byteSize b := by
  induction a with
  | nil => simp
  | cons c rest ih => simp [ih, Nat.add_assoc]

/-- The two parts of a text before and after a byte offset.  There are none when the offset lies
outside the text or inside a character. -/
def splitAt? : List Char → Nat → Option (List Char × List Char)
  | cs, 0 => some ([], cs)
  | [], _ + 1 => none
  | c :: cs, n + 1 =>
      if c.utf8Size ≤ n + 1 then
        (splitAt? cs (n + 1 - c.utf8Size)).map fun (before, after) => (c :: before, after)
      else none

@[simp] theorem splitAt?_zero (cs : List Char) : splitAt? cs 0 = some ([], cs) := by
  cases cs <;> rfl

/-- A text is cut between any two parts of it. -/
theorem splitAt?_append (before after : List Char) :
    splitAt? (before ++ after) (byteSize before) = some (before, after) := by
  induction before with
  | nil => exact splitAt?_zero after
  | cons c rest ih =>
      obtain ⟨n, hn⟩ : ∃ n, byteSize (c :: rest) = n + 1 :=
        Nat.exists_eq_add_one.2 (Nat.add_pos_left c.utf8Size_pos _)
      have hle : c.utf8Size ≤ n + 1 := by
        rw [← hn]
        exact Nat.le_add_right _ _
      have hrest : n + 1 - c.utf8Size = byteSize rest := by
        rw [← hn]
        exact Nat.add_sub_cancel_left _ _
      rw [hn, List.cons_append, splitAt?, if_pos hle, hrest, ih]
      rfl

/-- A cut loses nothing and falls at its offset. -/
theorem eq_append_of_splitAt? {cs : List Char} {n : Nat} {before after : List Char}
    (h : splitAt? cs n = some (before, after)) : cs = before ++ after ∧ byteSize before = n := by
  induction cs generalizing n before with
  | nil =>
      cases n with
      | zero =>
          cases h
          exact ⟨rfl, rfl⟩
      | succ n => cases h
  | cons c cs ih =>
      cases n with
      | zero =>
          cases h
          exact ⟨rfl, rfl⟩
      | succ n =>
          rw [splitAt?] at h
          split at h
          · rename_i hle
            obtain ⟨⟨front, back⟩, hcut, hparts⟩ := Option.map_eq_some_iff.1 h
            obtain ⟨rfl, rfl⟩ := Prod.mk.inj hparts
            obtain ⟨rfl, hsize⟩ := ih hcut
            refine ⟨rfl, ?_⟩
            rw [byteSize_cons, hsize]
            omega
          · cases h

/-- A cut loses nothing and falls at its offset, and every split of a text is a cut. -/
theorem splitAt?_eq_some_iff {cs : List Char} {n : Nat} {before after : List Char} :
    splitAt? cs n = some (before, after) ↔ cs = before ++ after ∧ byteSize before = n := by
  constructor
  · exact eq_append_of_splitAt?
  · rintro ⟨rfl, rfl⟩
    exact splitAt?_append before after

/-- A half-open range of byte offsets. -/
structure Span where
  start : Nat
  stop : Nat
  deriving Repr, DecidableEq, Inhabited

/-- Whether an offset lies in a span.  The stop is outside. -/
def Span.contains (s : Span) (offset : Nat) : Bool :=
  s.start ≤ offset && offset < s.stop

/-- The part of a text that a span covers.  There is none when the span runs backwards, leaves the
text or cuts a character. -/
def slice? (cs : List Char) (s : Span) : Option (List Char) :=
  if s.start ≤ s.stop then
    match splitAt? cs s.start with
    | none => none
    | some (_, rest) => (splitAt? rest (s.stop - s.start)).map Prod.fst
  else none

/-- A line and a column, both counted from one.  The column is counted in bytes. -/
structure Position where
  line : Nat
  column : Nat
  deriving Repr, DecidableEq, Inhabited

/-- The position some bytes further on.  Only a line feed begins a new line. -/
def Position.advance (p : Position) : List Char → Nat → Position
  | [], _ => p
  | _ :: _, 0 => p
  | c :: rest, n + 1 =>
      let next : Position :=
        if c == '\n' then ⟨p.line + 1, 1⟩ else ⟨p.line, p.column + c.utf8Size⟩
      next.advance rest (n + 1 - c.utf8Size)

/-- The position of a byte offset of a text. -/
def positionAt (cs : List Char) (offset : Nat) : Position :=
  Position.advance ⟨1, 1⟩ cs offset

end Longhand.Text
