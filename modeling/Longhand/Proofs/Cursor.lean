import Longhand.Proofs.Layout

/-!
# Two cursors in one draft

Cursors at one place of the two texts of a draft stay at one place when they move over blanks, and
they meet the same layout there.
-/

namespace Longhand

open Syntax Text

namespace Draft

variable {g : Draft} {c c' : Cursor}

/-! ## Stretches that a test passes or stops at -/

theorem drop_length_takeWhile (p : Char → Bool) (cs : List Char) :
    cs.drop (cs.takeWhile p).length = cs.dropWhile p := by
  induction cs with
  | nil => rfl
  | cons c cs ih =>
      by_cases h : p c = true
      · simp [List.takeWhile_cons_of_pos h, List.dropWhile_cons_of_pos h, ih]
      · simp [List.takeWhile_cons_of_neg h, List.dropWhile_cons_of_neg h]

/-- A test that holds of no first character of a name stops before the first marked name. -/
theorem takeWhile_stops {fuel : Nat} {free : Bool} {p : Char → Bool}
    (hp : ∀ c, isIdentifierStart c = true → p c = false) {todo : List Part}
    (h : Sound fuel free todo) :
    ∃ cs rest, todo = cs.map Part.kept ++ rest ∧ (before todo).takeWhile p = cs ∧
      (after todo).takeWhile p = cs := by
  induction todo generalizing free with
  | nil => exact ⟨[], [], rfl, rfl, rfl⟩
  | cons q todo ih =>
      cases q with
      | renamed old new =>
          obtain ⟨-, hold, hnew, -, -⟩ := h
          obtain ⟨x, xs, rfl, hx, -⟩ := exists_of_isPlainName hold
          obtain ⟨y, ys, rfl, hy, -⟩ := exists_of_isPlainName hnew
          refine ⟨[], _, rfl, ?_, ?_⟩
          · simp [hp x hx]
          · simp [hp y hy]
      | kept c =>
          by_cases hc : p c = true
          · obtain ⟨cs, rest, rfl, hbefore, hafter⟩ := ih h
            refine ⟨c :: cs, rest, rfl, ?_, ?_⟩
            · rw [before_kept, List.takeWhile_cons_of_pos hc, hbefore]
            · rw [after_kept, List.takeWhile_cons_of_pos hc, hafter]
          · refine ⟨[], _, rfl, ?_, ?_⟩
            · rw [before_kept, List.takeWhile_cons_of_neg hc]
            · rw [after_kept, List.takeWhile_cons_of_neg hc]

/-- A test that holds of all characters of names passes marked names as a whole. -/
theorem takeWhile_passes {fuel : Nat} {free : Bool} {p : Char → Bool}
    (hp : ∀ c, isNameChar c = true → p c = true) {todo : List Part} (h : Sound fuel free todo) :
    ∃ mid rest, todo = mid ++ rest ∧ (before todo).takeWhile p = before mid ∧
      (after todo).takeWhile p = after mid ∧
      (rest = [] ∨ ∃ c more, rest = .kept c :: more ∧ p c = false) := by
  induction todo generalizing free with
  | nil => exact ⟨[], [], rfl, rfl, rfl, .inl rfl⟩
  | cons q todo ih =>
      cases q with
      | renamed old new =>
          obtain ⟨-, hold, hnew, -, hrest⟩ := h
          obtain ⟨mid, rest, rfl, hbefore, hafter, hstop⟩ := ih hrest
          refine ⟨.renamed old new :: mid, rest, rfl, ?_, ?_, hstop⟩
          · rw [before_renamed, before_renamed, List.takeWhile_append_of_pos, hbefore]
            exact fun c hc => hp c (isNameChar_of_isPlainName hold c hc)
          · rw [after_renamed, after_renamed, List.takeWhile_append_of_pos, hafter]
            exact fun c hc => hp c (isNameChar_of_isPlainName hnew c hc)
      | kept c =>
          by_cases hc : p c = true
          · obtain ⟨mid, rest, rfl, hbefore, hafter, hstop⟩ := ih h
            refine ⟨.kept c :: mid, rest, rfl, ?_, ?_, hstop⟩
            · rw [before_kept, before_kept, List.takeWhile_cons_of_pos hc, hbefore]
            · rw [after_kept, after_kept, List.takeWhile_cons_of_pos hc, hafter]
          · refine ⟨[], _, rfl, ?_, ?_, .inr ⟨c, todo, rfl, by simpa using hc⟩⟩
            · rw [before_kept, List.takeWhile_cons_of_neg hc, before_nil]
            · rw [after_kept, List.takeWhile_cons_of_neg hc, after_nil]

/-! ## Linked cursors -/

/-- Whether two cursors stand between the same parts of a draft. -/
structure At (g : Draft) (done todo : List Part) (c c' : Cursor) : Prop where
  parts : g.parts = done ++ todo
  rest : c.rest = before todo
  rest' : c'.rest = after todo
  offset : c.offset = byteSize (before done)
  offset' : c'.offset = byteSize (after done)

/-- Whether two cursors in the two texts of a draft stand at one place and know the same. -/
structure Linked (g : Draft) (c c' : Cursor) : Prop where
  size : c.size = g.size
  size' : c'.size = g.size
  place : ∃ done todo, g.At done todo c c'
  last : g.Cut c.last c'.last
  last_le : c.last ≤ c.offset
  indents : c.indents = c'.indents
  inFormat : c.inFormat = c'.inFormat
  supplied : ∀ o o', g.Cut o o' → (o ∈ c.supplied ↔ o' ∈ c'.supplied)
  furthest : g.Cut c.furthest c'.furthest

namespace At

variable {done mid todo : List Part}

theorem cut (h : g.At done todo c c') : g.Cut c.offset c'.offset :=
  ⟨done, todo, h.parts, h.offset.symm, h.offset'.symm⟩

theorem sound (h : g.At done todo c c') : Sound (g.size + 1) (opens false done) todo :=
  g.sound_right h.parts

theorem skip (h : g.At done (mid ++ todo) c c') :
    g.At (done ++ mid) todo (c.skip (before mid)) (c'.skip (after mid)) where
  parts := by rw [h.parts, List.append_assoc]
  rest := by
    show c.rest.drop (before mid).length = before todo
    rw [h.rest, before_append, List.drop_left]
  rest' := by
    show c'.rest.drop (after mid).length = after todo
    rw [h.rest', after_append, List.drop_left]
  offset := by
    show c.offset + byteSize (before mid) = _
    rw [h.offset, before_append, byteSize_append]
  offset' := by
    show c'.offset + byteSize (after mid) = _
    rw [h.offset', after_append, byteSize_append]

end At

theorem place_unique {done todo done' todo' : List Part} (h : g.parts = done ++ todo)
    (h' : g.parts = done' ++ todo') (hsize : byteSize (before done) = byteSize (before done')) :
    done = done' ∧ todo = todo' := by
  rcases exists_between h h' with ⟨mid, rfl, rfl⟩ | ⟨mid, hne, rfl, rfl⟩
  · by_cases hmid : mid = []
    · subst hmid
      simp
    · have := (g.sizes_pos_of_mid h hmid).1
      simp only [before_append, byteSize_append] at hsize
      omega
  · have := (g.sizes_pos_of_mid h' hne).1
    simp only [before_append, byteSize_append] at hsize
    omega

namespace Linked

theorem cut (h : g.Linked c c') : g.Cut c.offset c'.offset := by
  obtain ⟨done, todo, hat⟩ := h.place
  exact hat.cut

/-- Linked cursors that move over the same stretch stay linked. -/
theorem skip {done mid todo : List Part} (h : g.Linked c c') (hat : g.At done (mid ++ todo) c c') :
    g.Linked (c.skip (before mid)) (c'.skip (after mid)) where
  size := h.size
  size' := h.size'
  place := ⟨done ++ mid, todo, hat.skip⟩
  last := h.last
  last_le := Nat.le_trans h.last_le (Nat.le_add_right _ _)
  indents := h.indents
  inFormat := h.inFormat
  supplied := h.supplied
  furthest := h.furthest

theorem endsHere (h : g.Linked c c') (e : Expect) : c.endsHere e = c'.endsHere e := by
  have hmem := h.supplied c.last c'.last h.last
  have hcontains : c.supplied.contains c.last = c'.supplied.contains c'.last := by
    rw [Bool.eq_iff_iff, List.contains_iff_mem, List.contains_iff_mem]
    exact hmem
  rw [Cursor.endsHere, Cursor.endsHere, hcontains]

theorem indentation (h : g.Linked c c') : c.indentation = c'.indentation := by
  rw [Cursor.indentation, Cursor.indentation, h.indents]

/-- The layout at a place is the same in both texts. -/
theorem layout? (h : g.Linked c c') (e : Expect) : c.layout? e = c'.layout? e := by
  obtain ⟨done, todo, hat⟩ := h.place
  have hblanks := readBlanks_before_after (e.newline || e.indent || e.dedent) todo _ false {}
    hat.sound
  rw [← hat.rest, ← hat.rest'] at hblanks
  rw [Cursor.layout?, Cursor.layout?, h.endsHere e, h.indentation, h.inFormat]
  cases hb : readBlanks (e.newline || e.indent || e.dedent) c.rest false {} with
  | none =>
      rw [hb] at hblanks
      cases hb' : readBlanks (e.newline || e.indent || e.dedent) c'.rest false {} with
      | none => rfl
      | some p =>
          rw [hb'] at hblanks
          cases hblanks
  | some p =>
      rw [hb] at hblanks
      cases hb' : readBlanks (e.newline || e.indent || e.dedent) c'.rest false {} with
      | none =>
          rw [hb'] at hblanks
          cases hblanks
      | some p' =>
          rw [hb'] at hblanks
          simp only [blanksOf, Option.map_some, Option.some.injEq, Prod.mk.injEq] at hblanks
          obtain ⟨b, rest⟩ := p
          obtain ⟨b', rest'⟩ := p'
          obtain ⟨rfl, hquote⟩ := hblanks
          simp only [hquote]

end Linked

/-! ## Settling on a token -/

/-- The cursor after blanks. -/
def skipGaps (c : Cursor) : Cursor :=
  c.skip (c.rest.takeWhile isGap)

/-- The cursor after a comment or a backslash that joins lines, if one begins here. -/
def pass? (c : Cursor) : Option Cursor :=
  match c.rest with
  | '#' :: _ => some c.skipComment
  | '\\' :: '\n' :: _ => some (c.skip ['\\', '\n'])
  | '\\' :: '\r' :: '\n' :: _ => some (c.skip ['\\', '\r', '\n'])
  | ['\\'] => some (c.skip ['\\'])
  | _ => none

theorem settle_succ (e : Expect) (fuel : Nat) (c : Cursor) :
    c.settle e (fuel + 1) =
      match c.layout? e with
      | some t => (some t, c)
      | none =>
          match pass? (skipGaps c) with
          | some d => d.settle e fuel
          | none => (none, skipGaps c) := by
  rw [Cursor.settle]
  cases c.layout? e with
  | some t => rfl
  | none =>
      simp only [pass?, skipGaps]
      split
      · simp only [*]
      · simp only [*]
      · simp only [*]
      · simp only [*]
      · simp only [*]

theorem trivia_succ (fuel : Nat) (c : Cursor) :
    trivia (fuel + 1) c.rest =
      match pass? (skipGaps c) with
      | some d => trivia fuel d.rest
      | none => (skipGaps c).rest := by
  have hgaps : (skipGaps c).rest = c.rest.dropWhile isGap := drop_length_takeWhile isGap c.rest
  rw [trivia, pass?, hgaps]
  split
  · rename_i rest heq
    have hcomment := drop_length_takeWhile (fun x => x != '\n' && x != '\x00') ('#' :: rest)
    simp only [Cursor.skipComment, Cursor.skip, hgaps, heq, hcomment]
    rfl
  · rename_i rest heq
    simp [Cursor.skip, hgaps, heq]
  · rename_i rest heq
    simp [Cursor.skip, hgaps, heq]
  · rename_i heq
    simp [Cursor.skip, hgaps, heq]
  · simp only [*]

/-- Whether a cursor differs from another at most by standing further on. -/
structure Onward (c d : Cursor) : Prop where
  size : d.size = c.size
  last : d.last = c.last
  indents : d.indents = c.indents
  inFormat : d.inFormat = c.inFormat
  supplied : d.supplied = c.supplied
  furthest : d.furthest = c.furthest
  offset_le : c.offset ≤ d.offset

theorem Onward.refl (c : Cursor) : Onward c c :=
  ⟨rfl, rfl, rfl, rfl, rfl, rfl, Nat.le_refl _⟩

theorem Onward.trans {c d e : Cursor} (h : Onward c d) (h' : Onward d e) : Onward c e where
  size := h'.size.trans h.size
  last := h'.last.trans h.last
  indents := h'.indents.trans h.indents
  inFormat := h'.inFormat.trans h.inFormat
  supplied := h'.supplied.trans h.supplied
  furthest := h'.furthest.trans h.furthest
  offset_le := Nat.le_trans h.offset_le h'.offset_le

theorem Onward.skip (c : Cursor) (cs : List Char) : Onward c (c.skip cs) :=
  ⟨rfl, rfl, rfl, rfl, rfl, rfl, Nat.le_add_right _ _⟩

theorem onward_of_pass? {c d : Cursor} (h : pass? c = some d) : Onward c d := by
  unfold pass? at h
  split at h
  · cases h
    exact .skip _ _
  · cases h
    exact .skip _ _
  · cases h
    exact .skip _ _
  · cases h
    exact .skip _ _
  · cases h

theorem onward_settle (e : Expect) (fuel : Nat) (c : Cursor) : Onward c (c.settle e fuel).2 := by
  induction fuel generalizing c with
  | zero => exact .refl c
  | succ fuel ih =>
      rw [settle_succ]
      cases c.layout? e with
      | some t => exact .refl c
      | none =>
          have hgaps : Onward c (skipGaps c) := .skip _ _
          cases hpass : pass? (skipGaps c) with
          | none => exact hgaps
          | some d => exact hgaps.trans ((onward_of_pass? hpass).trans (ih d))

/-! ## Where names may be marked -/

/-- Whether a name that begins at a cursor may be marked. -/
def AtOpening (g : Draft) (c : Cursor) : Prop :=
  ∀ done todo, g.parts = done ++ todo → c.offset = byteSize (before done) →
    opens false done = true ∨ ∀ x xs, before todo = x :: xs → isIdentifierStart x = false

theorem At.atOpening_iff {done todo : List Part} (hat : g.At done todo c c') :
    g.AtOpening c ↔
      opens false done = true ∨ ∀ x xs, before todo = x :: xs → isIdentifierStart x = false := by
  constructor
  · intro h
    exact h done todo hat.parts hat.offset
  · intro h done' todo' hparts hoffset
    obtain ⟨rfl, rfl⟩ := place_unique hat.parts hparts (hat.offset.symm.trans hoffset)
    exact h

theorem opens_map_kept {free : Bool} {cs : List Char} (hne : cs ≠ [])
    (h : ∀ c ∈ cs, isBreak c = true) : opens free (cs.map Part.kept) = true := by
  induction cs generalizing free with
  | nil => exact absurd rfl hne
  | cons c cs ih =>
      cases cs with
      | nil => exact h c (by simp)
      | cons d cs => exact @ih (isBreak c) (by simp) fun x hx => h x (by simp [hx])

namespace Linked

theorem skipGaps (h : g.Linked c c') : g.Linked (Draft.skipGaps c) (Draft.skipGaps c') := by
  obtain ⟨done, todo, hat⟩ := h.place
  obtain ⟨cs, rest, rfl, hbefore, hafter⟩ := takeWhile_stops
    (fun c hc => isGap_eq_false_of_isNameChar (isNameChar_of_start hc)) hat.sound
  rw [← hat.rest] at hbefore
  rw [← hat.rest'] at hafter
  rw [Draft.skipGaps, Draft.skipGaps, hbefore, hafter]
  have := h.skip hat
  rwa [before_map_kept, after_map_kept] at this

end Linked

/-- Behind blanks a name may be marked, and where there are none nothing changes. -/
theorem AtOpening.skipGaps (h : g.AtOpening c) (hl : g.Linked c c') :
    g.AtOpening (Draft.skipGaps c) := by
  obtain ⟨done, todo, hat⟩ := hl.place
  obtain ⟨cs, rest, rfl, hbefore, -⟩ := takeWhile_stops
    (fun c hc => isGap_eq_false_of_isNameChar (isNameChar_of_start hc)) hat.sound
  have hgaps : ∀ x ∈ cs, isBreak x = true := by
    rw [← hbefore]
    intro x hx
    exact isBreak_of_isGap (List.all_eq_true.1 List.all_takeWhile x hx)
  rw [← hat.rest] at hbefore
  have hskip := hat.skip
  rw [before_map_kept] at hskip
  rw [Draft.skipGaps, hbefore, hskip.atOpening_iff]
  by_cases hne : cs = []
  · subst hne
    simpa using hat.atOpening_iff.1 h
  · left
    rw [opens_append]
    exact opens_map_kept hne hgaps

namespace Linked

theorem skipComment (h : g.Linked c c') :
    g.Linked c.skipComment c'.skipComment ∧ g.AtOpening c.skipComment := by
  obtain ⟨done, todo, hat⟩ := h.place
  obtain ⟨mid, rest, rfl, hbefore, hafter, hstop⟩ := takeWhile_passes
    (p := fun x => x != '\n' && x != '\x00') (by
      intro c hc
      have hfeed : c ≠ '\n' := ne_of_isNameChar hc (by decide)
      have hnul : c ≠ '\x00' := ne_of_isNameChar hc (by decide)
      simp [hfeed, hnul]) hat.sound
  rw [← hat.rest] at hbefore
  rw [← hat.rest'] at hafter
  rw [Cursor.skipComment, Cursor.skipComment, hbefore, hafter]
  refine ⟨h.skip hat, hat.skip.atOpening_iff.2 (.inr ?_)⟩
  intro x xs hx
  rcases hstop with rfl | ⟨y, more, rfl, hy⟩
  · cases hx
  · obtain ⟨rfl, -⟩ := List.cons.inj hx
    rw [Bool.eq_false_iff]
    intro hstart
    have hfeed : y ≠ '\n' := ne_of_isNameChar (isNameChar_of_start hstart) (by decide)
    have hnul : y ≠ '\x00' := ne_of_isNameChar (isNameChar_of_start hstart) (by decide)
    simp [hfeed, hnul] at hy

/-- Linked cursors move over characters that are in both texts, up to a place where a name may be
marked or to the end. -/
theorem skip_kept {done more : List Part} (cs : List Char) (h : g.Linked c c')
    (hat : g.At done (cs.map Part.kept ++ more) c c')
    (hopens : opens (opens false done) (cs.map Part.kept) = true ∨ more = []) :
    g.Linked (c.skip cs) (c'.skip cs) ∧ g.AtOpening (c.skip cs) := by
  have hskip := h.skip hat
  have hat' := hat.skip
  rw [before_map_kept, after_map_kept] at hskip hat'
  refine ⟨hskip, hat'.atOpening_iff.2 ?_⟩
  rcases hopens with hopens | rfl
  · left
    rw [opens_append]
    exact hopens
  · right
    intro x xs hx
    cases hx

theorem pass?_of_ne {c : Cursor} (hhash : ∀ cs, c.rest ≠ '#' :: cs)
    (hslash : ∀ cs, c.rest ≠ '\\' :: cs) : Draft.pass? c = none := by
  rw [Draft.pass?]
  split
  · exact absurd ‹_› (hhash _)
  · exact absurd ‹_› (hslash _)
  · exact absurd ‹_› (hslash _)
  · exact absurd ‹_› (hslash _)
  · rfl

/-- A backslash joins no lines before another character than those of a line end. -/
theorem pass?_of_backslash {c : Cursor} {y : Char} {cs : List Char}
    (hrest : c.rest = '\\' :: y :: cs) (hfeed : y ≠ '\n')
    (hreturn : y = '\r' → ∀ rest, cs ≠ '\n' :: rest) : Draft.pass? c = none := by
  rw [Draft.pass?, hrest]
  split <;> simp_all

/-- A comment or a joined line begins at a place of both texts or of none. -/
theorem pass? (h : g.Linked c c') :
    (∃ d d', Draft.pass? c = some d ∧ Draft.pass? c' = some d' ∧ g.Linked d d' ∧
        g.AtOpening d) ∨
      (Draft.pass? c = none ∧ Draft.pass? c' = none) := by
  obtain ⟨done, todo, hat⟩ := h.place
  -- The cases are those of `Draft.pass?`, but for the parts in place of the characters.
  by_cases hcomment : ∃ more, todo = .kept '#' :: more
  · obtain ⟨more, rfl⟩ := hcomment
    exact .inl ⟨_, _, by simp [Draft.pass?, hat.rest], by simp [Draft.pass?, hat.rest'],
      h.skipComment⟩
  by_cases hslash : ∃ more, todo = .kept '\\' :: more
  · obtain ⟨more, rfl⟩ := hslash
    have hmore : Sound (g.size + 1) (isBreak '\\') more := hat.sound
    by_cases hend : more = []
    · subst hend
      exact .inl ⟨_, _, by simp [Draft.pass?, hat.rest], by simp [Draft.pass?, hat.rest'],
        h.skip_kept ['\\'] hat (.inr rfl)⟩
    by_cases hfeed : ∃ rest, more = .kept '\n' :: rest
    · obtain ⟨rest, rfl⟩ := hfeed
      exact .inl ⟨_, _, by simp [Draft.pass?, hat.rest], by simp [Draft.pass?, hat.rest'],
        h.skip_kept ['\\', '\n'] hat (.inl rfl)⟩
    by_cases hreturn : ∃ rest, more = .kept '\r' :: .kept '\n' :: rest
    · obtain ⟨rest, rfl⟩ := hreturn
      exact .inl ⟨_, _, by simp [Draft.pass?, hat.rest], by simp [Draft.pass?, hat.rest'],
        h.skip_kept ['\\', '\r', '\n'] hat (.inl rfl)⟩
    · right
      cases more with
      | nil => exact absurd rfl hend
      | cons p more =>
          cases p with
          | renamed old new => cases hmore.1
          | kept y =>
              have hy : y ≠ '\n' := by
                rintro rfl
                exact hfeed ⟨more, rfl⟩
              have hjoin : y = '\r' →
                  ∀ rest, before more ≠ '\n' :: rest ∧ after more ≠ '\n' :: rest := by
                rintro rfl
                exact before_after_ne_cons (by decide) (show Sound _ (isBreak '\r') more from hmore)
                  fun rest hrest => hreturn ⟨rest, by rw [hrest]⟩
              exact ⟨pass?_of_backslash hat.rest hy fun hr rest => (hjoin hr rest).1,
                pass?_of_backslash hat.rest' hy fun hr rest => (hjoin hr rest).2⟩
  · have hhash := before_after_ne_cons (d := '#') (by decide) hat.sound
      fun more hmore => hcomment ⟨more, hmore⟩
    have hother := before_after_ne_cons (d := '\\') (by decide) hat.sound
      fun more hmore => hslash ⟨more, hmore⟩
    rw [← hat.rest, ← hat.rest'] at hhash hother
    exact .inr ⟨pass?_of_ne (fun cs => (hhash cs).1) fun cs => (hother cs).1,
      pass?_of_ne (fun cs => (hhash cs).2) fun cs => (hother cs).2⟩

/-- Linked cursors settle on one place, and on the same layout there. -/
theorem settle (h : g.Linked c c') (e : Expect) (fuel : Nat) :
    (c.settle e fuel).1 = (c'.settle e fuel).1 ∧
      g.Linked (c.settle e fuel).2 (c'.settle e fuel).2 := by
  induction fuel generalizing c c' with
  | zero => exact ⟨rfl, h⟩
  | succ fuel ih =>
      rw [settle_succ, settle_succ, h.layout? e]
      cases c'.layout? e with
      | some t => exact ⟨rfl, h⟩
      | none =>
          rcases h.skipGaps.pass? with ⟨d, d', hd, hd', hlinked, -⟩ | ⟨hd, hd'⟩
          · rw [hd, hd']
            exact ih hlinked
          · rw [hd, hd']
            exact ⟨rfl, h.skipGaps⟩

end Linked

theorem AtOpening.settle (h : g.AtOpening c) (hl : g.Linked c c') (e : Expect) (fuel : Nat) :
    g.AtOpening (c.settle e fuel).2 := by
  induction fuel generalizing c c' with
  | zero => exact h
  | succ fuel ih =>
      rw [settle_succ]
      cases c.layout? e with
      | some t => exact h
      | none =>
          rcases hl.skipGaps.pass? with ⟨d, d', hd, -, hlinked, hd'⟩ | ⟨hd, -⟩
          · rw [hd]
            exact ih hd' hlinked
          · rw [hd]
            exact h.skipGaps hl

/-! ## Before an equals sign -/

/-- Whether the next token at a cursor is an equals sign, or layout before one. -/
def Barred (c : Cursor) : Prop :=
  EqualsAhead (c.size + 1) c.rest

theorem trivia_equals (fuel : Nat) (rest : List Char) :
    trivia fuel ('=' :: rest) = '=' :: rest := by
  cases fuel with
  | zero => rfl
  | succ fuel =>
      have hgap : isGap '=' = false := by decide
      rw [trivia, List.dropWhile_cons_of_neg (by simp [hgap])]
      simp

theorem EqualsAhead.succ {fuel : Nat} {c : Cursor} (h : EqualsAhead fuel c.rest) :
    EqualsAhead (fuel + 1) c.rest := by
  induction fuel generalizing c with
  | zero =>
      obtain ⟨rest, hrest, hhead⟩ := h
      rw [trivia] at hrest
      exact ⟨rest, by rw [hrest, trivia_equals], hhead⟩
  | succ fuel ih =>
      obtain ⟨rest, hrest, hhead⟩ := h
      rw [trivia_succ] at hrest
      rw [EqualsAhead, trivia_succ]
      cases hpass : pass? (skipGaps c) with
      | none =>
          rw [hpass] at hrest
          exact ⟨rest, hrest, hhead⟩
      | some d =>
          rw [hpass] at hrest
          exact ih ⟨rest, hrest, hhead⟩

/-- Before an equals sign the reading settles on it or on layout, and stays before it. -/
theorem EqualsAhead.settle (e : Expect) {fuel : Nat} {c : Cursor} (h : EqualsAhead fuel c.rest) :
    EqualsAhead fuel (c.settle e fuel).2.rest ∧
      ((c.settle e fuel).1 = none →
        ∃ rest, (c.settle e fuel).2.rest = '=' :: rest ∧ rest.head? ≠ some '=') := by
  induction fuel generalizing c with
  | zero => exact ⟨h, fun _ => h⟩
  | succ fuel ih =>
      rw [settle_succ]
      cases hlayout : c.layout? e with
      | some t => exact ⟨h, fun hnone => nomatch hnone⟩
      | none =>
          obtain ⟨rest, hrest, hhead⟩ := h
          rw [trivia_succ] at hrest
          cases hpass : pass? (skipGaps c) with
          | none =>
              rw [hpass] at hrest
              have hstands : (skipGaps c).rest = '=' :: rest := hrest
              exact ⟨⟨rest, by rw [hstands, trivia_equals], hhead⟩, fun _ => ⟨rest, hstands, hhead⟩⟩
          | some d =>
              rw [hpass] at hrest
              have hd := ih ⟨rest, hrest, hhead⟩
              exact ⟨EqualsAhead.succ hd.1, hd.2⟩

end Draft

end Longhand
