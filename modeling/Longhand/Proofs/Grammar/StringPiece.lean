import Longhand.Proofs.Grammar.Basic
import Longhand.Syntax.Grammar.StringLiteral

/-!
# Pieces of strings in a draft

A marked name in a string is a run of plain characters in both texts.  Escapes and closing marks
are the same in both, for they do not go over the character before a marked name.
-/

namespace Longhand.Draft

open Syntax Text

variable {g : Draft} {fuel : Nat} {free : Bool}

/-- Whether a character begins and ends strings. -/
def isQuoteMark (c : Char) : Prop :=
  c = '"' ∨ c = '\'' ∨ c = '\x60'

theorem isNameChar_of_isQuoteMark {c : Char} (h : isQuoteMark c) : isNameChar c = false := by
  have hall : ∀ d ∈ ['"', '\'', '\x60'], d ∈ separators := forall_mem_of_all (by decide)
  refine isNameChar_of_mem_separators c (hall c ?_)
  rcases h with rfl | rfl | rfl <;> decide

theorem isBreak_of_isQuoteMark {c : Char} (h : isQuoteMark c) : isBreak c = false := by
  rcases h with rfl | rfl | rfl <;> decide

/-! ## Runs of plain characters -/

/-- A name in a string is passed as plain characters. -/
theorem piece?_name {s : StringOpening} (hs : isQuoteMark s.mark) {name rest : List Char}
    (hname : ∀ c ∈ name, isNameChar c = true) (hne : name ≠ []) {skim : Skim}
    (hskim : skim = .plain ∨ skim = .rawLine ∨ skim = .rawFeed) (some? : Bool) (n : Nat) :
    piece? s (name ++ rest) skim some? n = piece? s rest .plain true (n + name.length) := by
  induction name generalizing skim some? n with
  | nil => exact absurd rfl hne
  | cons c name ih =>
      have hc := hname c (by simp)
      have hmark : c ≠ s.mark := by
        rintro rfl
        rw [isNameChar_of_isQuoteMark hs] at hc
        cases hc
      have hslash : c ≠ '\\' := ne_of_isNameChar hc (by decide)
      have hreturn : c ≠ '\r' := ne_of_isNameChar hc (by decide)
      have hfeed : c ≠ '\n' := ne_of_isNameChar hc (by decide)
      have hnul : c ≠ '\x00' := ne_of_isNameChar hc (by decide)
      have hopen : c ≠ '\x7b' := ne_of_isNameChar hc (by decide)
      have hclose : c ≠ '\x7d' := ne_of_isNameChar hc (by decide)
      have hraw : skim ≠ .rawEscape ∧ skim ≠ .anything ∧ skim ≠ .bytesEscape := by
        rcases hskim with rfl | rfl | rfl <;> decide
      have hstep : piece? s (c :: (name ++ rest)) skim some? n =
          piece? s (name ++ rest) .plain true (n + 1) := by
        conv => lhs; unfold piece?
        simp [hmark, hslash, hreturn, hfeed, hnul, hopen, hclose, hraw.1, hraw.2.1, hraw.2.2]
      rw [List.cons_append, hstep]
      by_cases hlast : name = []
      · subst hlast
        rfl
      · rw [ih (fun d hd => hname d (by simp [hd])) hlast (.inl rfl), List.length_cons]
        congr 1
        omega

/-- Whether two pieces are those of one stretch at the front of some parts, or there is none. -/
def PieceTwin (all : List Part) (r r' : Option Syntax.Piece) : Prop :=
  (r = none ∧ r' = none) ∨ ∃ mid rest, all = mid ++ rest ∧
    ((r = some (.content (before mid).length) ∧ r' = some (.content (after mid).length)) ∨
      (r = some (.closing (before mid).length) ∧ r' = some (.closing (after mid).length)))

namespace PieceTwin

variable {all : List Part}

theorem none : PieceTwin all none none :=
  .inl ⟨rfl, rfl⟩

theorem content (mid rest : List Part) :
    PieceTwin (mid ++ rest) (some (.content (before mid).length))
      (some (.content (after mid).length)) :=
  .inr ⟨mid, rest, rfl, .inl ⟨rfl, rfl⟩⟩

/-- Content of the characters so far, unless there are none. -/
theorem content? (mid rest : List Part) (some? : Bool) :
    PieceTwin (mid ++ rest) (if some? then some (.content (before mid).length) else Option.none)
      (if some? then some (.content (after mid).length) else Option.none) := by
  cases some? with
  | true => exact content mid rest
  | false => exact none

/-- A test that does not look at the texts is decided in the same way for both of them. -/
theorem ite {p : Prop} [Decidable p] {a a' b b' : Option Syntax.Piece}
    (hpos : p → PieceTwin all a a') (hneg : ¬ p → PieceTwin all b b') :
    PieceTwin all (if p then a else b) (if p then a' else b') := by
  by_cases h : p
  · rw [if_pos h, if_pos h]
    exact hpos h
  · rw [if_neg h, if_neg h]
    exact hneg h

end PieceTwin

theorem markPiece_of_ne {s : StringOpening} (htripled : s.tripled = true) {d : Char}
    (hd : d ≠ s.mark) (rest : List Char) (some? : Bool) (n : Nat) :
    markPiece s (d :: rest) some? n = some (.content (n + 1)) := by
  cases rest <;> simp [markPiece, htripled, hd]

/-- A mark that closes a string, or might, does so in both texts. -/
theorem markPiece_before_after {s : StringOpening} (hs : isQuoteMark s.mark) (done : List Part)
    {todo : List Part} (hsound : Sound fuel false todo) (some? : Bool) :
    PieceTwin (done ++ .kept s.mark :: todo)
      (markPiece s (before todo) some? (before done).length)
      (markPiece s (after todo) some? (after done).length) := by
  have one : PieceTwin (done ++ .kept s.mark :: todo) (some (.content ((before done).length + 1)))
      (some (.content ((after done).length + 1))) :=
    .inr ⟨done ++ [.kept s.mark], todo, by simp, .inl ⟨by simp, by simp⟩⟩
  have two : ∀ {rest : List Part}, todo = .kept s.mark :: rest →
      PieceTwin (done ++ .kept s.mark :: todo) (some (.content ((before done).length + 2)))
        (some (.content ((after done).length + 2))) := by
    rintro rest rfl
    exact .inr ⟨done ++ [.kept s.mark, .kept s.mark], rest, by simp, .inl ⟨by simp, by simp⟩⟩
  by_cases htripled : s.tripled = true
  · cases todo with
    | nil =>
        simp only [markPiece, htripled, if_true, before_nil, after_nil]
        exact one
    | cons p todo =>
        cases p with
        | renamed old new => cases hsound.1
        | kept d =>
            rw [before_kept, after_kept]
            by_cases hd : d = s.mark
            · subst hd
              have hsound : Sound fuel (isBreak s.mark) todo := hsound
              rw [isBreak_of_isQuoteMark hs] at hsound
              cases todo with
              | nil =>
                  simp only [markPiece, htripled, if_true, before_nil, after_nil]
                  exact two rfl
              | cons q todo =>
                  cases q with
                  | renamed old new => cases hsound.1
                  | kept e =>
                      by_cases he : e = s.mark
                      · subst he
                        simp only [markPiece, htripled, if_true, before_kept, after_kept,
                          decide_true, Bool.and_self]
                        refine .ite (fun _ => .content done _) fun _ => ?_
                        exact .inr ⟨done ++ [.kept s.mark, .kept s.mark, .kept s.mark], todo,
                          by simp, .inr ⟨by simp, by simp⟩⟩
                      · simp only [markPiece, htripled, if_true, before_kept, after_kept, he,
                          decide_true, decide_false, Bool.and_false, Bool.false_eq_true, if_false]
                        exact two rfl
            · rw [markPiece_of_ne htripled hd, markPiece_of_ne htripled hd]
              exact one
  · simp only [markPiece, htripled, Bool.false_eq_true, if_false]
    refine .ite (fun _ => .content done _) fun _ => ?_
    exact .inr ⟨done ++ [.kept s.mark], todo, by simp, .inr ⟨by simp, by simp⟩⟩

/-- The pieces at the front of the two texts are those of one stretch.  A marked name is met only
where plain characters are passed. -/
theorem piece?_before_after {s : StringOpening} (hs : isQuoteMark s.mark) {todo : List Part}
    (done : List Part) (hsound : Sound fuel free todo) (skim : Skim) (some? : Bool)
    (hskim : free = true → skim = .plain ∨ skim = .rawLine ∨ skim = .rawFeed)
    (hescape : skim = .bytesEscape → ∃ start, done = start ++ [.kept '\\']) :
    PieceTwin (done ++ todo) (piece? s (before todo) skim some? (before done).length)
      (piece? s (after todo) skim some? (after done).length) := by
  induction todo generalizing done free skim some? with
  | nil => exact .inl ⟨rfl, rfl⟩
  | cons p todo ih =>
      cases p with
      | renamed old new =>
          obtain ⟨hfree, hold, hnew, -, hrest⟩ := hsound
          have hne : ∀ {name : List Char}, isPlainName name = true → name ≠ [] := by
            rintro name hname rfl
            cases hname
          rw [before_renamed, after_renamed,
            piece?_name hs (isNameChar_of_isPlainName hold) (hne hold) (hskim hfree),
            piece?_name hs (isNameChar_of_isPlainName hnew) (hne hnew) (hskim hfree)]
          have := ih (done ++ [.renamed old new]) hrest .plain true
            (fun h => nomatch h) (fun h => nomatch h)
          simpa using this
      | kept c =>
          have next : ∀ {skim' : Skim} (b : Bool),
              (isBreak c = true → skim' = .plain ∨ skim' = .rawLine ∨ skim' = .rawFeed) →
              (skim' = .bytesEscape → c = '\\') →
              PieceTwin (done ++ .kept c :: todo)
                (piece? s (before todo) skim' b ((before done).length + 1))
                (piece? s (after todo) skim' b ((after done).length + 1)) := by
            intro skim' b hskim' hescape'
            have := ih (done ++ [.kept c]) hsound skim' b hskim' fun h => ⟨done, by rw [hescape' h]⟩
            simpa using this
          rw [before_kept, after_kept]
          unfold piece?
          extract_lets here there
          -- The tests look at the character and at the state, so both texts take the same branch.
          refine .ite (fun _ => next _ (fun _ => .inr (.inl rfl)) (fun h => nomatch h)) fun _ => ?_
          refine .ite (fun _ => next _ (fun _ => .inr (.inr rfl)) (fun h => nomatch h)) fun _ => ?_
          refine .ite (fun _ => next _ (fun _ => .inl rfl) (fun h => nomatch h)) fun _ => ?_
          refine .ite (fun _ => next _ (fun _ => .inl rfl) (fun h => nomatch h)) fun _ => ?_
          refine .ite (fun hbytes => .ite (fun hletter =>
            next _ (fun hbreak => ?_) (fun h => nomatch h)) fun _ => ?_) fun _ => ?_
          · simp only [Bool.or_eq_true, decide_eq_true_eq] at hletter
            rcases hletter with (rfl | rfl) | rfl <;> exact absurd hbreak (by decide)
          · -- The content ends before the backslash, which belongs to what was read before.
            obtain ⟨start, rfl⟩ := hescape hbytes
            simpa using PieceTwin.content? start (.kept '\\' :: .kept c :: todo) some?
          refine .ite (fun _ => .none) fun _ => ?_
          refine .ite (fun _ => .content? done _ some?) fun _ => ?_
          refine .ite (fun hslash => ?_) fun _ => ?_
          · have hbreak : isBreak c = true → False := by
              rw [hslash]
              decide
            exact .ite (fun _ => next _ (fun h => (hbreak h).elim) (fun h => nomatch h)) fun _ =>
              .ite (fun _ => next _ (fun h => (hbreak h).elim) (fun _ => hslash)) fun _ =>
                .content? done _ some?
          refine .ite (fun hmark => ?_) fun _ => ?_
          · subst hmark
            have hsound : Sound fuel (isBreak s.mark) todo := hsound
            rw [isBreak_of_isQuoteMark hs] at hsound
            exact markPiece_before_after hs done hsound some?
          exact .ite (fun _ => .none) fun _ => next _ (fun _ => .inl rfl) (fun h => nomatch h)

/-! ## Escapes -/

theorem takeWhile_take_append {p : Char → Bool} {b : Char} {x : List Char} (hb : p b = false)
    (pre : List Char) (n : Nat) :
    ((pre ++ b :: x).take n).takeWhile p = (pre.take n).takeWhile p := by
  induction pre generalizing n with
  | nil => cases n <;> simp [hb]
  | cons c pre ih =>
      cases n with
      | zero => rfl
      | succ n =>
          rw [List.cons_append, List.take_succ_cons, List.take_succ_cons]
          by_cases hc : p c = true
          · rw [List.takeWhile_cons_of_pos hc, List.takeWhile_cons_of_pos hc, ih]
          · rw [List.takeWhile_cons_of_neg hc, List.takeWhile_cons_of_neg hc]

/-- The digits of an escape are the same in both texts. -/
theorem exists_digits {p : Char → Bool} (hp : ∀ b, isBreak b = true → p b = false)
    {todo : List Part} (h : Sound fuel false todo) (n : Nat) :
    ∃ cs rest, todo = cs.map Part.kept ++ rest ∧ ((before todo).take n).takeWhile p = cs ∧
      ((after todo).take n).takeWhile p = cs ∧ cs.length ≤ n := by
  have cut : ∀ (cs : List Char) (more : List Part), todo = cs.map Part.kept ++ more →
      ∃ rest, todo = ((cs.take n).takeWhile p).map Part.kept ++ rest := by
    intro cs more heq
    obtain ⟨rest, hrest⟩ := (List.takeWhile_prefix p).trans (List.take_prefix n cs)
    refine ⟨rest.map Part.kept ++ more, ?_⟩
    rw [heq, ← List.append_assoc, ← List.map_append, hrest]
  have hlength : ∀ cs : List Char, ((cs.take n).takeWhile p).length ≤ n := by
    intro cs
    have h₁ := (List.takeWhile_prefix (l := cs.take n) p).length_le
    have h₂ := List.length_take_le n cs
    omega
  obtain ⟨cs, more, heq, hmore⟩ := exists_run h
  rcases hmore with rfl | ⟨old, new, rest, rfl, rfl | ⟨pre, b, rfl, hb⟩⟩
  · obtain ⟨rest, hrest⟩ := cut cs [] heq
    refine ⟨_, rest, hrest, ?_, ?_, hlength cs⟩
    · rw [heq, List.append_nil, before_map_kept]
    · rw [heq, List.append_nil, after_map_kept]
  · rw [heq] at h
    cases h.1
  · obtain ⟨rest', hrest⟩ := cut (pre ++ [b]) _ heq
    refine ⟨_, rest', hrest, ?_, ?_, hlength _⟩
    · rw [heq, before_append, before_map_kept, List.append_assoc, List.singleton_append,
        takeWhile_take_append (hp b hb), takeWhile_take_append (hp b hb)]
    · rw [heq, after_append, after_map_kept, List.append_assoc, List.singleton_append,
        takeWhile_take_append (hp b hb), takeWhile_take_append (hp b hb)]

/-- Whether two sizes are those of one stretch at the front of some parts. -/
def SizeTwin (all : List Part) (n n' : Nat) : Prop :=
  ∃ mid rest, all = mid ++ rest ∧ n = (before mid).length ∧ n' = (after mid).length

theorem SizeTwin.kept (cs : List Char) (more : List Part) :
    SizeTwin (cs.map Part.kept ++ more) cs.length cs.length :=
  ⟨_, more, rfl, by rw [before_map_kept], by rw [after_map_kept]⟩

/-- An escape with a number of hexadecimal digits is one in both texts. -/
theorem startsHex_before_after (letter : Char) (n : Nat) {todo : List Part}
    (h : Sound fuel false todo) :
    SizeTwin (.kept '\\' :: .kept letter :: todo)
      (if startsHex n (before todo) then n + 2 else 1)
      (if startsHex n (after todo) then n + 2 else 1) := by
  have hhex : ∀ d ∈ breaks, isHexDigit d = false := forall_mem_of_all (by decide)
  obtain ⟨cs, rest, rfl, hbefore, hafter, hle⟩ :=
    exists_digits (fun b hb => hhex b (mem_breaks_of_isBreak hb)) h n
  simp only [startsHex, hbefore, hafter]
  by_cases hn : n ≤ cs.length
  · simp only [hn, decide_true, if_true]
    have := SizeTwin.kept ('\\' :: letter :: cs) rest
    simp only [List.length_cons, List.map_cons, List.cons_append] at this
    rwa [show cs.length + 1 + 1 = n + 2 by omega] at this
  · simp only [hn, decide_false, Bool.false_eq_true, if_false]
    exact SizeTwin.kept ['\\'] (.kept letter :: (cs.map Part.kept ++ rest))

/-- A character that is named in braces is so in both texts. -/
theorem namedSize_before_after {todo : List Part} {free : Bool} (h : Sound fuel free todo) :
    SizeTwin (.kept '\\' :: .kept 'N' :: .kept '\x7b' :: todo)
      (let size := ((before todo).takeWhile (· != '\x7d')).length
       if size ≠ 0 && size < (before todo).length then size + 4 else 1)
      (let size := ((after todo).takeWhile (· != '\x7d')).length
       if size ≠ 0 && size < (after todo).length then size + 4 else 1) := by
  obtain ⟨mid, rest, rfl, hbefore, hafter, hstop⟩ := takeWhile_passes
    (p := (· != '\x7d')) (fun c hc => by simpa using ne_of_isNameChar hc (by decide)) h
  simp only [hbefore, hafter]
  simp only [before_append, after_append, List.length_append]
  have hone : SizeTwin (.kept '\\' :: .kept 'N' :: .kept '\x7b' :: (mid ++ rest)) 1 1 :=
    SizeTwin.kept ['\\'] _
  by_cases hmid : mid = []
  · subst hmid
    exact hone
  · rcases hstop with rfl | ⟨c, more, rfl, hc⟩
    · simp only [before_nil, after_nil, List.length_nil, Nat.add_zero, Nat.lt_irrefl, decide_false,
        Bool.and_false, Bool.false_eq_true, if_false]
      exact hone
    · have hne : (before mid).length ≠ 0 ∧ (after mid).length ≠ 0 := by
        cases mid with
        | nil => exact absurd rfl hmid
        | cons p mid =>
            cases p with
            | kept x => simp
            | renamed old new =>
                obtain ⟨-, hold, hnew, -⟩ := h
                obtain ⟨x, xs, rfl, -⟩ := exists_of_isPlainName hold
                obtain ⟨y, ys, rfl, -⟩ := exists_of_isPlainName hnew
                simp
      have hc : c = '\x7d' := by simpa using hc
      subst hc
      have hsize : ∀ n m : Nat, n ≠ 0 →
          (if (decide (n ≠ 0) && decide (n < n + (m + 1))) = true then n + 4 else 1) = n + 4 := by
        intro n m hn
        simp [hn]
      rw [before_kept, after_kept, List.length_cons, List.length_cons, hsize _ _ hne.1,
        hsize _ _ hne.2]
      exact ⟨.kept '\\' :: .kept 'N' :: .kept '\x7b' :: (mid ++ [.kept '\x7d']), more, by simp,
        by simp, by simp⟩

/-- An escape that neither a letter nor a line end begins. -/
theorem escapeSize_other {c : Char} {cs : List Char} (hu : c ≠ 'u') (hU : c ≠ 'U') (hx : c ≠ 'x')
    (hN : c = 'N' → ∀ rest, cs ≠ '\x7b' :: rest) (hreturn : c = '\r' → ∀ rest, cs ≠ '\n' :: rest) :
    escapeSize (c :: cs) =
      if c.isDigit then 2 + ((cs.take 2).takeWhile Char.isDigit).length
      else if "\n'\"abfrntv\\".toList.contains c then 2
      else 1 := by
  rw [escapeSize]
  · simpa using hu
  · simpa using hU
  · simpa using hx
  · simpa using fun rest hc => hN hc rest
  · simpa using fun rest hc => hreturn hc rest

/-- It is the same stretch in both texts. -/
theorem otherSize_before_after (c : Char) {todo : List Part}
    (h : isBreak c = false → Sound fuel false todo) :
    SizeTwin (.kept '\\' :: .kept c :: todo)
      (if c.isDigit then 2 + (((before todo).take 2).takeWhile Char.isDigit).length
       else if "\n'\"abfrntv\\".toList.contains c then 2
       else 1)
      (if c.isDigit then 2 + (((after todo).take 2).takeWhile Char.isDigit).length
       else if "\n'\"abfrntv\\".toList.contains c then 2
       else 1) := by
  by_cases hdigit : c.isDigit = true
  · have hbreak : isBreak c = false := by
      rw [Bool.eq_false_iff]
      intro hbreak
      rw [isDigit_of_isBreak hbreak] at hdigit
      cases hdigit
    obtain ⟨cs, rest, rfl, hbefore, hafter, -⟩ :=
      exists_digits (p := Char.isDigit) (fun b hb => isDigit_of_isBreak hb) (h hbreak) 2
    rw [hbefore, hafter, if_pos hdigit]
    have := SizeTwin.kept ('\\' :: c :: cs) rest
    simp only [List.length_cons, List.map_cons, List.cons_append] at this
    rwa [show cs.length + 1 + 1 = 2 + cs.length by omega] at this
  · rw [if_neg hdigit]
    split
    · exact SizeTwin.kept ['\\', c] todo
    · exact SizeTwin.kept ['\\'] (.kept c :: todo)

/-- An escape behind a backslash is the same stretch in both texts. -/
theorem escapeSize_before_after {todo : List Part} (h : Sound fuel false todo) :
    SizeTwin (.kept '\\' :: todo) (escapeSize (before todo)) (escapeSize (after todo)) := by
  cases todo with
  | nil => exact SizeTwin.kept ['\\'] []
  | cons p todo =>
      cases p with
      | renamed old new => cases h.1
      | kept c =>
          have hnext : isBreak c = false → Sound fuel false todo := by
            intro hc
            rw [← hc]
            exact h
          rw [before_kept, after_kept]
          by_cases hu : c = 'u'
          · subst hu
            exact startsHex_before_after 'u' 4 (hnext (by decide))
          by_cases hU : c = 'U'
          · subst hU
            exact startsHex_before_after 'U' 8 (hnext (by decide))
          by_cases hx : c = 'x'
          · subst hx
            exact startsHex_before_after 'x' 2 (hnext (by decide))
          by_cases hN : c = 'N' ∧ ∃ rest, todo = .kept '\x7b' :: rest
          · obtain ⟨rfl, rest, rfl⟩ := hN
            exact namedSize_before_after h
          by_cases hreturn : c = '\r' ∧ ∃ rest, todo = .kept '\n' :: rest
          · obtain ⟨rfl, rest, rfl⟩ := hreturn
            exact SizeTwin.kept ['\\', '\r', '\n'] rest
          simp only [not_and, not_exists] at hN hreturn
          have htodo : Sound fuel (isBreak c) todo := h
          have hbrace := fun hc => before_after_ne_cons (d := '\x7b') (by decide) htodo (hN hc)
          have hfeed := fun hc => before_after_ne_cons (d := '\n') (by decide) htodo (hreturn hc)
          rw [escapeSize_other hu hU hx (fun hc rest => (hbrace hc rest).1)
              (fun hc rest => (hfeed hc rest).1),
            escapeSize_other hu hU hx (fun hc rest => (hbrace hc rest).2)
              (fun hc rest => (hfeed hc rest).2)]
          exact otherSize_before_after c hnext

end Longhand.Draft
