import Longhand.Rewrite

/-!
# Drafts

A draft is a text in which some names are marked to be replaced by others.  It stands for two texts
at once, the one before and the one after the replacement.  The marked names are such that nothing
but themselves can depend on how they are spelled: each stands behind a bracket, a comma or a blank,
and the next token is an equals sign.
-/

namespace Longhand

open Syntax Text

/-! ## Names -/

/-- Whether a text is a name of the grammar: one token, and no reserved word. -/
def Syntax.isPlainName : List Char → Bool
  | [] => false
  | c :: rest =>
      isIdentifierStart c && rest.all isIdentifierPart && (words.lookup (c :: rest)).isNone

/-- A character that occurs in names. -/
def Text.isNameChar (c : Char) : Bool :=
  isIdentifierStart c || isIdentifierPart c

namespace Draft

/-- The characters that begin and end tokens, lines and strings. -/
def separators : List Char :=
  [' ', '\t', '\n', '\x0b', '\x0c', '\r', '\x00', '\u200b', '\u2060', '\ufeff', '(', ')', ',', '#',
    '\\', '"', '\'', '\x60', '\x7b', '\x7d', '=', '.', ':', '!', '+', '-', '*', '/', '%', '@', '&',
    '|', '^', '~', '<', '>', '[', ']', ';']

/-- What is decided for each member of a list holds of all of them. -/
theorem forall_mem_of_all {α : Type} {P : α → Prop} [DecidablePred P] {l : List α}
    (h : (l.all fun a => decide (P a)) = true) : ∀ a ∈ l, P a :=
  fun a ha => of_decide_eq_true (List.all_eq_true.1 h a ha)

theorem isNameChar_of_mem_separators : ∀ d ∈ separators, isNameChar d = false :=
  forall_mem_of_all (by decide +kernel)

theorem isIdentifierStart_of_mem_separators (d : Char) (h : d ∈ separators) :
    isIdentifierStart d = false :=
  (Bool.or_eq_false_iff.1 (isNameChar_of_mem_separators d h)).1

theorem isIdentifierStart_of_word {cs : List Char} {w : Word} (h : words.lookup cs = some w) :
    ∃ x xs, cs = x :: xs ∧ isIdentifierStart x = true := by
  have hall : ∀ p ∈ words, p.1.head?.any isIdentifierStart = true := by decide +kernel
  have hmem : (cs, w) ∈ words := by
    obtain ⟨l₁, l₂, heq, -⟩ := List.lookup_eq_some_iff.1 h
    rw [heq]
    simp
  have hhead : cs.head?.any isIdentifierStart = true := hall _ hmem
  cases cs with
  | nil => cases hhead
  | cons x xs => exact ⟨x, xs, rfl, hhead⟩

theorem ne_of_isNameChar {c d : Char} (hc : isNameChar c = true)
    (hd : d ∈ separators) : c ≠ d := by
  rintro rfl
  rw [isNameChar_of_mem_separators c hd] at hc
  cases hc

theorem isNameChar_of_start {c : Char} (h : isIdentifierStart c = true) : isNameChar c = true := by
  simp [isNameChar, h]

theorem isNameChar_of_part {c : Char} (h : isIdentifierPart c = true) : isNameChar c = true := by
  simp [isNameChar, h]

/-- A character behind which a name may be marked. -/
def isBreak (c : Char) : Bool :=
  c == '(' || c == ',' || isGap c

/-- The characters behind which a name may be marked. -/
def breaks : List Char :=
  ['(', ',', ' ', '\t', '\n', '\x0b', '\x0c', '\r', '\u200b', '\u2060', '\ufeff']

theorem mem_breaks_of_isBreak {c : Char} (h : isBreak c = true) : c ∈ breaks := by
  have range : ∀ n : Fin 5, Char.ofNat (9 + n.val) ∈ breaks := by decide
  simp only [isBreak, isGap, Bool.or_eq_true, Bool.and_eq_true, beq_iff_eq, decide_eq_true_eq] at h
  rcases h with (rfl | rfl) | ((((rfl | ⟨low, high⟩) | rfl) | rfl) | rfl)
  · decide
  · decide
  · decide
  · have low : 9 ≤ c.toNat := low
    have high : c.toNat ≤ 13 := high
    have here := range ⟨c.toNat - 9, by omega⟩
    rwa [show 9 + (c.toNat - 9) = c.toNat by omega, Char.ofNat_toNat] at here
  · decide
  · decide
  · decide

theorem isBreak_of_isGap {c : Char} (h : isGap c = true) : isBreak c = true := by
  simp [isBreak, h]

theorem isNameChar_eq_false_of_isBreak {c : Char} (h : isBreak c = true) :
    isNameChar c = false := by
  have hmem : ∀ d ∈ breaks, d ∈ separators := forall_mem_of_all (by decide)
  exact isNameChar_of_mem_separators c (hmem c (mem_breaks_of_isBreak h))

theorem isGap_eq_false_of_isNameChar {c : Char} (h : isNameChar c = true) : isGap c = false := by
  rw [Bool.eq_false_iff]
  intro hgap
  rw [isNameChar_eq_false_of_isBreak (isBreak_of_isGap hgap)] at h
  cases h

/-! ## What stands behind a marked name -/

/-- The text behind blanks, comments and joined lines. -/
def trivia : Nat → List Char → List Char
  | 0, cs => cs
  | fuel + 1, cs =>
      match cs.dropWhile isGap with
      | '#' :: rest => trivia fuel (rest.dropWhile fun x => x != '\n' && x != '\x00')
      | '\\' :: '\n' :: rest => trivia fuel rest
      | '\\' :: '\r' :: '\n' :: rest => trivia fuel rest
      | ['\\'] => trivia fuel []
      | rest => rest

/-- Whether the next token is an equals sign. -/
def EqualsAhead (fuel : Nat) (cs : List Char) : Prop :=
  ∃ rest, trivia fuel cs = '=' :: rest ∧ rest.head? ≠ some '='

theorem head_of_equalsAhead {fuel : Nat} {cs : List Char} (h : EqualsAhead fuel cs) :
    ∃ c rest, cs = c :: rest ∧ (isGap c = true ∨ c = '#' ∨ c = '\\' ∨ c = '=') := by
  obtain ⟨rest, htrivia, -⟩ := h
  cases fuel with
  | zero => exact ⟨'=', rest, htrivia, by simp⟩
  | succ fuel =>
      cases cs with
      | nil => simp [trivia] at htrivia
      | cons c cs =>
          refine ⟨c, cs, rfl, ?_⟩
          by_cases hgap : isGap c = true
          · exact .inl hgap
          · right
            rw [trivia, List.dropWhile_cons_of_neg hgap] at htrivia
            split at htrivia
            · rename_i heq
              simp only [List.cons.injEq] at heq
              exact .inl heq.1
            · rename_i heq
              simp only [List.cons.injEq] at heq
              exact .inr (.inl heq.1)
            · rename_i heq
              simp only [List.cons.injEq] at heq
              exact .inr (.inl heq.1)
            · rename_i heq
              simp only [List.cons.injEq] at heq
              exact .inr (.inl heq.1)
            · simp only [List.cons.injEq] at htrivia
              exact .inr (.inr htrivia.1)

/-! ## Parts -/

/-- A part of a draft: a character that stays, or a name with the one that takes its place. -/
inductive Part where
  | kept (c : Char)
  | renamed (old new : List Char)

def Part.before : Part → List Char
  | kept c => [c]
  | renamed old _ => old

def Part.after : Part → List Char
  | kept c => [c]
  | renamed _ new => new

/-- The text before the replacement. -/
def before (parts : List Part) : List Char :=
  parts.flatMap Part.before

/-- The text after the replacement. -/
def after (parts : List Part) : List Char :=
  parts.flatMap Part.after

@[simp] theorem before_nil : before [] = [] := rfl

@[simp] theorem after_nil : after [] = [] := rfl

@[simp] theorem before_kept (c : Char) (rest : List Part) :
    before (.kept c :: rest) = c :: before rest := rfl

@[simp] theorem after_kept (c : Char) (rest : List Part) :
    after (.kept c :: rest) = c :: after rest := rfl

@[simp] theorem before_renamed (old new : List Char) (rest : List Part) :
    before (.renamed old new :: rest) = old ++ before rest := rfl

@[simp] theorem after_renamed (old new : List Char) (rest : List Part) :
    after (.renamed old new :: rest) = new ++ after rest := rfl

@[simp] theorem before_append (a b : List Part) : before (a ++ b) = before a ++ before b := by
  simp [before]

@[simp] theorem after_append (a b : List Part) : after (a ++ b) = after a ++ after b := by
  simp [after]

@[simp] theorem before_map_kept (cs : List Char) : before (cs.map Part.kept) = cs := by
  induction cs with
  | nil => rfl
  | cons c rest ih => simp [ih]

@[simp] theorem after_map_kept (cs : List Char) : after (cs.map Part.kept) = cs := by
  induction cs with
  | nil => rfl
  | cons c rest ih => simp [ih]

/-- Whether a name may be marked behind some parts, given whether one may before them. -/
def opens : Bool → List Part → Bool
  | free, [] => free
  | _, .kept c :: rest => opens (isBreak c) rest
  | _, .renamed _ _ :: rest => opens false rest

theorem opens_append (free : Bool) (a b : List Part) :
    opens free (a ++ b) = opens (opens free a) b := by
  induction a generalizing free with
  | nil => rfl
  | cons p rest ih =>
      cases p with
      | kept c => exact ih (isBreak c)
      | renamed old new => exact ih false

/-- Whether the marked names of some parts are plain names that stand between what has to stand
around them. -/
def Sound (fuel : Nat) : Bool → List Part → Prop
  | _, [] => True
  | _, .kept c :: rest => Sound fuel (isBreak c) rest
  | free, .renamed old new :: rest =>
      free = true ∧ isPlainName old = true ∧ isPlainName new = true ∧
        EqualsAhead fuel (before rest) ∧ Sound fuel false rest

theorem Sound.right {fuel : Nat} {free : Bool} {a b : List Part} (h : Sound fuel free (a ++ b)) :
    Sound fuel (opens free a) b := by
  induction a generalizing free with
  | nil => exact h
  | cons p rest ih =>
      cases p with
      | kept c => exact ih h
      | renamed old new => exact ih h.2.2.2.2

theorem exists_of_isPlainName {name : List Char} (h : isPlainName name = true) :
    ∃ c rest, name = c :: rest ∧ isIdentifierStart c = true ∧
      (∀ d ∈ rest, isIdentifierPart d = true) ∧ words.lookup name = none := by
  cases name with
  | nil => cases h
  | cons c rest =>
      simp only [isPlainName, Bool.and_eq_true, List.all_eq_true, Option.isNone_iff_eq_none] at h
      exact ⟨c, rest, rfl, h.1.1, h.1.2, h.2⟩

theorem isNameChar_of_isPlainName {name : List Char} (h : isPlainName name = true) :
    ∀ c ∈ name, isNameChar c = true := by
  obtain ⟨c, rest, rfl, hstart, hrest, -⟩ := exists_of_isPlainName h
  intro d hd
  rcases List.mem_cons.1 hd with rfl | hd
  · exact isNameChar_of_start hstart
  · exact isNameChar_of_part (hrest d hd)

/-- Neither text begins with a character that is in no name, unless the parts do. -/
theorem before_after_ne_cons {fuel : Nat} {free : Bool} {d : Char} (hd : isNameChar d = false)
    {todo : List Part} (h : Sound fuel free todo) (hne : ∀ rest, todo ≠ .kept d :: rest)
    (rest : List Char) :
    before todo ≠ d :: rest ∧ after todo ≠ d :: rest := by
  cases todo with
  | nil => exact ⟨nofun, nofun⟩
  | cons p todo =>
      cases p with
      | kept c =>
          have hc : c ≠ d := by
            rintro rfl
            exact hne todo rfl
          simp [hc]
      | renamed old new =>
          obtain ⟨-, hold, hnew, -⟩ := h
          have hother : ∀ {name : List Char}, isPlainName name = true → ∀ more,
              name ++ more ≠ d :: rest := by
            intro name hname more heq
            obtain ⟨x, xs, rfl, hx, -⟩ := exists_of_isPlainName hname
            obtain ⟨rfl, -⟩ := List.cons.inj heq
            rw [isNameChar_of_start hx] at hd
            cases hd
          exact ⟨hother hold _, hother hnew _⟩

end Draft

/-- A text with marked names. -/
structure Draft where
  parts : List Draft.Part
  sound : Draft.Sound (tokenBound false (Draft.before parts) + 1) false parts

namespace Draft

/-- The bound on the tokens of the text. -/
def size (g : Draft) : Nat :=
  tokenBound false (before g.parts)

/-- A text as a draft in which no name is marked. -/
def ofText (cs : List Char) : Draft where
  parts := cs.map Part.kept
  sound := by
    generalize tokenBound false (before (cs.map Part.kept)) + 1 = fuel
    generalize false = free
    induction cs generalizing free with
    | nil => trivial
    | cons c rest ih => exact ih (isBreak c)

/-! ## Places -/

/-- Whether two offsets are those of one place of a draft in the two texts. -/
def Cut (g : Draft) (o o' : Nat) : Prop :=
  ∃ done todo, g.parts = done ++ todo ∧ byteSize (before done) = o ∧ byteSize (after done) = o'

/-- Whether a span before the replacement is that of a marked name. -/
def Marked (g : Draft) (s : Span) (old new : List Char) : Prop :=
  ∃ done todo, g.parts = done ++ .renamed old new :: todo ∧ s.start = byteSize (before done) ∧
    s.stop = byteSize (before done) + byteSize old

/-- Every suffix of a draft is sound, and what comes first in it is decided by what is before it. -/
theorem sound_right (g : Draft) {done todo : List Part} (h : g.parts = done ++ todo) :
    Sound (g.size + 1) (opens false done) todo := by
  have hsound := g.sound
  rw [h] at hsound
  have := hsound.right
  rwa [← h] at this

/-- Two cuts of a draft have a stretch of it between them. -/
theorem exists_between {g : Draft} {done todo done' todo' : List Part}
    (h : g.parts = done ++ todo) (h' : g.parts = done' ++ todo') :
    (∃ mid, done' = done ++ mid ∧ todo = mid ++ todo') ∨
      (∃ mid, mid ≠ [] ∧ done = done' ++ mid ∧ todo' = mid ++ todo) := by
  rcases List.append_eq_append_iff.1 (h.symm.trans h') with ⟨mid, h₁, h₂⟩ | ⟨mid, h₁, h₂⟩
  · exact .inl ⟨mid, h₁, h₂⟩
  · cases mid with
    | nil =>
        simp only [List.append_nil, List.nil_append] at h₁ h₂
        exact .inl ⟨[], by simp [h₁], by simp [h₂]⟩
    | cons p mid => exact .inr ⟨p :: mid, by simp, h₁, h₂⟩

theorem sizes_pos_of_mid (g : Draft) {done mid todo : List Part}
    (h : g.parts = done ++ (mid ++ todo)) (hne : mid ≠ []) :
    0 < byteSize (before mid) ∧ 0 < byteSize (after mid) := by
  have hsound := g.sound_right h
  cases mid with
  | nil => exact absurd rfl hne
  | cons p mid =>
      cases p with
      | kept c =>
          have := c.utf8Size_pos
          simp only [before_kept, after_kept, byteSize_cons]
          omega
      | renamed old new =>
          obtain ⟨-, hold, hnew, -⟩ := hsound
          obtain ⟨c, rest, rfl, -⟩ := exists_of_isPlainName hold
          obtain ⟨d, rest', rfl, -⟩ := exists_of_isPlainName hnew
          have := c.utf8Size_pos
          have := d.utf8Size_pos
          simp only [before_renamed, after_renamed, List.cons_append, byteSize_cons]
          omega

namespace Cut

variable {g : Draft} {a a' b b' : Nat}

/-- The two offsets of a place grow together. -/
theorem lt_iff (ha : g.Cut a a') (hb : g.Cut b b') : a < b ↔ a' < b' := by
  obtain ⟨done, todo, h, rfl, rfl⟩ := ha
  obtain ⟨done', todo', h', rfl, rfl⟩ := hb
  rcases exists_between h h' with ⟨mid, rfl, rfl⟩ | ⟨mid, hne, rfl, rfl⟩
  · simp only [before_append, after_append, byteSize_append]
    by_cases hmid : mid = []
    · subst hmid
      simp
    · have := g.sizes_pos_of_mid h hmid
      omega
  · have := g.sizes_pos_of_mid h' hne
    simp only [before_append, after_append, byteSize_append]
    omega

theorem le_iff (ha : g.Cut a a') (hb : g.Cut b b') : a ≤ b ↔ a' ≤ b' := by
  have := lt_iff hb ha
  omega

theorem eq_iff (ha : g.Cut a a') (hb : g.Cut b b') : a = b ↔ a' = b' := by
  have := lt_iff ha hb
  have := lt_iff hb ha
  omega

theorem max (ha : g.Cut a a') (hb : g.Cut b b') : g.Cut (Max.max a b) (Max.max a' b') := by
  by_cases h : a ≤ b
  · rw [Nat.max_eq_right h, Nat.max_eq_right ((le_iff ha hb).1 h)]
    exact hb
  · have hle : b ≤ a := by omega
    rw [Nat.max_eq_left hle, Nat.max_eq_left ((le_iff hb ha).1 hle)]
    exact ha

theorem zero (g : Draft) : g.Cut 0 0 :=
  ⟨[], g.parts, rfl, rfl, rfl⟩

end Cut

end Draft

end Longhand
