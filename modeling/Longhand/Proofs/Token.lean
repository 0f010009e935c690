import Longhand.Proofs.Cursor

/-!
# Tokens of a draft

A token that does not begin with a marked name ends before the next one, since no token but a comma
or a bracket goes over the character before a marked name.  So it is the same in the two texts.
-/

namespace Longhand.Draft

open Syntax Text

variable {b : Char} {x : List Char}

theorem ne_of_isBreak {d : Char} (hb : isBreak b = true) (hd : d ∉ breaks) : b ≠ d := by
  rintro rfl
  exact hd (mem_breaks_of_isBreak hb)

theorem isDigit_of_isBreak (hb : isBreak b = true) : b.isDigit = false := by
  have h : ∀ d ∈ breaks, d.isDigit = false := forall_mem_of_all (by decide)
  exact h b (mem_breaks_of_isBreak hb)

/-! ## Numbers -/

theorem digitsSize_append (afterDigit : Bool) (pre : List Char) (hb : isBreak b = true) :
    digitsSize afterDigit (pre ++ b :: x) = digitsSize afterDigit pre := by
  have hunderscore : b ≠ '_' := ne_of_isBreak hb (by decide)
  induction pre generalizing afterDigit with
  | nil => simp [digitsSize, isDigit_of_isBreak hb, hunderscore]
  | cons c pre ih => simp only [List.cons_append, digitsSize, ih]

theorem digitsSize_le (afterDigit : Bool) (cs : List Char) :
    digitsSize afterDigit cs ≤ cs.length := by
  induction cs generalizing afterDigit with
  | nil => simp [digitsSize]
  | cons c cs ih =>
      have hdigit := ih true
      have hother := ih false
      simp only [digitsSize, List.length_cons]
      split
      · omega
      · split <;> omega

theorem suffixSize_append {p q : Char} (hp : p ∉ breaks) (hq : q ∉ breaks) (pre : List Char)
    (hb : isBreak b = true) : suffixSize p q (pre ++ b :: x) = suffixSize p q pre := by
  cases pre with
  | nil => simp [suffixSize, ne_of_isBreak hb hp, ne_of_isBreak hb hq]
  | cons c pre => rfl

theorem suffixSize_le (p q : Char) (cs : List Char) : suffixSize p q cs ≤ cs.length := by
  cases cs with
  | nil => simp [suffixSize]
  | cons c cs =>
      simp only [suffixSize, List.length_cons]
      split <;> omega

theorem basedSize_append (isBaseDigit : Char → Bool) (pre : List Char) (hb : isBreak b = true)
    (hdigit : isBaseDigit b = false) (hunderscore : isBaseDigit '_' = false) :
    basedSize isBaseDigit (pre ++ b :: x) = basedSize isBaseDigit pre := by
  have hne : b ≠ '_' := ne_of_isBreak hb (by decide)
  induction hn : pre.length using Nat.strongRecOn generalizing pre with
  | ind n ih =>
      subst hn
      match pre with
      | [] => simp [basedSize, hdigit, hne]
      | ['_'] => simp [basedSize, hdigit, hunderscore]
      | '_' :: d :: pre =>
          simp only [List.cons_append, basedSize]
          rw [ih pre.length (by simp only [List.length_cons]; omega) pre rfl]
      | c :: pre =>
          by_cases hc : c = '_'
          · subst hc
            cases pre with
            | nil => simp [basedSize, hdigit, hunderscore]
            | cons d pre =>
                simp only [List.cons_append, basedSize]
                rw [ih pre.length (by simp only [List.length_cons]; omega) pre rfl]
          · rw [List.cons_append, basedSize, basedSize, ih pre.length (by simp) pre rfl]
            · simp [hc]
            · simp [hc]

theorem basedSize_le (isBaseDigit : Char → Bool) (cs : List Char) :
    basedSize isBaseDigit cs ≤ cs.length := by
  fun_induction basedSize isBaseDigit cs with
  | case1 => simp; omega
  | case2 => simp
  | case3 => simp; omega
  | case4 => simp
  | case5 => simp

theorem exponentSize_append (pre : List Char) (hb : isBreak b = true) :
    exponentSize (pre ++ b :: x) = exponentSize pre := by
  cases pre with
  | nil =>
      have hsmall : b ≠ 'e' := ne_of_isBreak hb (by decide)
      have hlarge : b ≠ 'E' := ne_of_isBreak hb (by decide)
      simp [exponentSize, hsmall, hlarge]
  | cons c pre =>
      have hsign := suffixSize_append (x := x) (p := '+') (q := '-') (by decide) (by decide) pre hb
      have hle := suffixSize_le '+' '-' pre
      simp only [List.cons_append, exponentSize, hsign, List.drop_append_of_le_length hle,
        digitsSize_append false _ hb]

theorem exponentSize_le (cs : List Char) : exponentSize cs ≤ cs.length := by
  cases cs with
  | nil => simp [exponentSize]
  | cons c cs =>
      have hsign := suffixSize_le '+' '-' cs
      have hdigits := digitsSize_le false (cs.drop (suffixSize '+' '-' cs))
      simp only [List.length_drop] at hdigits
      simp only [exponentSize, List.length_cons]
      split
      · split <;> omega
      · omega

theorem basedIntegerSize_append (pre : List Char) (hb : isBreak b = true) :
    basedIntegerSize (pre ++ b :: x) = basedIntegerSize pre := by
  match pre with
  | [] =>
      have hzero : b ≠ '0' := ne_of_isBreak hb (by decide)
      simp [basedIntegerSize, hzero]
  | [c] =>
      have hletters : ∀ d ∈ breaks, d ≠ 'x' ∧ d ≠ 'X' ∧ d ≠ 'o' ∧ d ≠ 'O' ∧ d ≠ 'b' ∧ d ≠ 'B' :=
        forall_mem_of_all (by decide)
      obtain ⟨h₁, h₂, h₃, h₄, h₅, h₆⟩ := hletters b (mem_breaks_of_isBreak hb)
      by_cases hc : c = '0'
      · subst hc
        simp [basedIntegerSize, h₁, h₂, h₃, h₄, h₅, h₆]
      · simp [basedIntegerSize, hc]
  | c :: d :: pre =>
      by_cases hc : c = '0'
      · subst hc
        -- A break is no digit to any base and no mark of a long number.
        have hhex : ∀ d ∈ breaks,
            (d.isDigit || ('a' ≤ d && d ≤ 'f') || ('A' ≤ d && d ≤ 'F')) = false :=
          forall_mem_of_all (by decide)
        have hoctal : ∀ d ∈ breaks, (decide ('0' ≤ d) && decide (d ≤ '7')) = false :=
          forall_mem_of_all (by decide)
        have hbinary : ∀ d ∈ breaks, (decide (d = '0') || decide (d = '1')) = false :=
          forall_mem_of_all (by decide)
        have hmem := mem_breaks_of_isBreak hb
        have hhex' := basedSize_append (x := x)
          (fun d => d.isDigit || ('a' ≤ d && d ≤ 'f') || ('A' ≤ d && d ≤ 'F')) pre hb
          (hhex b hmem) (by decide)
        have hoctal' := basedSize_append (x := x)
          (fun d => '0' ≤ d && d ≤ '7') pre hb (hoctal b hmem) (by decide)
        have hbinary' := basedSize_append (x := x)
          (fun d => d = '0' || d = '1') pre hb (hbinary b hmem) (by decide)
        have hsuffix : ∀ n ≤ pre.length,
            suffixSize 'l' 'L' ((pre ++ b :: x).drop n) = suffixSize 'l' 'L' (pre.drop n) := by
          intro n hn
          rw [List.drop_append_of_le_length hn]
          exact suffixSize_append (by decide) (by decide) _ hb
        simp only [List.cons_append, basedIntegerSize, hhex', hoctal', hbinary']
        rw [hsuffix]
        split
        · exact basedSize_le _ pre
        · split
          · exact basedSize_le _ pre
          · split
            · exact basedSize_le _ pre
            · omega
      · simp [basedIntegerSize, hc]

theorem basedIntegerSize_le (cs : List Char) : basedIntegerSize cs ≤ cs.length := by
  unfold basedIntegerSize
  split
  · rename_i c rest
    extract_lets digits
    have hdigits : digits ≤ rest.length := by
      simp only [digits]
      split
      · exact basedSize_le _ rest
      · split
        · exact basedSize_le _ rest
        · split
          · exact basedSize_le _ rest
          · exact Nat.zero_le _
    have hsuffix := suffixSize_le 'l' 'L' (rest.drop digits)
    simp only [List.length_drop] at hsuffix
    simp only [List.length_cons]
    split <;> omega
  · omega

theorem number?_append (pre : List Char) (hb : isBreak b = true) :
    number? (pre ++ b :: x) = number? pre := by
  have hsuffix : ∀ {p q : Char}, p ∉ breaks → q ∉ breaks → ∀ n ≤ pre.length,
      suffixSize p q ((pre ++ b :: x).drop n) = suffixSize p q (pre.drop n) := by
    intro p q hp hq n hn
    rw [List.drop_append_of_le_length hn]
    exact suffixSize_append hp hq _ hb
  have hwhole := digitsSize_le false pre
  have hdot : b ≠ '.' := ne_of_isBreak hb (by decide)
  have himaginary := fun n hn => hsuffix (p := 'j') (q := 'J') (by decide) (by decide) n hn
  simp only [number?, digitsSize_append false pre hb, List.drop_append_of_le_length hwhole,
    basedIntegerSize_append pre hb]
  generalize digitsSize false pre = whole at hwhole
  have hlength := List.length_drop (i := whole) (l := pre)
  generalize pre.drop whole = rest at hlength
  have hexponent := exponentSize_le rest
  have hlong := suffixSize_append (x := x) (p := 'l') (q := 'L') (by decide) (by decide) rest hb
  by_cases hpoint : ∃ r, rest = '.' :: r
  · obtain ⟨r, rfl⟩ := hpoint
    have hfraction := digitsSize_le false r
    have hexponent := exponentSize_le (r.drop (digitsSize false r))
    simp only [List.length_drop, List.length_cons] at hexponent hlength
    simp only [List.cons_append, digitsSize_append false r hb,
      List.drop_append_of_le_length hfraction, exponentSize_append _ hb]
    rw [himaginary _ (by omega)]
  · have hexponent := exponentSize_le rest
    have hwholej := suffixSize_append (x := x) (p := 'j') (q := 'J') (by decide) (by decide) rest hb
    split
    · rename_i r heq
      cases rest with
      | nil => exact absurd (List.cons.inj heq).1 hdot
      | cons d rest => exact absurd ⟨rest, by rw [(List.cons.inj heq).1]⟩ hpoint
    · rw [exponentSize_append rest hb, hlong, hwholej, himaginary _ (by omega), eq_comm]
      split
      · exact absurd ⟨_, rfl⟩ hpoint
      · rfl

theorem number?_le {cs : List Char} {t : Token} {n : Nat} (h : number? cs = some (t, n)) :
    n ≤ cs.length := by
  have hwhole := digitsSize_le false cs
  have hbased := basedIntegerSize_le cs
  have himaginary : ∀ m ≤ cs.length, m + suffixSize 'j' 'J' (cs.drop m) ≤ cs.length := by
    intro m hm
    have := suffixSize_le 'j' 'J' (cs.drop m)
    rw [List.length_drop] at this
    omega
  have hdrop := List.length_drop (i := digitsSize false cs) (l := cs)
  simp only [number?] at h
  split at h
  · rename_i r heq
    rw [heq, List.length_cons] at hdrop
    split at h
    · cases h
    · simp only [Option.some.injEq, Prod.mk.injEq] at h
      have hfraction := digitsSize_le false r
      have hexponent := exponentSize_le (r.drop (digitsSize false r))
      rw [List.length_drop] at hexponent
      rw [← h.2]
      exact himaginary _ (by omega)
  · have hexponent := exponentSize_le (cs.drop (digitsSize false cs))
    have hlong := suffixSize_le 'l' 'L' (cs.drop (digitsSize false cs))
    split at h
    · cases h
    · split at h
      · simp only [Option.some.injEq, Prod.mk.injEq] at h
        rw [← h.2]
        exact himaginary _ (by omega)
      · split at h
        · simp only [Option.some.injEq, Prod.mk.injEq] at h
          omega
        · simp only [Option.some.injEq, Prod.mk.injEq] at h
          rw [← h.2]
          split
          · exact himaginary _ hwhole
          · omega

/-! ## Strings and marks -/

theorem opening?_append (s : StringOpening) (pre : List Char) (hb : isBreak b = true) :
    opening? s (pre ++ b :: x) = opening? s pre := by
  have hmem := mem_breaks_of_isBreak hb
  have hletters : ∀ d ∈ breaks, d ≠ 'f' ∧ d ≠ 'F' ∧ d ≠ 't' ∧ d ≠ 'T' ∧ d ≠ 'r' ∧ d ≠ 'R' ∧
      d ≠ 'b' ∧ d ≠ 'B' ∧ d ≠ 'u' ∧ d ≠ 'U' ∧ d ≠ '\x60' ∧ d ≠ '\'' ∧ d ≠ '"' :=
      forall_mem_of_all (by decide)
  induction pre generalizing s with
  | nil =>
      obtain ⟨h₁, h₂, h₃, h₄, h₅, h₆, h₇, h₈, h₉, h₁₀, h₁₁, h₁₂, h₁₃⟩ := hletters b hmem
      simp [opening?, h₁, h₂, h₃, h₄, h₅, h₆, h₇, h₈, h₉, h₁₀, h₁₁, h₁₂, h₁₃]
  | cons c pre ih =>
      simp only [List.cons_append, opening?, ih]
      have hquotes : (c = '\'' ∨ c = '"') → b ≠ c := by
        obtain ⟨-, -, -, -, -, -, -, -, -, -, -, h₁₂, h₁₃⟩ := hletters b hmem
        rintro (rfl | rfl)
        · exact h₁₂
        · exact h₁₃
      by_cases hc : c = '\'' ∨ c = '"'
      · have hne := hquotes hc
        match pre with
        | [] => cases x <;> simp [hne]
        | [d] => simp [hne]
        | d :: e :: pre => rfl
      · simp only [not_or] at hc
        simp [hc.1, hc.2]

theorem opening?_size_le {s t : StringOpening} {cs : List Char} (h : opening? s cs = some t) :
    t.size ≤ s.size + cs.length := by
  -- Each letter in front of the quotation marks counts once, and so does each mark.
  induction cs generalizing s with
  | nil => cases h
  | cons c cs ih =>
      simp only [opening?] at h
      simp only [List.length_cons]
      split at h
      · have := ih h
        simp only at this
        omega
      · split at h
        · have := ih h
          simp only at this
          omega
        · split at h
          · have := ih h
            simp only at this
            omega
          · split at h
            · have := ih h
              simp only at this
              omega
            · split at h
              · cases h
                simp only
                omega
              · split at h
                · split at h
                  · split at h
                    · cases h
                      simp only [List.length_cons]
                      omega
                    · cases h
                      simp only
                      omega
                  · cases h
                    simp only
                    omega
                · cases h

/-- The mark at the front of a text. -/
def mark? (cs : List Char) : Option (List Char × Token) :=
  marks.find? fun (spelling, _) => spelling.isPrefixOf cs

theorem isPrefixOf_append_of_isBreak {spelling pre : List Char} (hb : isBreak b = true)
    (hspelling : b ∉ spelling) :
    spelling.isPrefixOf (pre ++ b :: x) = spelling.isPrefixOf pre := by
  induction spelling generalizing pre with
  | nil => cases pre <;> rfl
  | cons c spelling ih =>
      have hne : c ≠ b := by
        rintro rfl
        exact hspelling (by simp)
      cases pre with
      | nil => simp [List.isPrefixOf, hne]
      | cons d pre =>
          have hrest : b ∉ spelling := fun hmem => hspelling (by simp [hmem])
          simp only [List.cons_append, List.isPrefixOf, ih hrest]

/-- A mark does not go over a break, save the bracket and the comma that are one. -/
theorem mark?_append (pre : List Char) (hb : isBreak b = true) :
    mark? (pre ++ b :: x) = mark? (pre ++ [b]) := by
  have hmem := mem_breaks_of_isBreak hb
  have hmarks : ∀ m ∈ marks,
      (breaks.all fun d => decide (d ∉ m.1)) = true ∨ m.1.length = 1 :=
    forall_mem_of_all (by decide)
  have hsame : ∀ m ∈ marks,
      m.1.isPrefixOf (pre ++ b :: x) = m.1.isPrefixOf (pre ++ [b]) := by
    intro m hm
    rcases hmarks m hm with hnone | hone
    · have hb' := forall_mem_of_all hnone b hmem
      rw [isPrefixOf_append_of_isBreak hb hb', isPrefixOf_append_of_isBreak hb hb']
    · obtain ⟨c, hc⟩ := List.length_eq_one_iff.1 hone
      rw [hc]
      cases pre <;> simp [List.isPrefixOf]
  unfold mark?
  revert hsame
  generalize marks = all
  intro hsame
  induction all with
  | nil => rfl
  | cons m all ih =>
      obtain ⟨spelling, t⟩ := m
      have hhead : spelling.isPrefixOf (pre ++ b :: x) = spelling.isPrefixOf (pre ++ [b]) :=
        hsame (spelling, t) (by simp)
      rw [List.find?_cons, List.find?_cons, ih fun m hm => hsame m (by simp [hm])]
      simp only [hhead]

theorem mark?_le {cs spelling : List Char} {t : Token} (h : mark? cs = some (spelling, t)) :
    spelling.length ≤ cs.length := by
  have hprefix := List.find?_some h
  exact (List.isPrefixOf_iff_prefix.1 hprefix).length_le

/-! ## Tokens -/

theorem takeWhile_part_append (pre : List Char) (hb : isBreak b = true) :
    (pre ++ b :: x).takeWhile isIdentifierPart = pre.takeWhile isIdentifierPart := by
  have hpart : ¬ isIdentifierPart b = true := by
    have := isNameChar_eq_false_of_isBreak hb
    simp only [isNameChar, Bool.or_eq_false_iff] at this
    simp [this.2]
  induction pre with
  | nil => simp [hpart]
  | cons c pre ih =>
      by_cases hc : isIdentifierPart c = true
      · rw [List.cons_append, List.takeWhile_cons_of_pos hc, List.takeWhile_cons_of_pos hc, ih]
      · rw [List.cons_append, List.takeWhile_cons_of_neg hc, List.takeWhile_cons_of_neg hc]

/-- What stands behind a break does not bear on the token before it. -/
theorem token_append (quote : Bool) (pre : List Char) (hb : isBreak b = true) :
    token quote (pre ++ b :: x) = token quote (pre ++ [b]) := by
  have hopening : ∀ s, opening? s (pre ++ b :: x) = opening? s (pre ++ [b]) := by
    intro s
    rw [opening?_append s pre hb, opening?_append s pre hb]
  have hnumber : number? (pre ++ b :: x) = number? (pre ++ [b]) := by
    rw [number?_append pre hb, number?_append pre hb]
  have hmark := mark?_append (x := x) pre hb
  cases pre with
  | nil =>
      have hstart : isIdentifierStart b = false := by
        have := isNameChar_eq_false_of_isBreak hb
        simp only [isNameChar, Bool.or_eq_false_iff] at this
        exact this.1
      simp only [List.nil_append] at hopening hnumber hmark ⊢
      simp only [mark?] at hmark
      simp only [token, hopening, hnumber, hmark, hstart, Bool.false_eq_true, if_false]
  | cons c pre =>
      simp only [List.cons_append] at hopening hnumber hmark ⊢
      simp only [mark?] at hmark
      simp only [token, hopening, hnumber, hmark, takeWhile_part_append pre hb]

theorem token_size_le (quote : Bool) (cs : List Char) : (token quote cs).2 ≤ cs.length := by
  cases cs with
  | nil => exact Nat.le_refl _
  | cons c rest =>
      simp only [token]
      split
      · rename_i s hs
        cases quote with
        | false => cases hs
        | true =>
            have := opening?_size_le hs
            simpa using this
      · split
        · have htake := (List.takeWhile_prefix (p := isIdentifierPart) (l := rest)).length_le
          split <;> simpa using htake
        · split
          · rename_i hnumber
            exact number?_le hnumber
          · split
            · rename_i hmark
              exact mark?_le hmark
            · exact Nat.zero_le _

/-! ## Marked names -/

/-- The characters that may stand right behind a marked name. -/
def stops : List Char :=
  breaks ++ ['#', '\\', '=']

theorem exists_stop_of_equalsAhead {fuel : Nat} {cs : List Char} (h : EqualsAhead fuel cs) :
    ∃ c rest, cs = c :: rest ∧ c ∈ stops := by
  obtain ⟨c, rest, rfl, hc⟩ := head_of_equalsAhead h
  refine ⟨c, rest, rfl, ?_⟩
  rcases hc with hgap | rfl | rfl | rfl
  · exact List.mem_append_left _ (mem_breaks_of_isBreak (isBreak_of_isGap hgap))
  · decide
  · decide
  · decide

theorem isNameChar_of_mem_stops {c : Char} (h : c ∈ stops) : isNameChar c = false := by
  have hmem : ∀ d ∈ stops, d ∈ separators := forall_mem_of_all (by decide)
  exact isNameChar_of_mem_separators c (hmem c h)

/-- A name opens no string, whatever letters it is made of. -/
theorem opening?_name (s : StringOpening) {name rest : List Char}
    (hname : ∀ c ∈ name, isNameChar c = true) {d : Char} (hd : d ∈ stops) :
    opening? s (name ++ d :: rest) = none := by
  induction name generalizing s with
  | nil =>
      have hletters : ∀ d ∈ stops, d ≠ 'f' ∧ d ≠ 'F' ∧ d ≠ 't' ∧ d ≠ 'T' ∧ d ≠ 'r' ∧ d ≠ 'R' ∧
          d ≠ 'b' ∧ d ≠ 'B' ∧ d ≠ 'u' ∧ d ≠ 'U' ∧ d ≠ '\x60' ∧ d ≠ '\'' ∧ d ≠ '"' :=
          forall_mem_of_all (by decide)
      obtain ⟨h₁, h₂, h₃, h₄, h₅, h₆, h₇, h₈, h₉, h₁₀, h₁₁, h₁₂, h₁₃⟩ := hletters d hd
      simp [opening?, h₁, h₂, h₃, h₄, h₅, h₆, h₇, h₈, h₉, h₁₀, h₁₁, h₁₂, h₁₃]
  | cons c name ih =>
      have hc := hname c (by simp)
      have hback : c ≠ '\x60' := ne_of_isNameChar hc (by decide)
      have hsingle : c ≠ '\'' := ne_of_isNameChar hc (by decide)
      have hdouble : c ≠ '"' := ne_of_isNameChar hc (by decide)
      simp only [List.cons_append, opening?, ih _ fun x hx => hname x (by simp [hx]), hback, hsingle,
        hdouble, decide_false, Bool.or_self, Bool.false_eq_true, if_false, ite_self]

/-- A marked name is a token of its own. -/
theorem token_name (quote : Bool) {name rest : List Char} (hname : isPlainName name = true)
    {fuel : Nat} (hrest : EqualsAhead fuel rest) :
    token quote (name ++ rest) = (.name name, name.length) := by
  obtain ⟨d, rest, rfl, hd⟩ := exists_stop_of_equalsAhead hrest
  have hchars := isNameChar_of_isPlainName hname
  obtain ⟨c, tail, rfl, hstart, htail, hword⟩ := exists_of_isPlainName hname
  have hpart : ¬ isIdentifierPart d = true := by
    have := isNameChar_of_mem_stops hd
    simp only [isNameChar, Bool.or_eq_false_iff] at this
    simp [this.2]
  have htake : (tail ++ d :: rest).takeWhile isIdentifierPart = tail := by
    rw [List.takeWhile_append_of_pos htail, List.takeWhile_cons_of_neg hpart, List.append_nil]
  rw [List.cons_append, token]
  have hopening : (if quote then opening? { mark := c, size := 0 } (c :: (tail ++ d :: rest))
      else none) = none := by
    split
    · rw [← List.cons_append]
      exact opening?_name _ hchars hd
    · rfl
  simp only [hopening, hstart, if_true, htake, hword]

/-- The characters of some parts up to the first marked name. -/
theorem exists_run {fuel : Nat} {free : Bool} {todo : List Part} (h : Sound fuel free todo) :
    ∃ cs more, todo = cs.map Part.kept ++ more ∧
      (more = [] ∨ ∃ old new rest, more = .renamed old new :: rest ∧
        (cs = [] ∨ ∃ pre b, cs = pre ++ [b] ∧ isBreak b = true)) := by
  induction todo generalizing free with
  | nil => exact ⟨[], [], rfl, .inl rfl⟩
  | cons p todo ih =>
      cases p with
      | renamed old new => exact ⟨[], _, rfl, .inr ⟨old, new, todo, rfl, .inl rfl⟩⟩
      | kept c =>
          obtain ⟨cs, more, rfl, hmore⟩ := ih h
          refine ⟨c :: cs, more, rfl, ?_⟩
          rcases hmore with rfl | ⟨old, new, rest, rfl, rfl | ⟨pre, b, rfl, hb⟩⟩
          · exact .inl rfl
          · exact .inr ⟨old, new, rest, rfl, .inr ⟨[], c, rfl, h.1⟩⟩
          · exact .inr ⟨old, new, rest, rfl, .inr ⟨c :: pre, b, rfl, hb⟩⟩

end Longhand.Draft
