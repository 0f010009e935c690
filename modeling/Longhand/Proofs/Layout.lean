import Longhand.Proofs.Draft

/-!
# Layout of a draft

The blanks before a token and the layout they amount to are the same in the two texts of a draft.
Marked names are passed only inside comments.
-/

namespace Longhand.Draft

open Syntax Text

variable {fuel : Nat} {free : Bool}

/-- What a reading of blanks is used for. -/
def blanksOf (r : Option (Blanks × List Char)) : Option (Blanks × Bool) :=
  r.map fun (b, rest) => (b, startsQuote rest)

theorem startsQuote_cons (c : Char) (x y : List Char) :
    startsQuote (c :: x) = startsQuote (c :: y) := by
  unfold startsQuote
  split <;> simp_all

theorem readBlanks_comment_name (comments : Bool) {name : List Char}
    (h : ∀ c ∈ name, isNameChar c = true) (rest : List Char) (b : Blanks) :
    readBlanks comments (name ++ rest) true b = readBlanks comments rest true b := by
  induction name with
  | nil => rfl
  | cons c name ih =>
      have hc := h c (by simp)
      have hnewline : c ≠ '\n' := ne_of_isNameChar hc (by decide)
      have hnul : c ≠ '\x00' := ne_of_isNameChar hc (by decide)
      rw [List.cons_append, readBlanks]
      simp only [hnewline, hnul, decide_false, Bool.or_self, Bool.false_eq_true, if_false]
      exact ih fun d hd => h d (by simp [hd])

theorem readBlanks_of_ne (comments : Bool) {c : Char} (rest : List Char) (b : Blanks)
    (hfeed : c ≠ '\n') (hspace : c ≠ ' ') (htab : c ≠ '\t') (hreturn : c ≠ '\r')
    (hform : c ≠ '\x0c') (hslash : c ≠ '\\') (hhash : c ≠ '#') :
    readBlanks comments (c :: rest) false b = some (b, c :: rest) := by
  rw [readBlanks]
  · exact hfeed
  · exact hspace
  · exact htab
  · exact hreturn
  · exact hform
  · intro r h _
    exact hslash h
  · intro r h _
    exact hslash h
  · intro h _
    exact hslash h
  · intro h _
    exact hslash h
  · exact hslash
  · exact hhash

/-- A name ends the blanks, and begins no string. -/
theorem readBlanks_name (comments : Bool) {c : Char} (rest : List Char) (b : Blanks)
    (hc : isNameChar c = true) :
    blanksOf (readBlanks comments (c :: rest) false b) = some (b, false) := by
  have hne : ∀ {d : Char}, d ∈ separators → c ≠ d := fun hd => ne_of_isNameChar hc hd
  rw [readBlanks_of_ne comments rest b (hne (by decide)) (hne (by decide)) (hne (by decide))
    (hne (by decide)) (hne (by decide)) (hne (by decide)) (hne (by decide))]
  have hdouble : c ≠ '"' := hne (by decide)
  have hsingle : c ≠ '\'' := hne (by decide)
  have hback : c ≠ '\x60' := hne (by decide)
  simp [blanksOf, startsQuote, hdouble, hsingle, hback]

/-- A backslash joins lines in both texts, or in none of them. -/
theorem readBlanks_backslash (comments : Bool) {todo : List Part}
    (h : Sound fuel false todo) (b : Blanks)
    (ih : ∀ more : List Part, ∀ free, more.length ≤ todo.length → Sound fuel free more →
      blanksOf (readBlanks comments (before more) false b) =
        blanksOf (readBlanks comments (after more) false b)) :
    blanksOf (readBlanks comments ('\\' :: before todo) false b) =
      blanksOf (readBlanks comments ('\\' :: after todo) false b) := by
  cases todo with
  | nil => rfl
  | cons p more =>
      cases p with
      | renamed old new => cases h.1
      | kept d =>
          simp only [before_kept, after_kept]
          by_cases hfeed : d = '\n'
          · subst hfeed
            simp only [readBlanks]
            exact ih more _ (by simp) h
          · by_cases hreturn : d = '\r'
            · subst hreturn
              cases more with
              | nil => rfl
              | cons q more =>
                  cases q with
                  | kept e =>
                      simp only [before_kept, after_kept]
                      by_cases hjoin : e = '\n'
                      · subst hjoin
                        simp only [readBlanks]
                        exact ih more _ (by simp; omega) h
                      · simp [readBlanks, hjoin]
                  | renamed old new =>
                      obtain ⟨-, hold, hnew, -⟩ := h
                      obtain ⟨x, xs, rfl, hx, -⟩ := exists_of_isPlainName hold
                      obtain ⟨y, ys, rfl, hy, -⟩ := exists_of_isPlainName hnew
                      have hx' : x ≠ '\n' := ne_of_isNameChar (isNameChar_of_start hx) (by decide)
                      have hy' : y ≠ '\n' := ne_of_isNameChar (isNameChar_of_start hy) (by decide)
                      simp [readBlanks, hx', hy']
            · simp [readBlanks, hfeed, hreturn]

/-- The blanks before a token are the same in the two texts of a draft, and a string begins behind
them in both or in none. -/
theorem readBlanks_before_after (comments : Bool) (todo : List Part) :
    ∀ free inComment b, Sound fuel free todo →
      blanksOf (readBlanks comments (before todo) inComment b) =
        blanksOf (readBlanks comments (after todo) inComment b) := by
  -- By strong induction, for a joined line takes several characters at once.
  induction hn : todo.length using Nat.strongRecOn generalizing todo with
  | ind n ih =>
      subst hn
      intro free inComment b h
      cases todo with
      | nil => rfl
      | cons p rest =>
          have ih' := fun inComment b (more : List Part) free
            (hlen : more.length ≤ rest.length) (hmore : Sound fuel free more) =>
              ih more.length (by simp; omega) more rfl free inComment b hmore
          cases p with
          | renamed old new =>
              obtain ⟨-, hold, hnew, -, hrest⟩ := h
              simp only [before_renamed, after_renamed]
              cases inComment with
              | true =>
                  rw [readBlanks_comment_name comments (isNameChar_of_isPlainName hold),
                    readBlanks_comment_name comments (isNameChar_of_isPlainName hnew)]
                  exact ih' true b rest false (Nat.le_refl _) hrest
              | false =>
                  obtain ⟨x, xs, rfl, hx, -⟩ := exists_of_isPlainName hold
                  obtain ⟨y, ys, rfl, hy, -⟩ := exists_of_isPlainName hnew
                  rw [List.cons_append, List.cons_append,
                    readBlanks_name comments _ b (isNameChar_of_start hx),
                    readBlanks_name comments _ b (isNameChar_of_start hy)]
          | kept c =>
              simp only [before_kept, after_kept]
              cases inComment with
              | true =>
                  rw [readBlanks, readBlanks]
                  split
                  · exact ih' false _ rest _ (Nat.le_refl _) h
                  · exact ih' true _ rest _ (Nat.le_refl _) h
              | false =>
                  by_cases hfeed : c = '\n'
                  · subst hfeed
                    exact ih' false _ rest _ (Nat.le_refl _) h
                  by_cases hspace : c = ' '
                  · subst hspace
                    exact ih' false _ rest _ (Nat.le_refl _) h
                  by_cases htab : c = '\t'
                  · subst htab
                    exact ih' false _ rest _ (Nat.le_refl _) h
                  by_cases hreturn : c = '\r'
                  · subst hreturn
                    exact ih' false _ rest _ (Nat.le_refl _) h
                  by_cases hform : c = '\x0c'
                  · subst hform
                    exact ih' false _ rest _ (Nat.le_refl _) h
                  by_cases hslash : c = '\\'
                  · subst hslash
                    exact readBlanks_backslash comments h b (ih' false b)
                  by_cases hhash : c = '#'
                  · subst hhash
                    rw [readBlanks, readBlanks]
                    split
                    · rfl
                    · split
                      · rfl
                      · exact ih' true _ rest _ (Nat.le_refl _) h
                  rw [readBlanks_of_ne comments _ b hfeed hspace htab hreturn hform hslash hhash,
                    readBlanks_of_ne comments _ b hfeed hspace htab hreturn hform hslash hhash]
                  simp [blanksOf, startsQuote_cons c (before rest) (after rest)]

end Longhand.Draft
