import Longhand.Proofs.Grammar.StringPiece

/-!
# Strings of a draft

Strings are read alike in the two texts of a draft, and so are the expressions in them.
-/

namespace Longhand.Draft

open Syntax Text

variable {g : Draft} {β : Type} {c₀ c c' : Cursor} {R : β → β → Cursor → Prop}

/-- At one place of the two texts stands the same character, or a name begins in both. -/
theorem At.front {done todo : List Part} (hat : g.At done todo c c') :
    (todo = [] ∧ c.rest = [] ∧ c'.rest = []) ∨
      (∃ x more, todo = .kept x :: more ∧ c.rest = x :: before more ∧ c'.rest = x :: after more ∧
        Sound (g.size + 1) (isBreak x) more) ∨
      ∃ x xs y ys, c.rest = x :: xs ∧ c'.rest = y :: ys ∧ isNameChar x = true ∧
        isNameChar y = true := by
  have hsound := hat.sound
  have hrest := hat.rest
  have hrest' := hat.rest'
  cases todo with
  | nil => exact .inl ⟨rfl, hrest, hrest'⟩
  | cons p more =>
      right
      cases p with
      | kept x => exact .inl ⟨x, more, rfl, hrest, hrest', hsound⟩
      | renamed old new =>
          right
          obtain ⟨x, xs, rfl, hx, -⟩ := exists_of_isPlainName hsound.2.1
          obtain ⟨y, ys, rfl, hy, -⟩ := exists_of_isPlainName hsound.2.2.1
          exact ⟨x, _, y, _, hrest, hrest', isNameChar_of_start hx, isNameChar_of_start hy⟩

namespace Agree

theorem remaining {f f' : List Char → Parser β}
    (hf : Agree g c₀ R (f c.rest c) (f' c'.rest c')) :
    Agree g c₀ R ((Syntax.remaining >>= f) c) ((Syntax.remaining >>= f') c') :=
  hf

theorem skipGap {f f' : Unit → Parser β} (h : g.Linked c c') (hc : Reaches c₀ c)
    (hf : g.Linked (skipGaps c) (skipGaps c') → Reaches c₀ (skipGaps c) →
      Agree g c₀ R (f () (skipGaps c)) (f' () (skipGaps c'))) :
    Agree g c₀ R ((Syntax.skipGap >>= f) c) ((Syntax.skipGap >>= f') c') :=
  hf h.skipGaps (hc.trans (Onward.skip c _).reaches)

theorem setFormat {f f' : Unit → Parser β} (b : Bool) (h : g.Linked c c')
    (hf : ∀ d d', g.Linked d d' → d.offset = c.offset → d.last = c.last →
      Agree g c₀ R (f () d) (f' () d')) :
    Agree g c₀ R ((Syntax.setFormat b >>= f) c) ((Syntax.setFormat b >>= f') c') := by
  refine hf { c with inFormat := b } { c' with inFormat := b } ?_ rfl rfl
  exact ⟨h.size, h.size', by
    obtain ⟨done, todo, hat⟩ := h.place
    exact ⟨done, todo, hat.parts, hat.rest, hat.rest', hat.offset, hat.offset'⟩,
    h.last, h.last_le, h.indents, rfl, h.supplied, h.furthest⟩

/-- Moving on over one stretch of the draft leads to one place. -/
theorem advance {done todo : List Part} {n n' : Nat} (hat : g.At done todo c c')
    (hsize : SizeTwin todo n n') (h : g.Linked c c') :
    Agree g c (fun _ _ d => c.offset ≤ d.last) (Syntax.advance n c) (Syntax.advance n' c') := by
  obtain ⟨mid, rest, rfl, rfl, rfl⟩ := hsize
  have hskip := h.skip hat
  have htext : c.rest.take (before mid).length = before mid := by
    rw [hat.rest, before_append, List.take_left]
  have htext' : c'.rest.take (after mid).length = after mid := by
    rw [hat.rest', after_append, List.take_left]
  have hend := (hskip.endToken hskip.indents).withFurthest (h.furthest.max hskip.cut)
  rw [← htext, ← htext'] at hend
  exact .ok hend
    ⟨Nat.le_add_right _ _, Nat.le_trans h.last_le (Nat.le_add_right _ _)⟩ (Nat.le_add_right _ _)

end Agree

/-- Two cursors that stand where two others stand do so between the same parts. -/
theorem Linked.at_of {done todo : List Part} {d d' : Cursor} (h : g.Linked d d')
    (hat : g.At done todo c c') (hoffset : d.offset = c.offset) : g.At done todo d d' := by
  obtain ⟨done', todo', hat'⟩ := h.place
  obtain ⟨rfl, rfl⟩ := place_unique hat.parts hat'.parts
    (hat.offset.symm.trans (hoffset.symm.trans hat'.offset))
  exact hat'

/-! ## The parts of a string -/

theorem startsDoubledBrace_cons (x : Char) (xs : List Char) :
    startsDoubledBrace (x :: xs) = true ↔
      (x = '\x7b' ∨ x = '\x7d') ∧ xs.head? = some x := by
  cases xs with
  | nil => simp [startsDoubledBrace]
  | cons y ys =>
      unfold startsDoubledBrace
      split
      · simp_all
      · simp_all
      · rename_i hopen hclose
        simp only [Bool.false_eq_true, false_iff, not_and]
        rintro (rfl | rfl) hy
        · cases hy
          exact hopen _ rfl
        · cases hy
          exact hclose _ rfl

/-- Braces are doubled in both texts or in none. -/
theorem startsDoubledBrace_before_after {done todo : List Part} (hat : g.At done todo c c') :
    startsDoubledBrace c.rest = startsDoubledBrace c'.rest ∧
      (startsDoubledBrace c.rest = true → SizeTwin todo 2 2) := by
  rcases hat.front with ⟨-, hrest, hrest'⟩ | ⟨x, more, rfl, hrest, hrest', hsound⟩ |
    ⟨x, xs, y, ys, hrest, hrest', hx, hy⟩
  · rw [hrest, hrest']
    exact ⟨rfl, fun h => nomatch h⟩
  · rw [hrest, hrest', Bool.eq_iff_iff, startsDoubledBrace_cons, startsDoubledBrace_cons]
    by_cases hbrace : x = '\x7b' ∨ x = '\x7d'
    · have hbreak : isBreak x = false := by
        rcases hbrace with rfl | rfl <;> decide
      rw [hbreak] at hsound
      cases more with
      | nil => simp
      | cons p more =>
          cases p with
          | renamed old new => cases hsound.1
          | kept y =>
              refine ⟨by simp, fun ⟨_, hy⟩ => ⟨[.kept x, .kept y], more, rfl, rfl, rfl⟩⟩
    · exact ⟨by simp [hbrace], fun h => absurd h.1 hbrace⟩
  · have hne : ∀ {z : Char} {zs : List Char}, isNameChar z = true →
        startsDoubledBrace (z :: zs) = false := by
      intro z zs hz
      rw [Bool.eq_false_iff, Ne, startsDoubledBrace_cons]
      rintro ⟨rfl | rfl, -⟩
      · exact ne_of_isNameChar hz (by decide) rfl
      · exact ne_of_isNameChar hz (by decide) rfl
    rw [hrest, hrest', hne hx, hne hy]
    exact ⟨rfl, fun h => nomatch h⟩

variable {rules : Rules} {low : Nat} {ts ts' : List Tree}

/-- The same character comes next in both texts, or in none of them, unless it may be in a name. -/
theorem Linked.head? (h : g.Linked c c') {x : Char} (hx : isNameChar x = false) :
    c.rest.head? = some x ↔ c'.rest.head? = some x := by
  obtain ⟨done, todo, hat⟩ := h.place
  rcases hat.front with ⟨-, hrest, hrest'⟩ | ⟨y, more, -, hrest, hrest', -⟩ |
    ⟨y, ys, z, zs, hrest, hrest', hy, hz⟩
  · rw [hrest, hrest']
  · rw [hrest, hrest', List.head?_cons, List.head?_cons]
  · rw [hrest, hrest', List.head?_cons, List.head?_cons]
    constructor
    · rintro heq
      cases heq
      rw [hx] at hy
      cases hy
    · rintro heq
      cases heq
      rw [hx] at hz
      cases hz

/-- A character that comes next and is none of a name is kept. -/
theorem At.exists_kept {done todo : List Part} (hat : g.At done todo c c') {x : Char}
    (hx : isNameChar x = false) (hhead : c.rest.head? = some x) :
    ∃ more, todo = .kept x :: more ∧ Sound (g.size + 1) (isBreak x) more := by
  rcases hat.front with ⟨-, hrest, -⟩ | ⟨y, more, htodo, hrest, -, hsound⟩ |
    ⟨y, ys, z, zs, hrest, -, hy, -⟩
  · rw [hrest] at hhead
    cases hhead
  · rw [hrest] at hhead
    cases hhead
    exact ⟨more, htodo, hsound⟩
  · rw [hrest] at hhead
    cases hhead
    rw [hx] at hy
    cases hy

theorem embedded_agrees (hr : g.Lockstep rules) (h : g.Linked c c')
    (hrow : g.Row low c.last ts.reverse ts'.reverse) :
    Agree g c (fun us us' d => g.Row low d.last us.reverse us'.reverse)
      (embedded rules ts c) (embedded rules ts' c') := by
  unfold embedded
  refine .remaining ?_
  have hslash : isNameChar '\\' = false := isNameChar_of_mem_separators _ (by decide)
  refine .ite (h.head? hslash) (fun hhead => ?_) fun _ => ?_
  · obtain ⟨done, todo, hat⟩ := h.place
    obtain ⟨more, rfl, hsound⟩ := hat.exists_kept hslash hhead
    rw [hat.rest, hat.rest']
    refine .bind (.advance hat (escapeSize_before_after hsound) h) (.refl c) ?_
    intro _ _ d d' hd hcd _ _
    exact .pure hd hcd (hrow.widen (Nat.le_refl _) hcd.last)
  · refine .skipGap h (.refl c) ?_
    intro hgap hcgap
    refine .remaining ?_
    refine .ite (hgap.head? (isNameChar_of_mem_separators _ (by decide))) (fun _ => ?_) fun _ => ?_
    · exact .pure hgap.skipComment.1 (hcgap.trans (Onward.skip _ _).reaches) hrow
    refine .ite (hgap.head? (isNameChar_of_mem_separators _ (by decide))) (fun hhead => ?_)
      fun _ => ?_
    · refine .bind (hr.braced _ _ hgap hhead) hcgap ?_
      intro t t' d d' hd hcd _ ht
      exact .pure hd hcd (Row.grow (c := skipGaps c) hrow hgap ht)
    · exact .error hgap.furthest

/-- What is known of a string of which some parts are read. -/
def Opened (g : Draft) (low : Nat) (s s' : List Tree × Bool) (d : Cursor) : Prop :=
  g.Row low d.last s.1.reverse s'.1.reverse ∧ s.2 = s'.2

theorem stringPart_agrees (hr : g.Lockstep rules) (h : g.Linked c c') {s : StringOpening}
    (hs : isQuoteMark s.mark) (hrow : g.Row low c.last ts.reverse ts'.reverse) :
    Agree g c (g.Opened low) (stringPart rules s ts c) (stringPart rules s ts' c') := by
  obtain ⟨done, todo, hat⟩ := h.place
  have hdoubled := startsDoubledBrace_before_after hat
  unfold stringPart
  refine .remaining ?_
  rw [← hdoubled.1]
  split
  · rename_i hcond
    simp only [Bool.and_eq_true] at hcond
    refine .bind (.advance hat (hdoubled.2 hcond.2) h) (.refl c) ?_
    intro _ _ d d' hd hcd _ _
    exact .pure hd hcd ⟨hrow.widen (Nat.le_refl _) hcd.last, rfl⟩
  · have hpiece := piece?_before_after hs [] hat.sound .plain false (fun _ => .inl rfl)
      (fun h => nomatch h)
    rw [← hat.rest, ← hat.rest', List.nil_append, before_nil, after_nil, List.length_nil] at hpiece
    rcases hpiece with ⟨hnone, hnone'⟩ | ⟨mid, rest, rfl, ⟨hsome, hsome'⟩ | ⟨hsome, hsome'⟩⟩
    · rw [hnone, hnone']
      refine .bind (embedded_agrees hr h hrow) (.refl c) ?_
      intro us us' d d' hd hcd _ hus
      exact .pure hd hcd ⟨hus, rfl⟩
    · rw [hsome, hsome']
      refine .bind (.advance hat ⟨mid, rest, rfl, rfl, rfl⟩ h) (.refl c) ?_
      intro _ _ d d' hd hcd _ _
      exact .pure hd hcd ⟨hrow.widen (Nat.le_refl _) hcd.last, rfl⟩
    · rw [hsome, hsome']
      refine .bind (.advance hat ⟨mid, rest, rfl, rfl, rfl⟩ h) (.refl c) ?_
      intro _ _ d d' hd hcd _ _
      refine .setFormat false hd ?_
      intro e e' he hoffset hlast
      refine .pure he ⟨?_, ?_⟩ ⟨?_, rfl⟩
      · rw [hoffset]
        exact hcd.offset
      · rw [hlast]
        exact hcd.last
      · rw [hlast]
        exact hrow.widen (Nat.le_refl _) hcd.last

theorem stringLiteral_agrees (hr : g.Lockstep rules) (h : g.Linked c c') {l l' : Lexeme}
    (hl : g.Lexed l l') (hstart : c.offset = l.start) {s : StringOpening}
    (hs : isQuoteMark s.mark) :
    Agree g c (g.Grown c) (stringLiteral rules l s c) (stringLiteral rules l' s c') := by
  unfold stringLiteral
  refine .accept hl h (.refl c) (Nat.le_of_eq hstart) ?_
  intro d d' hd hcd hstands
  refine .setFormat _ hd ?_
  intro e e' he hoffset hlast
  have hce : Reaches c e := ⟨by rw [hoffset]; exact hcd.offset, by rw [hlast]; exact hcd.last⟩
  have hopening : g.Twin (leaf .stringStart l) (leaf .stringStart l') :=
    .ofLexed hl fun hkind => nomatch hkind
  refine .bind (Q := g.Opened l.start) ?_ hce ?_
  · refine .loop he (.refl e) ⟨.single hopening (Nat.le_refl _) ?_, rfl⟩ ?_
    · rw [hlast, hstands.last, hl.ends]
      exact Nat.le_refl _
    · rintro ⟨us, closed⟩ ⟨us', closed'⟩ k k' hk hek ⟨hrow, rfl⟩
      dsimp only at hrow ⊢
      refine .ite Iff.rfl (fun _ => ?_) fun _ => ?_
      · exact .pure hk hek (.inl ⟨rfl, rfl, hrow, rfl⟩)
      · refine .bind (stringPart_agrees hr hk hs hrow) hek ?_
        intro r r' m m' hm hem _ hopened
        exact .pure hm hem (.inr ⟨r, r', rfl, rfl, hopened⟩)
  · rintro ⟨us, closed⟩ ⟨us', closed'⟩ k k' hk hck _ ⟨hrow, rfl⟩
    dsimp only at hrow ⊢
    refine .ite Iff.rfl (fun _ => ?_) fun _ => .error hk.furthest
    exact .node hk hck hl.start (Nat.le_of_eq hstart) hrow trivial

theorem strings_agrees (hr : g.Lockstep rules) (f : Follow) (h : g.Linked c c') {l l' : Lexeme}
    (hl : g.Lexed l l') (hstart : c.offset = l.start) {s : StringOpening}
    (hs : isQuoteMark s.mark) :
    Agree g c (g.Grown c) (strings rules f l s c) (strings rules f l' s c') := by
  unfold strings
  refine .bind (stringLiteral_agrees hr h hl hstart hs) (.refl c) ?_
  intro t t' d d' hd hcd _ ht
  refine .bind (Q := fun us us' e => g.Row l.start e.last us.reverse us'.reverse) ?_ hcd ?_
  · refine .loop hd (.refl d) (.single ht.twin (hstart ▸ ht.start_ge) ht.stop_le) ?_
    intro us us' e e' he hde hrow
    refine .peek he hde ?_
    intro m m' hm hlinked hreach
    have hrow : g.Row l.start m.here.last us.reverse us'.reverse := by
      rw [hm.last_eq]
      exact hrow
    rcases hm.token with ⟨old, new, hold, hnew⟩ | ⟨w, hname, hw, hw'⟩
    · rw [hold, hnew]
      exact .pure hlinked hreach (.inl ⟨rfl, rfl, hrow⟩)
    · rw [hw, hw']
      split
      · rename_i s
        refine .bind (stringLiteral_agrees hr hlinked hm.toLexed rfl (hm.quote _ hw)) hreach ?_
        intro x x' k k' hk hdk _ hx
        exact .pure hk hdk (.inr ⟨_, _, rfl, rfl, hrow.grow hlinked hx⟩)
      · exact .pure hlinked hreach (.inl ⟨rfl, rfl, hrow⟩)
  · intro us us' e e' he hce _ hrow
    rcases hrow.singles with ⟨u, u', hu, hu', hlow, htwin, hhigh⟩ | hmany
    · rw [List.reverse_eq_cons_iff, List.reverse_nil] at hu hu'
      subst hu hu'
      exact .pure he hce ⟨htwin, hstart ▸ hlow, hhigh⟩
    · have hmany : ∀ t, us ≠ [t] ∧ us' ≠ [t] := by
        intro t
        constructor
        · rintro rfl
          exact (hmany t).1 rfl
        · rintro rfl
          exact (hmany t).2 rfl
      split
      · exact absurd rfl (hmany _).1
      split
      · exact absurd rfl (hmany _).2
      · exact .node he hce hl.start (Nat.le_of_eq hstart) hrow trivial

theorem startsConversion_before_after {done todo : List Part} (hat : g.At done todo c c') :
    startsConversion c.rest = startsConversion c'.rest ∧
      (startsConversion c.rest = true → SizeTwin todo 2 2) := by
  rcases hat.front with ⟨-, hrest, hrest'⟩ | ⟨x, more, rfl, hrest, hrest', hsound⟩ |
    ⟨x, xs, y, ys, hrest, hrest', hx, hy⟩
  · rw [hrest, hrest']
    exact ⟨rfl, fun h => nomatch h⟩
  · rw [hrest, hrest']
    by_cases hbang : x = '!'
    · subst hbang
      cases more with
      | nil => exact ⟨rfl, fun h => nomatch h⟩
      | cons p more =>
          cases p with
          | renamed old new => cases hsound.1
          | kept y => exact ⟨rfl, fun _ => ⟨[.kept '!', .kept y], more, rfl, rfl, rfl⟩⟩
    · simp [startsConversion, hbang]
  · have hx' : x ≠ '!' := ne_of_isNameChar hx (by decide)
    have hy' : y ≠ '!' := ne_of_isNameChar hy (by decide)
    rw [hrest, hrest']
    simp [startsConversion, hx', hy']

theorem conversion_agrees (h : g.Linked c c') :
    Agree g c (fun _ _ _ => True) (conversion? c) (conversion? c') := by
  unfold conversion?
  refine .peek h (.refl c) ?_
  intro l l' hl hlinked hreach
  obtain ⟨done, todo, hat⟩ := hlinked.place
  have hstarts := startsConversion_before_after hat
  refine .ite (by rw [hstarts.1]) (fun hc => ?_) fun _ => .pure hlinked hreach trivial
  refine .returnTo hlinked hlinked hreach ?_
  intro d d' hd hcd hstands
  exact (Agree.advance (hd.at_of hat hstands.offset) (hstarts.2 hc) hd).imp hcd
    fun _ _ _ _ _ => trivial

theorem isFormatText_of_isNameChar {x : Char} (hx : isNameChar x = true) :
    isFormatText x = true := by
  have hopen : x ≠ '\x7b' := ne_of_isNameChar hx (by decide)
  have hclose : x ≠ '\x7d' := ne_of_isNameChar hx (by decide)
  have hfeed : x ≠ '\n' := ne_of_isNameChar hx (by decide)
  simp [isFormatText, hopen, hclose, hfeed]

/-- Text up to a brace or the end of a line is one stretch. -/
theorem formatText_before_after {done todo : List Part} (hat : g.At done todo c c') {x y : Char}
    {xs ys : List Char} (hrest : c.rest = x :: xs) (hrest' : c'.rest = y :: ys)
    (hx : isFormatText x = true) (hy : isFormatText y = true) :
    SizeTwin todo ((xs.takeWhile isFormatText).length + 1)
      ((ys.takeWhile isFormatText).length + 1) := by
  obtain ⟨mid, rest, rfl, hbefore, hafter, -⟩ :=
    takeWhile_passes (fun z hz => isFormatText_of_isNameChar hz) hat.sound
  refine ⟨mid, rest, rfl, ?_, ?_⟩
  · rw [← hbefore, ← hat.rest, hrest, List.takeWhile_cons_of_pos hx, List.length_cons]
  · rw [← hafter, ← hat.rest', hrest', List.takeWhile_cons_of_pos hy, List.length_cons]

theorem formatText_agrees (hr : g.Lockstep rules) (h : g.Linked c c') :
    Agree g c (fun ts ts' d => g.Row c.last d.last ts ts') (formatText rules c)
      (formatText rules c') := by
  unfold formatText
  refine .bind (Q := fun us us' e => g.Row c.last e.last us.reverse us'.reverse) ?_ (.refl c) ?_
  · refine .loop h (.refl c) (.nil (Nat.le_refl _)) ?_
    intro us us' e e' he hce hrow
    refine .remaining ?_
    obtain ⟨done, todo, hat⟩ := he.place
    -- A run of text is as long in the other text, up to the names that are marked in it.
    have run : ∀ {x y : Char} {xs ys : List Char}, e.rest = x :: xs → e'.rest = y :: ys →
        isFormatText x = true → isFormatText y = true →
        Agree g c (fun o o' e =>
          (o = none ∧ o' = none ∧ g.Row c.last e.last us.reverse us'.reverse) ∨
            ∃ b b', o = some b ∧ o' = some b' ∧ g.Row c.last e.last b.reverse b'.reverse)
          ((do
            Syntax.advance ((xs.takeWhile isFormatText).length + 1)
            return some us : Parser (Option (List Tree))) e)
          ((do
            Syntax.advance ((ys.takeWhile isFormatText).length + 1)
            return some us' : Parser (Option (List Tree))) e') := by
      intro x y xs ys hrest hrest' hx hy
      refine .bind (.advance hat (formatText_before_after hat hrest hrest' hx hy) he) hce ?_
      intro _ _ d d' hd hcd hed _
      exact .pure hd hcd (.inr ⟨_, _, rfl, rfl, hrow.widen (Nat.le_refl _) hed.last⟩)
    rcases hat.front with ⟨-, hrest, hrest'⟩ | ⟨x, more, rfl, hrest, hrest', hsound⟩ |
      ⟨x, xs, y, ys, hrest, hrest', hx, hy⟩
    · rw [hrest, hrest']
      exact .error he.furthest
    · rw [hrest, hrest']
      refine .ite Iff.rfl (fun hopen => ?_) fun hopen => ?_
      · refine .bind (hr.braced _ _ he ?_) hce ?_
        · rw [hrest, hopen, List.head?_cons]
        · intro t t' d d' hd hcd _ ht
          exact .pure hd hcd (.inr ⟨_, _, rfl, rfl, hrow.grow he ht⟩)
      refine .ite Iff.rfl (fun hclose => ?_) fun hclose => ?_
      · exact .pure he hce (.inl ⟨rfl, rfl, hrow⟩)
      refine .ite Iff.rfl (fun hfeed => ?_) fun hfeed => ?_
      · refine .skipGap he hce ?_
        intro hd hcd
        exact .pure hd hcd (.inr ⟨_, _, rfl, rfl, hrow⟩)
      · have hx : isFormatText x = true := by
          simp [isFormatText, hopen, hclose, hfeed]
        exact run hrest hrest' hx hx
    · have hplain : ∀ z, isNameChar z = true →
          z ≠ '\x7b' ∧ z ≠ '\x7d' ∧ z ≠ '\n' := fun z hz =>
        ⟨ne_of_isNameChar hz (by decide), ne_of_isNameChar hz (by decide),
          ne_of_isNameChar hz (by decide)⟩
      obtain ⟨hx₁, hx₂, hx₃⟩ := hplain x hx
      obtain ⟨hy₁, hy₂, hy₃⟩ := hplain y hy
      rw [hrest, hrest']
      simp only [hx₁, hx₂, hx₃, hy₁, hy₂, hy₃, if_false]
      exact run hrest hrest' (isFormatText_of_isNameChar hx) (isFormatText_of_isNameChar hy)
  · intro us us' e e' he hce _ hrow
    exact .pure he hce hrow

theorem bracedItems_agrees (hr : g.Lockstep rules) (h : g.Linked c c') :
    Agree g c (fun ts ts' d => g.Row c.offset d.last ts ts') (bracedItems rules c)
      (bracedItems rules c') := by
  unfold bracedItems
  refine .peek h (.refl c) ?_
  intro l l' hl hlinked hreach
  refine .ite (by rw [hl.same (Token.isWord .yield_) fun _ _ => rfl]) (fun _ => ?_) fun _ => ?_
  · refine .bind (hr.rule _ rfl _ _ hlinked) hreach ?_
    intro t t' d d' hd hcd _ ht
    exact .pure hd hcd (.single ht.twin (Nat.le_trans hreach.offset ht.start_ge) ht.stop_le)
  · refine .bind (expressions_agrees hr _ hlinked) hreach ?_
    intro r r' d d' hd hcd _ ⟨hrow, _⟩
    exact .pure hd hcd (hrow.widen hreach.offset (Nat.le_refl _))

theorem formatSpecifier_agrees (hr : g.Lockstep rules) (h : g.Linked c c') :
    Agree g c (fun ts ts' d => g.Row c.last d.last ts ts') (formatSpecifier? rules c)
      (formatSpecifier? rules c') := by
  unfold formatSpecifier?
  refine .peek h (.refl c) ?_
  intro l l' hl hlinked hreach
  have hcolon : isNameChar ':' = false := isNameChar_of_mem_separators _ (by decide)
  refine .ite (hlinked.head? hcolon) (fun hhead => ?_) fun _ => ?_
  · refine .returnTo hlinked hlinked hreach ?_
    intro d d' hd hcd hstands
    obtain ⟨done, todo, hat⟩ := hlinked.place
    obtain ⟨more, rfl, -⟩ := hat.exists_kept hcolon hhead
    have hat' := hd.at_of hat hstands.offset
    refine .bind (.advance hat' ⟨[.kept ':'], more, rfl, rfl, rfl⟩ hd) hcd ?_
    intro _ _ e e' he hce _ hpassed
    refine .bind (formatText_agrees hr he) hce ?_
    intro ts ts' k k' hk hck _ hrow
    have hlow : l.start ≤ e.last := by
      rw [hstands.offset] at hpassed
      exact hpassed
    refine .bind (.node hk hck hlinked.cut hl.start_ge (hrow.widen hlow (Nat.le_refl _)) trivial)
      (.refl c) ?_
    intro t t' m m' hm hcm _ ht
    refine .pure hm hcm (.single ht.twin ?_ ht.stop_le)
    exact Nat.le_trans h.last_le ht.start_ge
  · exact .pure hlinked hreach (.nil hreach.last)

theorem braced_agrees (hr : g.Lockstep rules) (h : g.Linked c c')
    (hhead : c.rest.head? = some '\x7b') :
    Agree g c (g.Grown c) (braced rules c) (braced rules c') := by
  obtain ⟨done, todo, hat⟩ := h.place
  obtain ⟨more, rfl, -⟩ := hat.exists_kept (isNameChar_of_mem_separators _ (by decide)) hhead
  unfold braced
  refine .get ?_
  refine .bind (.advance hat ⟨[.kept '\x7b'], more, rfl, rfl, rfl⟩ h) (.refl c) ?_
  intro _ _ d d' hd hcd _ _
  refine .bind (bracedItems_agrees hr hd) hcd ?_
  intro ts ts' e e' he hce _ hrow
  refine .bind (.passed (fun _ _ => rfl) he) hce ?_
  intro _ _ k k' hk hck hek _
  refine .bind (conversion_agrees hk) hck ?_
  intro _ _ m m' hm hcm hkm _
  refine .bind (formatSpecifier_agrees hr hm) hcm ?_
  intro us us' n n' hn hcn hmn hus
  refine .expect (fun _ _ => rfl) hn hcn ?_
  intro l l' q q' hl _ hq hcq hstands
  refine .node hq hcq h.cut (Nat.le_refl _) (.append (hrow.widen hcd.offset ?_)
    (hus.widen (Nat.le_refl _) hstands.reaches.last)) trivial
  exact Nat.le_trans hek.last hkm.last

end Longhand.Draft
