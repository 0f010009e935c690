import Longhand.Proofs.Twin

/-!
# Readings that agree

Two readings of the texts of a draft agree when both fail at one place, or both end at one place
with results that belong together.  Readings that are put together from agreeing ones agree.
-/

namespace Longhand.Draft

open Syntax Text

variable {g : Draft} {α β : Type}

/-- Whether a cursor stands behind another, and the last token that was read before it too. -/
structure Reaches (c d : Cursor) : Prop where
  offset : c.offset ≤ d.offset
  last : c.last ≤ d.last

theorem Reaches.refl (c : Cursor) : Reaches c c :=
  ⟨Nat.le_refl _, Nat.le_refl _⟩

theorem Reaches.trans {c d e : Cursor} (h : Reaches c d) (h' : Reaches d e) : Reaches c e :=
  ⟨Nat.le_trans h.offset h'.offset, Nat.le_trans h.last h'.last⟩

theorem Onward.reaches {c d : Cursor} (h : Onward c d) : Reaches c d :=
  ⟨h.offset_le, Nat.le_of_eq h.last.symm⟩

theorem Linked.withFurthest {c c' : Cursor} (h : g.Linked c c') {f f' : Nat} (hf : g.Cut f f') :
    g.Linked { c with furthest := f } { c' with furthest := f' } where
  size := h.size
  size' := h.size'
  place := by
    obtain ⟨done, todo, hat⟩ := h.place
    exact ⟨done, todo, hat.parts, hat.rest, hat.rest', hat.offset, hat.offset'⟩
  last := h.last
  last_le := h.last_le
  indents := h.indents
  inFormat := h.inFormat
  supplied := h.supplied
  furthest := hf

/-- Whether two readings from a place agree, with results that satisfy a relation. -/
inductive Agree (g : Draft) (c : Cursor) (Q : α → α → Cursor → Prop) :
    Except Nat (α × Cursor) → Except Nat (α × Cursor) → Prop
  | ok {a a' : α} {d d' : Cursor} :
      g.Linked d d' → Reaches c d → Q a a' d → Agree g c Q (.ok (a, d)) (.ok (a', d'))
  | error {e e' : Nat} : g.Cut e e' → Agree g c Q (.error e) (.error e')

namespace Agree

variable {c₀ c c' : Cursor} {Q : α → α → Cursor → Prop} {R : β → β → Cursor → Prop}

theorem pure {a a' : α} (h : g.Linked c c') (hc : Reaches c₀ c) (hq : Q a a' c) :
    Agree g c₀ Q ((Pure.pure a : Parser α) c) ((Pure.pure a' : Parser α) c') :=
  .ok h hc hq

theorem reject (h : g.Linked c c') :
    Agree g c₀ Q ((Syntax.reject : Parser α) c) ((Syntax.reject : Parser α) c') :=
  .error h.furthest

/-- A reading goes on where the one before it ends. -/
theorem bind {b : Cursor} {p p' : Parser α} {f f' : α → Parser β}
    (hp : Agree g b Q (p c) (p' c')) (hb : Reaches c₀ b)
    (hf : ∀ a a' d d', g.Linked d d' → Reaches c₀ d → Reaches b d → Q a a' d →
      Agree g c₀ R (f a d) (f' a' d')) :
    Agree g c₀ R ((p >>= f) c) ((p' >>= f') c') := by
  show Agree g c₀ R (Except.bind (p c) _) (Except.bind (p' c') _)
  cases hr : p c with
  | ok r =>
      cases hr' : p' c' with
      | ok r' =>
          rw [hr, hr'] at hp
          cases hp with
          | ok hlinked hreach hq => exact hf _ _ _ _ hlinked (hb.trans hreach) hreach hq
      | error e' =>
          rw [hr, hr'] at hp
          cases hp
  | error e =>
      cases hr' : p' c' with
      | ok r' =>
          rw [hr, hr'] at hp
          cases hp
      | error e' =>
          rw [hr, hr'] at hp
          cases hp with
          | error hcut => exact .error hcut

/-- What holds of the results may be weakened, and the place moved back. -/
theorem imp {Q' : α → α → Cursor → Prop} {r r' : Except Nat (α × Cursor)} (h : Agree g c Q r r')
    (hc : Reaches c₀ c) (hq : ∀ a a' d, Reaches c d → Q a a' d → Q' a a' d) :
    Agree g c₀ Q' r r' := by
  cases h with
  | ok hlinked hreach hQ => exact .ok hlinked (hc.trans hreach) (hq _ _ _ hreach hQ)
  | error hcut => exact .error hcut

/-- Two readings that are chosen from in the same way. -/
theorem ite {p p' : Prop} [Decidable p] [Decidable p'] {q q' r r' : Parser α} (hp : p ↔ p')
    (hq : p → Agree g c₀ Q (q c) (q' c')) (hr : ¬ p → Agree g c₀ Q (r c) (r' c')) :
    Agree g c₀ Q ((if p then q else r) c) ((if p' then q' else r') c') := by
  by_cases h : p
  · rw [if_pos h, if_pos (hp.1 h)]
    exact hq h
  · rw [if_neg h, if_neg (mt hp.2 h)]
    exact hr h

theorem firstOf {p p' q q' : Parser α} (hp : Agree g c₀ Q (p c) (p' c'))
    (h : g.Linked c c')
    (hq : ∀ d d', g.Linked d d' → d.offset = c.offset → d.last = c.last →
      Agree g c₀ Q (q d) (q' d')) :
    Agree g c₀ Q (Syntax.firstOf p q c) (Syntax.firstOf p' q' c') := by
  unfold Syntax.firstOf
  cases hr : p c with
  | ok r =>
      cases hr' : p' c' with
      | ok r' =>
          rw [hr, hr'] at hp
          exact hp
      | error e' =>
          rw [hr, hr'] at hp
          cases hp
  | error e =>
      cases hr' : p' c' with
      | ok r' =>
          rw [hr, hr'] at hp
          cases hp
      | error e' =>
          rw [hr, hr'] at hp
          cases hp with
          | error hcut =>
              exact hq _ _ (h.withFurthest (h.furthest.max hcut)) rfl rfl

/-- Steps that keep a relation keep it as long as they are repeated. -/
theorem iterate {step step' : α → Parser (Option α)} {I : α → α → Cursor → Prop} (n : Nat)
    {a a' : α} (h : g.Linked c c') (hc : Reaches c₀ c) (hI : I a a' c)
    (hstep : ∀ a a' d d', g.Linked d d' → Reaches c₀ d → I a a' d →
      Agree g c₀ (fun o o' e =>
        (o = none ∧ o' = none ∧ I a a' e) ∨ ∃ b b', o = some b ∧ o' = some b' ∧ I b b' e)
        (step a d) (step' a' d')) :
    Agree g c₀ I (Syntax.iterate step n a c) (Syntax.iterate step' n a' c') := by
  induction n generalizing a a' c c' with
  | zero => exact .pure h hc hI
  | succ n ih =>
      have hstep' := hstep a a' c c' h hc hI
      rw [Syntax.iterate, Syntax.iterate]
      show Agree g c₀ I (Except.bind (step a c) _) (Except.bind (step' a' c') _)
      cases hr : step a c with
      | ok r =>
          cases hr' : step' a' c' with
          | ok r' =>
              rw [hr, hr'] at hstep'
              cases hstep' with
              | ok hlinked hreach hq =>
                  rcases hq with ⟨rfl, rfl, hI'⟩ | ⟨b, b', rfl, rfl, hI'⟩
                  · exact .pure hlinked hreach hI'
                  · exact ih hlinked hreach hI'
          | error e' =>
              rw [hr, hr'] at hstep'
              cases hstep'
      | error e =>
          cases hr' : step' a' c' with
          | ok r' =>
              rw [hr, hr'] at hstep'
              cases hstep'
          | error e' =>
              rw [hr, hr'] at hstep'
              cases hstep' with
              | error hcut => exact .error hcut

theorem loop {step step' : α → Parser (Option α)} {I : α → α → Cursor → Prop}
    {a a' : α} (h : g.Linked c c') (hc : Reaches c₀ c) (hI : I a a' c)
    (hstep : ∀ a a' d d', g.Linked d d' → Reaches c₀ d → I a a' d →
      Agree g c₀ (fun o o' e =>
        (o = none ∧ o' = none ∧ I a a' e) ∨ ∃ b b', o = some b ∧ o' = some b' ∧ I b b' e)
        (step a d) (step' a' d')) :
    Agree g c₀ I (Syntax.loop a step c) (Syntax.loop a' step' c') := by
  unfold Syntax.loop
  rw [h.size, h.size']
  exact iterate _ h hc hI hstep

end Agree

/-! ## Reading tokens -/

section Tokens

variable {c₀ c c' : Cursor} {l l' : Lexeme} {R : β → β → Cursor → Prop}

/-- What is known of a token that was looked at from a place. -/
structure Peeked (g : Draft) (c : Cursor) (l l' : Lexeme) : Prop extends g.Lexed l l' where
  start_ge : c.offset ≤ l.start
  last_eq : l.here.last = c.last
  opens_of : g.AtOpening c → g.AtOpening l.here
  barred_of : Barred c → (l.token = .equals ∨ ∃ t, l.token = .layout t) ∧ Barred l.here
  barred_equals : l.token = .equals → Barred c

/-- The token that is looked at is further on. -/
theorem Peeked.reaches (h : g.Peeked c l l') : Reaches c l.here :=
  ⟨h.start_ge, Nat.le_of_eq h.last_eq.symm⟩

theorem Linked.peeked (h : g.Linked c c') (e : Expect) :
    g.Peeked c (c.read e) (c'.read e) where
  toLexed := h.lexed e
  start_ge := (read_spec c e).2.1.offset_le
  last_eq := (read_spec c e).2.1.last
  opens_of hopen := hopen.read h e
  barred_of hbarred := hbarred.read e
  barred_equals hequals := barred_of_read hequals

/-- Whether a cursor is another one, save what was read furthest on. -/
def Stands (d place : Cursor) : Prop :=
  d = { place with furthest := d.furthest }

namespace Stands

variable {d place : Cursor}

theorem refl (place : Cursor) : Stands place place :=
  rfl

theorem reaches (h : Stands d place) : Reaches d place := by
  rw [h]
  exact ⟨Nat.le_refl _, Nat.le_refl _⟩

theorem offset (h : Stands d place) : d.offset = place.offset := by
  rw [h]

theorem last (h : Stands d place) : d.last = place.last := by
  rw [h]

theorem atOpening (h : Stands d place) : g.AtOpening d ↔ g.AtOpening place := by
  unfold AtOpening
  rw [h.offset]

theorem barred (h : Stands d place) : Barred d ↔ Barred place := by
  rw [h]
  rfl

end Stands

/-- Whether a cursor stands behind a token that was read from another. -/
structure Behind (c : Cursor) (l : Lexeme) (d : Cursor) : Prop where
  stands : Stands d l.next
  reaches : Reaches c d
  start_le : l.start ≤ d.last

namespace Behind

variable {d : Cursor}

theorem offset (h : Behind c l d) : d.offset = l.next.offset :=
  h.stands.offset

theorem last (h : Behind c l d) : d.last = l.next.last :=
  h.stands.last

theorem atOpening (h : Behind c l d) : g.AtOpening d ↔ g.AtOpening l.next :=
  h.stands.atOpening

theorem barred (h : Behind c l d) : Barred d ↔ Barred l.next :=
  h.stands.barred

theorem before {b : Cursor} (h : Behind c l d) (hb : Reaches b c) : Behind b l d :=
  ⟨h.stands, hb.trans h.reaches, h.start_le⟩

end Behind

/-- Behind a token one is further on than before it. -/
theorem Lexed.accepted (hl : g.Lexed l l') (h : g.Linked c c') (hle : c.offset ≤ l.start) :
    g.Linked { l.next with furthest := max c.furthest l.next.last }
        { l'.next with furthest := max c'.furthest l'.next.last } ∧
      Behind c l { l.next with furthest := max c.furthest l.next.last } := by
  have hle' := hl.start_le
  have hends := hl.ends
  have hlast := h.last_le
  refine ⟨hl.next.withFurthest (h.furthest.max hl.next.last), rfl, ⟨?_, ?_⟩, ?_⟩
  · exact Nat.le_trans hle hle'
  · show c.last ≤ l.next.last
    omega
  · show l.start ≤ l.next.last
    omega

namespace Agree

theorem peek {e : Expect} {f f' : Lexeme → Parser β} (h : g.Linked c c') (hc : Reaches c₀ c)
    (hf : ∀ l l', g.Peeked c l l' → g.Linked l.here l'.here → Reaches c₀ l.here →
      Agree g c₀ R (f l l.here) (f' l' l'.here)) :
    Agree g c₀ R ((Syntax.peek e >>= f) c) ((Syntax.peek e >>= f') c') :=
  hf _ _ (h.peeked e) (h.read e).here (hc.trans (read_spec c e).2.1.reaches)

theorem accept {f f' : Unit → Parser β} (hl : g.Lexed l l') (h : g.Linked c c')
    (hc : Reaches c₀ c) (hle : c.offset ≤ l.start)
    (hf : ∀ d d', g.Linked d d' → Reaches c₀ d → Behind c l d →
      Agree g c₀ R (f () d) (f' () d')) :
    Agree g c₀ R ((Syntax.accept l >>= f) c) ((Syntax.accept l' >>= f') c') := by
  obtain ⟨hlinked, hbehind⟩ := hl.accepted h hle
  exact hf _ _ hlinked (hc.trans hbehind.reaches) hbehind

theorem returnTo {place place' : Cursor} {f f' : Unit → Parser β} (h : g.Linked c c')
    (hplace : g.Linked place place') (hc : Reaches c₀ place)
    (hf : ∀ d d', g.Linked d d' → Reaches c₀ d → Stands d place →
      Agree g c₀ R (f () d) (f' () d')) :
    Agree g c₀ R ((Syntax.returnTo place >>= f) c) ((Syntax.returnTo place' >>= f') c') :=
  hf _ _ (hplace.withFurthest h.furthest) ⟨hc.offset, hc.last⟩ rfl

theorem lastEnd {f f' : Nat → Parser β}
    (hf : ∀ o', g.Cut c.last o' → Agree g c₀ R (f c.last c) (f' o' c')) (h : g.Linked c c') :
    Agree g c₀ R ((Syntax.lastEnd >>= f) c) ((Syntax.lastEnd >>= f') c') :=
  hf _ h.last

theorem get {f f' : Cursor → Parser β} (hf : Agree g c₀ R (f c c) (f' c' c')) :
    Agree g c₀ R (((MonadState.get : Parser Cursor) >>= f) c)
      (((MonadState.get : Parser Cursor) >>= f') c') :=
  hf

/-- A token that is wanted is read, and else the reading fails. -/
theorem expect {e : Expect} {isWanted : Token → Bool} {f f' : Lexeme → Parser β}
    (hw : ∀ a b, isWanted (.name a) = isWanted (.name b)) (h : g.Linked c c') (hc : Reaches c₀ c)
    (hf : ∀ l l' d d', g.Peeked c l l' → isWanted l.token = true → g.Linked d d' → Reaches c₀ d →
      Behind c l d → Agree g c₀ R (f l d) (f' l' d')) :
    Agree g c₀ R ((Syntax.expect e isWanted >>= f) c) ((Syntax.expect e isWanted >>= f') c') := by
  unfold Syntax.expect
  simp only [bind_assoc]
  refine .peek h hc ?_
  intro l l' hl hlinked hreach
  rw [← hl.same isWanted hw]
  split
  · rename_i hwanted
    simp only [bind_assoc, pure_bind]
    exact .accept hl.toLexed hlinked hreach (Nat.le_refl _)
      fun d d' hd hd₀ hbehind => hf l l' d d' hl hwanted hd hd₀ (hbehind.before hl.reaches)
  · exact .error hlinked.furthest

/-- A token that is wanted is read, and else nothing. -/
theorem optional {e : Expect} {isWanted : Token → Bool} {f f' : Option Lexeme → Parser β}
    (hw : ∀ a b, isWanted (.name a) = isWanted (.name b)) (h : g.Linked c c') (hc : Reaches c₀ c)
    (hnone : ∀ l l', g.Peeked c l l' → isWanted l.token = false → g.Linked l.here l'.here →
      Reaches c₀ l.here → Agree g c₀ R (f none l.here) (f' none l'.here))
    (hsome : ∀ l l' d d', g.Peeked c l l' → isWanted l.token = true → g.Linked d d' →
      Reaches c₀ d → Behind c l d → Agree g c₀ R (f (some l) d) (f' (some l') d')) :
    Agree g c₀ R ((Syntax.optional? e isWanted >>= f) c)
      ((Syntax.optional? e isWanted >>= f') c') := by
  unfold Syntax.optional?
  simp only [bind_assoc]
  refine .peek h hc ?_
  intro l l' hl hlinked hreach
  rw [← hl.same isWanted hw]
  split
  · rename_i hwanted
    simp only [bind_assoc, pure_bind]
    exact .accept hl.toLexed hlinked hreach (Nat.le_refl _)
      fun d d' hd hd₀ hbehind => hsome l l' d d' hl hwanted hd hd₀ (hbehind.before hl.reaches)
  · rename_i hwanted
    simp only [pure_bind]
    exact hnone l l' hl (by simpa using hwanted) hlinked hreach

/-- A token that may be there is passed in both texts or in none. -/
theorem passed {e : Expect} {isWanted : Token → Bool}
    (hw : ∀ a b, isWanted (.name a) = isWanted (.name b)) (h : g.Linked c c') :
    Agree g c (fun _ _ _ => True) (Syntax.optional? e isWanted c)
      (Syntax.optional? e isWanted c') := by
  unfold Syntax.optional?
  refine .peek h (.refl c) ?_
  intro l l' hl hlinked hreach
  refine .ite (by rw [hl.same isWanted hw]) (fun _ => ?_) fun _ => .pure hlinked hreach trivial
  refine .accept hl.toLexed hlinked hreach (Nat.le_refl _) ?_
  intro d d' hd hcd _
  exact .pure hd hcd trivial

end Agree

end Tokens

end Longhand.Draft
