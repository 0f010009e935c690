import Longhand.Proofs.Grammar.SimpleStatement

/-!
# Leaves astray

In a pattern the name `_` is read otherwise than any other name, and in the block of a match
statement the name `case` is.  Where a marked name is spelled so, two readings need not agree.  But
then the tree before the replacement has a leaf at the marked name that is not the name of a keyword
argument: the leaf is astray.  Readings tend to agree when they agree unless a leaf is astray.
-/

namespace Longhand.Draft

open Syntax Text

variable {g : Draft} {α β : Type}

/-- Whether no marked name is spelled like a keyword of a match statement. -/
def Regular (g : Draft) : Prop :=
  ∀ s old new, g.Marked s old new → ∀ n, n = old ∨ n = new → n ≠ "_".toList ∧ n ≠ "case".toList

/-- Whether a tree has a leaf at a marked name that is not the name of a keyword argument. -/
inductive Stray (g : Draft) : Tree → Prop
  | pattern {role : Option Role} {s : Span} {x : String} {old new : List Char} :
      g.Marked s old new → Stray g (.node .casePattern role s x [])
  | name {kind : Kind} {role : Option Role} {s : Span} {x : String} {children : List Tree}
      {t : Tree} {old new : List Char} :
      t ∈ children → t.children = [] → t.role = none → g.Marked t.span old new →
      Stray g (.node kind role s x children)
  | inside {kind : Kind} {role : Option Role} {s : Span} {x : String} {children : List Tree}
      {t : Tree} : t ∈ children → Stray g t → Stray g (.node kind role s x children)

/-- Whether one of some trees has a leaf astray. -/
def StrayIn (g : Draft) (ts : List Tree) : Prop :=
  ∃ t ∈ ts, g.Stray t

theorem Stray.withRole {t : Tree} (h : g.Stray t) (r : Role) : g.Stray (t.withRole r) := by
  cases h with
  | pattern hmarked => exact .pattern hmarked
  | name hmem hleaf hrole hmarked => exact .name hmem hleaf hrole hmarked
  | inside hmem hstray => exact .inside hmem hstray

namespace StrayIn

variable {t : Tree} {ts us : List Tree}

theorem head (h : g.Stray t) : g.StrayIn (t :: ts) :=
  ⟨t, List.mem_cons_self, h⟩

theorem tail (h : g.StrayIn ts) : g.StrayIn (t :: ts) := by
  obtain ⟨u, hu, hstray⟩ := h
  exact ⟨u, List.mem_cons_of_mem _ hu, hstray⟩

theorem left (h : g.StrayIn ts) : g.StrayIn (ts ++ us) := by
  obtain ⟨u, hu, hstray⟩ := h
  exact ⟨u, List.mem_append_left _ hu, hstray⟩

theorem right (h : g.StrayIn us) : g.StrayIn (ts ++ us) := by
  obtain ⟨u, hu, hstray⟩ := h
  exact ⟨u, List.mem_append_right _ hu, hstray⟩

theorem reverse (h : g.StrayIn ts) : g.StrayIn ts.reverse := by
  obtain ⟨u, hu, hstray⟩ := h
  exact ⟨u, List.mem_reverse.2 hu, hstray⟩

end StrayIn

/-! ## What a reading yields -/

/-- Whether what a reading results in, if anything, has a property. -/
def Gives (r : Except Nat (α × Cursor)) (S : α → Prop) : Prop :=
  ∀ a d, r = .ok (a, d) → S a

/-- Whether the results of a parser have a property, wherever it begins. -/
def Yields (p : Parser α) (S : α → Prop) : Prop :=
  ∀ c, Gives (p c) S

section Gives

variable {c : Cursor} {S S' : α → Prop} {T : β → Prop}

theorem Gives.error {n : Nat} : Gives (.error n : Except Nat (α × Cursor)) S := by
  intro a d hok
  cases hok

/-- What a reading gives, and where it ends, is known to what comes behind it. -/
theorem Gives.step {p : Parser α} {f : α → Parser β}
    (hf : ∀ a d, p c = .ok (a, d) → Gives (f a d) T) : Gives ((p >>= f) c) T := by
  intro b e hok
  change Except.bind (p c) _ = _ at hok
  cases hr : p c with
  | error _ =>
      rw [hr] at hok
      cases hok
  | ok r =>
      rw [hr] at hok
      exact hf r.1 r.2 hr b e hok

theorem Gives.bind {p : Parser α} {f : α → Parser β} (hp : Gives (p c) S)
    (hf : ∀ a, S a → Yields (f a) T) : Gives ((p >>= f) c) T :=
  .step fun a d hok => hf a (hp a d hok) d

theorem Gives.ite {p : Prop} [Decidable p] {q r : Parser α} (hq : p → Gives (q c) S)
    (hr : ¬ p → Gives (r c) S) : Gives ((if p then q else r) c) S := by
  by_cases h : p
  · rw [if_pos h]
    exact hq h
  · rw [if_neg h]
    exact hr h

theorem Gives.peek {e : Expect} {f : Lexeme → Parser β}
    (h : Gives (f (c.read e) (c.read e).here) T) : Gives ((Syntax.peek e >>= f) c) T :=
  h

/-- A token that is wanted is read from where it begins, and else nothing is given. -/
theorem Gives.expect {e : Expect} {isWanted : Token → Bool} {f : Lexeme → Parser β}
    (hf : isWanted (c.read e).token = true → Yields (f (c.read e)) T) :
    Gives ((Syntax.expect e isWanted >>= f) c) T := by
  unfold Syntax.expect
  simp only [bind_assoc]
  show Gives (((if isWanted (c.read e).token = true then
    (do Syntax.accept (c.read e); Pure.pure (c.read e) : Parser Lexeme) else Syntax.reject) >>= f)
      (c.read e).here) T
  split
  · rename_i hwanted
    exact hf hwanted _
  · exact .error

end Gives

namespace Yields

variable {S : α → Prop} {T : β → Prop}

theorem pure {a : α} (h : S a) : Yields (Pure.pure a) S := by
  intro c b d hok
  cases hok
  exact h

theorem reject : Yields (Syntax.reject : Parser α) S := by
  intro c b d hok
  cases hok

theorem bind {p : Parser α} {f : α → Parser β} (hf : ∀ a, Yields (f a) T) :
    Yields (p >>= f) T :=
  fun _ => Gives.bind (S := fun _ => True) (fun _ _ _ => trivial) fun a _ => hf a

/-- What a parser yields is known to what comes behind it. -/
theorem next {p : Parser α} {f : α → Parser β} (hp : Yields p S)
    (hf : ∀ a, S a → Yields (f a) T) : Yields (p >>= f) T :=
  fun c => (hp c).bind hf

theorem ite {p : Prop} [Decidable p] {q r : Parser α} (hq : Yields q S) (hr : Yields r S) :
    Yields (if p then q else r) S := by
  by_cases h : p
  · rw [if_pos h]
    exact hq
  · rw [if_neg h]
    exact hr

theorem node {kind : Kind} {start : Nat} {children : List Tree} (h : g.StrayIn children) :
    Yields (Syntax.node kind start children) g.Stray := by
  obtain ⟨t, ht, hstray⟩ := h
  intro c u d hok
  cases hok
  exact .inside ht hstray

theorem iterate {step : α → Parser (Option α)} (n : Nat) {a : α} (ha : S a)
    (hstep : ∀ a, S a → Yields (step a) fun o => ∀ b, o = some b → S b) :
    Yields (Syntax.iterate step n a) S := by
  induction n generalizing a with
  | zero => exact pure ha
  | succ n ih =>
      rw [Syntax.iterate]
      refine next (hstep a ha) ?_
      intro o ho
      cases o with
      | none => exact pure ha
      | some b => exact ih (ho b rfl)

theorem loop {step : α → Parser (Option α)} {a : α} (ha : S a)
    (hstep : ∀ a, S a → Yields (step a) fun o => ∀ b, o = some b → S b) :
    Yields (Syntax.loop a step) S := by
  intro c b d hok
  exact iterate _ ha hstep c b d hok

end Yields

/-! ## Tendency -/

/-- Whether two readings agree, or the first one yields a leaf astray if it yields anything. -/
inductive Tends (g : Draft) (c : Cursor) (Q : α → α → Cursor → Prop) (S : α → Prop)
    (r r' : Except Nat (α × Cursor)) : Prop
  | agree : Agree g c Q r r' → Tends g c Q S r r'
  | astray : ¬ g.Regular → Gives r S → Tends g c Q S r r'

namespace Tends

variable {c₀ c c' : Cursor} {Q : α → α → Cursor → Prop} {R : β → β → Cursor → Prop}
  {S : α → Prop} {T : β → Prop}

theorem bind {b : Cursor} {p p' : Parser α} {f f' : α → Parser β}
    (hp : Tends g b Q S (p c) (p' c')) (hb : Reaches c₀ b)
    (hf : ∀ a a' d d', g.Linked d d' → Reaches c₀ d → Reaches b d → Q a a' d →
      Tends g c₀ R T (f a d) (f' a' d'))
    (hS : ∀ a, S a → Yields (f a) T) :
    Tends g c₀ R T ((p >>= f) c) ((p' >>= f') c') := by
  show Tends g c₀ R T (Except.bind (p c) _) (Except.bind (p' c') _)
  cases hp with
  | agree hagree =>
      cases hr : p c with
      | ok r =>
          cases hr' : p' c' with
          | ok r' =>
              rw [hr, hr'] at hagree
              cases hagree with
              | ok hlinked hreach hq => exact hf _ _ _ _ hlinked (hb.trans hreach) hreach hq
          | error e' =>
              rw [hr, hr'] at hagree
              cases hagree
      | error e =>
          cases hr' : p' c' with
          | ok r' =>
              rw [hr, hr'] at hagree
              cases hagree
          | error e' =>
              rw [hr, hr'] at hagree
              cases hagree with
              | error hcut => exact .agree (.error hcut)
  | astray hodd hstray => exact .astray hodd (hstray.bind hS)

/-- A reading that tends to agree behind one that agrees. -/
theorem after {b : Cursor} {p p' : Parser α} {f f' : α → Parser β}
    (hp : Agree g b Q (p c) (p' c')) (hb : Reaches c₀ b)
    (hf : ∀ a a' d d', g.Linked d d' → Reaches c₀ d → Reaches b d → Q a a' d →
      Tends g c₀ R T (f a d) (f' a' d')) :
    Tends g c₀ R T ((p >>= f) c) ((p' >>= f') c') :=
  bind (S := fun _ => False) (.agree hp) hb hf fun _ hfalse => hfalse.elim

theorem pure {a a' : α} (h : g.Linked c c') (hc : Reaches c₀ c) (hq : Q a a' c) :
    Tends g c₀ Q S ((Pure.pure a : Parser α) c) ((Pure.pure a' : Parser α) c') :=
  .agree (.pure h hc hq)

theorem ite {p p' : Prop} [Decidable p] [Decidable p'] {q q' r r' : Parser α} (hp : p ↔ p')
    (hq : p → Tends g c₀ Q S (q c) (q' c')) (hr : ¬ p → Tends g c₀ Q S (r c) (r' c')) :
    Tends g c₀ Q S ((if p then q else r) c) ((if p' then q' else r') c') := by
  by_cases h : p
  · rw [if_pos h, if_pos (hp.1 h)]
    exact hq h
  · rw [if_neg h, if_neg (mt hp.2 h)]
    exact hr h

theorem imp {Q' : α → α → Cursor → Prop} {r r' : Except Nat (α × Cursor)}
    (h : Tends g c Q S r r') (hc : Reaches c₀ c)
    (hq : ∀ a a' d, Reaches c d → Q a a' d → Q' a a' d) : Tends g c₀ Q' S r r' := by
  cases h with
  | agree hagree => exact .agree (hagree.imp hc hq)
  | astray hodd hstray => exact .astray hodd hstray

theorem firstOf {p p' q q' : Parser α} (hp : Agree g c₀ Q (p c) (p' c')) (h : g.Linked c c')
    (hq : ∀ d d', g.Linked d d' → d.offset = c.offset → d.last = c.last →
      Tends g c₀ Q S (q d) (q' d')) :
    Tends g c₀ Q S (Syntax.firstOf p q c) (Syntax.firstOf p' q' c') := by
  unfold Syntax.firstOf
  cases hr : p c with
  | ok r =>
      rw [hr] at hp
      cases hr' : p' c' with
      | ok r' =>
          rw [hr'] at hp
          exact .agree hp
      | error e' =>
          rw [hr'] at hp
          cases hp
  | error e =>
      rw [hr] at hp
      cases hr' : p' c' with
      | ok r' =>
          rw [hr'] at hp
          cases hp
      | error e' =>
          rw [hr'] at hp
          cases hp with
          | error hcut => exact hq _ _ (h.withFurthest (h.furthest.max hcut)) rfl rfl

theorem returnTo {place place' : Cursor} {f f' : Unit → Parser β} (h : g.Linked c c')
    (hplace : g.Linked place place') (hc : Reaches c₀ place)
    (hf : ∀ d d', g.Linked d d' → Reaches c₀ d → Stands d place →
      Tends g c₀ R T (f () d) (f' () d')) :
    Tends g c₀ R T ((Syntax.returnTo place >>= f) c) ((Syntax.returnTo place' >>= f') c') :=
  hf _ _ (hplace.withFurthest h.furthest) ⟨hc.offset, hc.last⟩ rfl

theorem earlier {r r' : Except Nat (Tree × Cursor)} {S : Tree → Prop}
    (h : Tends g c (g.Grown c) S r r') (hc : Reaches c₀ c) : Tends g c₀ (g.Grown c₀) S r r' :=
  h.imp hc fun _ _ _ _ ht => ht.before hc

theorem iterate {step step' : α → Parser (Option α)} {I : α → α → Cursor → Prop} (n : Nat)
    {a a' : α} (h : g.Linked c c') (hc : Reaches c₀ c) (hI : I a a' c)
    (hstep : ∀ a a' d d', g.Linked d d' → Reaches c₀ d → I a a' d →
      Tends g c₀ (fun o o' e =>
        (o = none ∧ o' = none ∧ I a a' e) ∨ ∃ b b', o = some b ∧ o' = some b' ∧ I b b' e)
        (fun o => ∃ b, o = some b ∧ S b) (step a d) (step' a' d'))
    (hS : ∀ a, S a → Yields (step a) fun o => ∀ b, o = some b → S b) :
    Tends g c₀ I S (Syntax.iterate step n a c) (Syntax.iterate step' n a' c') := by
  induction n generalizing a a' c c' with
  | zero => exact .pure h hc hI
  | succ n ih =>
      rw [Syntax.iterate, Syntax.iterate]
      refine bind (hstep a a' c c' h hc hI) (.refl c₀) ?_ ?_
      · rintro o o' d d' hd hcd - (⟨rfl, rfl, hI'⟩ | ⟨b, b', rfl, rfl, hI'⟩)
        · exact .pure hd hcd hI'
        · exact ih hd hcd hI'
      · rintro o ⟨b, rfl, hb⟩
        exact .iterate n hb hS

theorem loop {step step' : α → Parser (Option α)} {I : α → α → Cursor → Prop} {a a' : α}
    (h : g.Linked c c') (hc : Reaches c₀ c) (hI : I a a' c)
    (hstep : ∀ a a' d d', g.Linked d d' → Reaches c₀ d → I a a' d →
      Tends g c₀ (fun o o' e =>
        (o = none ∧ o' = none ∧ I a a' e) ∨ ∃ b b', o = some b ∧ o' = some b' ∧ I b b' e)
        (fun o => ∃ b, o = some b ∧ S b) (step a d) (step' a' d'))
    (hS : ∀ a, S a → Yields (step a) fun o => ∀ b, o = some b → S b) :
    Tends g c₀ I S (Syntax.loop a step c) (Syntax.loop a' step' c') := by
  unfold Syntax.loop
  rw [h.size, h.size']
  exact iterate _ h hc hI hstep hS

section Tokens

variable {e : Expect} {l l' : Lexeme} {isWanted : Token → Bool}

theorem read {f f' : Lexeme → Parser β}
    (hf : Tends g c₀ R T (f (c.read e) (c.read e).here) (f' (c'.read e) (c'.read e).here)) :
    Tends g c₀ R T ((Syntax.peek e >>= f) c) ((Syntax.peek e >>= f') c') :=
  hf

theorem peek {f f' : Lexeme → Parser β} (h : g.Linked c c') (hc : Reaches c₀ c)
    (hf : ∀ l l', g.Peeked c l l' → g.Linked l.here l'.here → Reaches c₀ l.here →
      Tends g c₀ R T (f l l.here) (f' l' l'.here)) :
    Tends g c₀ R T ((Syntax.peek e >>= f) c) ((Syntax.peek e >>= f') c') :=
  hf _ _ (h.peeked e) (h.read e).here (hc.trans (read_spec c e).2.1.reaches)

theorem accept {f f' : Unit → Parser β} (hl : g.Lexed l l') (h : g.Linked c c')
    (hc : Reaches c₀ c) (hle : c.offset ≤ l.start)
    (hf : ∀ d d', g.Linked d d' → Reaches c₀ d → Behind c l d →
      Tends g c₀ R T (f () d) (f' () d')) :
    Tends g c₀ R T ((Syntax.accept l >>= f) c) ((Syntax.accept l' >>= f') c') := by
  obtain ⟨hlinked, hbehind⟩ := hl.accepted h hle
  exact hf _ _ hlinked (hc.trans hbehind.reaches) hbehind

theorem expect {f f' : Lexeme → Parser β} (hw : ∀ a b, isWanted (.name a) = isWanted (.name b))
    (h : g.Linked c c') (hc : Reaches c₀ c)
    (hf : ∀ l l' d d', g.Peeked c l l' → isWanted l.token = true → g.Linked d d' → Reaches c₀ d →
      Behind c l d → Tends g c₀ R T (f l d) (f' l' d')) :
    Tends g c₀ R T ((Syntax.expect e isWanted >>= f) c) ((Syntax.expect e isWanted >>= f') c') := by
  unfold Syntax.expect
  simp only [bind_assoc]
  refine .peek h hc ?_
  intro l l' hl hlinked hreach
  rw [← hl.same isWanted hw]
  split
  · rename_i hwanted
    simp only [bind_assoc, pure_bind]
    exact .accept hl.toLexed hlinked hreach (Nat.le_refl _)
      fun d d' hd hd₀ hbehind => hf l l' d d' hl hwanted hd hd₀ (hbehind.before hl.reaches)
  · exact .agree (.error hlinked.furthest)

theorem optional {f f' : Option Lexeme → Parser β}
    (hw : ∀ a b, isWanted (.name a) = isWanted (.name b)) (h : g.Linked c c') (hc : Reaches c₀ c)
    (hnone : ∀ l l', g.Peeked c l l' → isWanted l.token = false → g.Linked l.here l'.here →
      Reaches c₀ l.here → Tends g c₀ R T (f none l.here) (f' none l'.here))
    (hsome : ∀ l l' d d', g.Peeked c l l' → isWanted l.token = true → g.Linked d d' →
      Reaches c₀ d → Behind c l d → Tends g c₀ R T (f (some l) d) (f' (some l') d')) :
    Tends g c₀ R T ((Syntax.optional? e isWanted >>= f) c)
      ((Syntax.optional? e isWanted >>= f') c') := by
  unfold Syntax.optional?
  simp only [bind_assoc]
  refine .peek h hc ?_
  intro l l' hl hlinked hreach
  rw [← hl.same isWanted hw]
  split
  · rename_i hwanted
    simp only [bind_assoc, pure_bind]
    exact .accept hl.toLexed hlinked hreach (Nat.le_refl _)
      fun d d' hd hd₀ hbehind => hsome l l' d d' hl hwanted hd hd₀ (hbehind.before hl.reaches)
  · rename_i hwanted
    simp only [pure_bind]
    exact hnone l l' hl (by simpa using hwanted) hlinked hreach

end Tokens

end Tends

end Longhand.Draft
