import Longhand.Proofs.Grammar.Operand
import Longhand.Syntax.Grammar.TypeAnnotation

/-!
# Expressions of a draft

Expressions and types are read alike in the two texts of a draft.
-/

namespace Longhand.Draft

open Syntax Text

variable {g : Draft} {rules : Rules} {c c' : Cursor} {l l' : Lexeme}

/-! ## Operators -/

theorem namedExpression_agrees (hr : g.Lockstep rules) (f : Follow) (n : Nat)
    (h : g.Linked c c') (hl : g.Lexed l l') (hstands : Stands c l.here)
    (hname : l.token.isNameLike = true) :
    Agree g c (g.Grown c) (namedExpression rules f n l c) (namedExpression rules f n l' c') := by
  unfold namedExpression
  refine .accept hl h (.refl c) (Nat.le_of_eq hstands.offset) ?_
  intro d d' hd hcd hbehind
  refine .optional (fun _ _ => rfl) hd hcd ?_ ?_
  · intro m m' _ _ hlinked _
    refine .returnTo hlinked hl.here hstands.reaches ?_
    intro e e' he hce _
    exact (unary_agrees hr f true he).earlier hce
  · intro m m' e e' _ _ he hce hwalrus
    refine .bind (hr.rule _ rfl _ _ he) hce ?_
    intro t t' k k' hk hck _ ht
    have hleaf := (Row.leaf .identifier hl hbehind fun _ =>
      isNameLike_cases hname).map_withRole .name
    exact .node hk hck hl.start (Nat.le_of_eq hstands.offset)
      ((hleaf.reach hwalrus.reaches).snoc he (ht.withRole .value)) trivial

theorem looseOperand_agrees (hr : g.Lockstep rules) (f : Follow) (n : Nat) (h : g.Linked c c') :
    Agree g c (g.Grown c) (looseOperand rules f n c) (looseOperand rules f n c') := by
  unfold looseOperand
  refine .peek h (.refl c) ?_
  intro l l' hl hlinked hreach
  refine .ite Iff.rfl (fun _ => (unary_agrees hr f _ hlinked).earlier hreach) fun _ => ?_
  rcases hl.token with ⟨old, new, hold, hnew⟩ | ⟨w, hne, hw, hw'⟩
  · rw [hold, hnew]
    have hname : l.token.isNameLike = true := by rw [hold]; rfl
    exact (namedExpression_agrees hr f n hlinked hl.toLexed (.refl _) hname).earlier hreach
  · rw [hw, hw']
    split
    · exact .marked hr rfl (fun _ => by trivial) hl hlinked hreach
    · exact (lambdaExpression_agrees hr f hlinked hl.toLexed rfl).earlier hreach
    · refine .ite Iff.rfl (fun hname => ?_) fun _ => (unary_agrees hr f true hlinked).earlier hreach
      exact (namedExpression_agrees hr f n hlinked hl.toLexed (.refl _)
        (by rw [hw]; exact hname)).earlier hreach

theorem comparisonOperator_agrees (h : g.Linked c c') (hl : g.Lexed l l')
    (hstart : c.offset = l.start) :
    Agree g c (fun _ _ _ => True) (comparisonOperator l c) (comparisonOperator l' c') := by
  unfold comparisonOperator
  refine .accept hl h (.refl c) (Nat.le_of_eq hstart) ?_
  intro d d' hd hcd _
  rcases hl.token with ⟨old, new, hold, hnew⟩ | ⟨w, hne, hw, hw'⟩
  · rw [hold, hnew]
    exact .pure hd hcd trivial
  · rw [hw, hw']
    split
    · refine .expect (fun _ _ => rfl) hd hcd ?_
      intro m m' e e' _ _ he hce _
      exact .pure he hce trivial
    · refine .bind (.passed (fun _ _ => rfl) hd) hcd ?_
      intro _ _ e e' he hce _ _
      exact .pure he hce trivial
    · exact .pure hd hcd trivial

theorem comparisons_agrees (hr : g.Lockstep rules) (f : Follow) {start start' : Nat}
    (h : g.Linked c c') (hstart : g.Cut start start') {t t' : Tree}
    (ht : g.Row start c.last [t] [t']) :
    Agree g c (fun u u' d => g.Row start d.last [u] [u']) (comparisons rules f start t c)
      (comparisons rules f start' t' c') := by
  unfold comparisons
  refine .bind (Q := fun us us' d => g.Row start d.last us.reverse us'.reverse) ?_ (.refl c) ?_
  · refine .loop h (.refl c) ht ?_
    intro us us' d d' hd hcd hrow
    refine .peek hd hcd ?_
    intro l l' hl hlinked hreach
    have hrow := hrow.reach hl.reaches
    refine .ite (by rw [hl.same Token.isComparison fun _ _ => rfl]) (fun _ => ?_) fun _ => ?_
    · refine .bind (comparisonOperator_agrees hlinked hl.toLexed rfl) hreach ?_
      intro _ _ e e' he hce hle _
      refine .bind (hr.rule _ rfl _ _ he) hce ?_
      intro u u' k k' hk hck _ hu
      exact .pure hk hck (.inr ⟨_, _, rfl, rfl, (hrow.reach hle).grow he hu⟩)
    · exact .pure hlinked hreach (.inl ⟨rfl, rfl, hrow⟩)
  · intro us us' d d' hd hcd _ hrow
    exact .nodeRow hd hcd hstart hrow trivial

theorem operation_agrees (hr : g.Lockstep rules) (f : Follow) (kind : Kind) (level : Nat)
    {start start' : Nat} (h : g.Linked c c') (hstart : g.Cut start start') {t t' : Tree}
    (ht : g.Row start c.last [t] [t']) (hl : g.Lexed l l') (hhere : c.offset = l.start)
    (hshaped : ∀ ts, g.Shaped kind ts) :
    Agree g c (fun u u' d => g.Row start d.last [u] [u']) (operation rules f kind level start t l c)
      (operation rules f kind level start' t' l' c') := by
  unfold operation
  refine .accept hl h (.refl c) (Nat.le_of_eq hhere) ?_
  intro d d' hd hcd hbehind
  refine .bind (hr.rule _ rfl _ _ hd) hcd ?_
  intro u u' e e' he hce _ hu
  exact .nodeRow he hce hstart ((ht.reach hbehind.reaches).snoc hd hu) (hshaped _)

theorem nextOperation_agrees (hr : g.Lockstep rules) (f : Follow) (n : Nat) {start start' : Nat}
    (h : g.Linked c c') (hstart : g.Cut start start') {t t' : Tree}
    (ht : g.Row start c.last [t] [t']) :
    Agree g c (g.Extended start) (operation? rules f n start t c)
      (operation? rules f n start' t' c') := by
  unfold operation?
  refine .peek h (.refl c) ?_
  intro l l' hl hlinked hreach
  have ht := ht.reach hl.reaches
  have some : ∀ (kind : Kind) (level : Nat), (∀ ts, g.Shaped kind ts) →
      Agree g c (g.Extended start)
        ((do return some (← operation rules f kind level start t l) : Parser (Option Tree)) l.here)
        ((do return some (← operation rules f kind level start' t' l') : Parser (Option Tree))
          l'.here) := by
    intro kind level hshaped
    refine .bind (operation_agrees hr f kind level hlinked hstart ht hl.toLexed rfl hshaped)
      hreach ?_
    intro u u' d d' hd hcd _ hu
    exact .pure hd hcd (.inr ⟨_, _, rfl, rfl, hu⟩)
  have none : Agree g c (g.Extended start) ((pure none : Parser (Option Tree)) l.here)
      ((pure none : Parser (Option Tree)) l'.here) :=
    .pure hlinked hreach (.inl ⟨rfl, rfl⟩)
  rcases hl.token with ⟨old, new, hold, hnew⟩ | ⟨w, hne, hw, hw'⟩
  · rw [hold, hnew]
    exact none
  · rw [hw, hw']
    split
    · exact .ite Iff.rfl (fun _ => none) fun _ => some _ _ fun _ => trivial
    · exact .ite Iff.rfl (fun _ => none) fun _ => some _ _ fun _ => trivial
    · exact .ite Iff.rfl (fun _ => none) fun _ => some _ _ fun _ => trivial
    · refine .ite Iff.rfl (fun _ => ?_) fun _ => none
      refine .bind (comparisons_agrees hr f hlinked hstart ht) hreach ?_
      intro u u' d d' hd hcd _ hu
      exact .pure hd hcd (.inr ⟨_, _, rfl, rfl, hu⟩)

theorem operations_agrees (hr : g.Lockstep rules) (f : Follow) (n : Nat) {start start' : Nat}
    (h : g.Linked c c') (hstart : g.Cut start start') {t t' : Tree}
    (ht : g.Row start c.last [t] [t']) :
    Agree g c (fun u u' d => g.Row start d.last [u] [u']) (operations rules f n start t c)
      (operations rules f n start' t' c') := by
  unfold operations
  refine .ite Iff.rfl (fun _ => .pure h (.refl c) ht) fun _ => ?_
  refine .loop h (.refl c) ht ?_
  intro u u' d d' hd hcd hu
  refine (nextOperation_agrees hr f n hd hstart hu).imp hcd ?_
  rintro o o' e hde (⟨rfl, rfl⟩ | ⟨v, v', rfl, rfl, hv⟩)
  · exact .inl ⟨rfl, rfl, hu.reach hde⟩
  · exact .inr ⟨v, v', rfl, rfl, hv⟩

/-! ## Loose operators -/

theorem asPattern_agrees (hr : g.Lockstep rules) (f : Follow) {start start' : Nat}
    (h : g.Linked c c') (hstart : g.Cut start start') {t t' : Tree}
    (ht : g.Row start c.last [t] [t']) (hl : g.Lexed l l') (hhere : c.offset = l.start) :
    Agree g c (fun u u' d => g.Row start d.last [u] [u']) (asPattern rules f start t l c)
      (asPattern rules f start' t' l' c') := by
  unfold asPattern
  refine .accept hl h (.refl c) (Nat.le_of_eq hhere) ?_
  intro d d' hd hcd hbehind
  refine .bind (hr.rule _ rfl _ _ hd) hcd ?_
  intro u u' e e' he hce _ hu
  have htarget : g.Grown d (.node .asPatternTarget (some .alias) u.span "" [u])
      (.node .asPatternTarget (some .alias) u'.span "" [u']) e :=
    ⟨.inner hu.twin.spans trivial (.single hu.twin (Nat.le_refl _) (Nat.le_refl _)), hu.start_ge,
      hu.stop_le⟩
  exact .nodeRow he hce hstart ((ht.reach hbehind.reaches).snoc hd htarget) trivial

theorem conditional_agrees (hr : g.Lockstep rules) (f : Follow) {start start' : Nat}
    (h : g.Linked c c') (hstart : g.Cut start start') {t t' : Tree}
    (ht : g.Row start c.last [t] [t']) (hl : g.Lexed l l') (hhere : c.offset = l.start) :
    Agree g c (fun u u' d => g.Row start d.last [u] [u']) (conditional rules f start t l c)
      (conditional rules f start' t' l' c') := by
  unfold conditional
  refine .accept hl h (.refl c) (Nat.le_of_eq hhere) ?_
  intro d d' hd hcd hbehind
  refine .bind (hr.rule _ rfl _ _ hd) hcd ?_
  intro u u' e e' he hce _ hu
  refine .expect (fun _ _ => rfl) he hce ?_
  intro m m' k k' _ _ hk hck helse
  refine .bind (hr.rule _ rfl _ _ hk) hck ?_
  intro v v' n n' hn hcn _ hv
  have hcondition := ((ht.reach hbehind.reaches).snoc hd hu).reach helse.reaches
  exact .nodeRow hn hcn hstart (hcondition.snoc hk hv) trivial

theorem condition_agrees (hr : g.Lockstep rules) (f : Follow) (allowed : Bool)
    {start start' : Nat} (h : g.Linked c c') (hstart : g.Cut start start') {t t' : Tree}
    (ht : g.Row start c.last [t] [t']) :
    Agree g c (g.Extended start) (condition? rules f allowed start t c)
      (condition? rules f allowed start' t' c') := by
  unfold condition?
  refine .peek h (.refl c) ?_
  intro l l' hl hlinked hreach
  have ht := ht.reach hl.reaches
  have none : Agree g c (g.Extended start) ((pure none : Parser (Option Tree)) l.here)
      ((pure none : Parser (Option Tree)) l'.here) :=
    .pure hlinked hreach (.inl ⟨rfl, rfl⟩)
  rcases hl.token with ⟨old, new, hold, hnew⟩ | ⟨w, hne, hw, hw'⟩
  · rw [hold, hnew]
    exact none
  · rw [hw, hw']
    split
    · refine .bind (asPattern_agrees hr f hlinked hstart ht hl.toLexed rfl) hreach ?_
      intro u u' d d' hd hcd _ hu
      exact .pure hd hcd (.inr ⟨_, _, rfl, rfl, hu⟩)
    · refine .ite Iff.rfl (fun _ => ?_) fun _ => none
      refine .bind (conditional_agrees hr f hlinked hstart ht hl.toLexed rfl) hreach ?_
      intro u u' d d' hd hcd _ hu
      exact .pure hd hcd (.inr ⟨_, _, rfl, rfl, hu⟩)
    · exact none

/-- The loosest operators behind an expression, as many as there are. -/
theorem conditions_agree (hr : g.Lockstep rules) (f : Follow) (allowed : Bool)
    {start start' : Nat} (h : g.Linked c c') (hstart : g.Cut start start') {t t' : Tree}
    (ht : g.Row start c.last [t] [t']) :
    Agree g c (fun u u' d => g.Row start d.last [u] [u'])
      (loop t (condition? rules f allowed start) c)
      (loop t' (condition? rules f allowed start') c') := by
  refine .loop h (.refl c) ht ?_
  intro u u' d d' hd hcd hu
  refine (condition_agrees hr f allowed hd hstart hu).imp hcd ?_
  rintro o o' e hde (⟨rfl, rfl⟩ | ⟨v, v', rfl, rfl, hv⟩)
  · exact .inl ⟨rfl, rfl, hu.reach hde⟩
  · exact .inr ⟨v, v', rfl, rfl, hv⟩

theorem levelExpression_agrees (hr : g.Lockstep rules) (f : Follow) (n : Nat)
    (h : g.Linked c c') :
    Agree g c (g.Grown c) (levelExpression rules f n c) (levelExpression rules f n c') := by
  unfold levelExpression
  refine .peek h (.refl c) ?_
  intro l l' hl hlinked hreach
  refine .ite Iff.rfl (fun _ => (unary_agrees hr f false hlinked).earlier hreach) fun _ => ?_
  refine .bind (looseOperand_agrees hr f n hlinked) hreach ?_
  intro t t' d d' hd hcd _ ht
  refine .bind (operations_agrees hr f n hd hl.start (ht.single (Nat.le_refl _))) hcd ?_
  intro u u' e e' he hce _ hu
  refine .ite Iff.rfl (fun _ => ?_) fun _ => .pure he hce (hu.grown hl.start_ge)
  refine (conditions_agree hr f false he hl.start hu).imp hce ?_
  intro v v' k _ hv
  exact hv.grown hl.start_ge

theorem expression_agrees (hr : g.Lockstep rules) (f : Follow) (h : g.Linked c c') :
    Agree g c (g.Grown c) (expression rules f c) (expression rules f c') := by
  unfold expression
  refine .peek h (.refl c) ?_
  intro l l' hl hlinked hreach
  refine .bind (hr.rule _ rfl _ _ hlinked) hreach ?_
  intro t t' d d' hd hcd _ ht
  refine (conditions_agree hr f true hd hl.start (ht.single (Nat.le_refl _))).imp hcd ?_
  intro v v' k _ hv
  exact hv.grown hl.start_ge

/-- A node around some expressions. -/
theorem expressionsNode_agrees {c₀ : Cursor} {kind : Kind} {start start' : Nat}
    (hkind : ∀ ts, g.Shaped kind ts) (hr : g.Lockstep rules) (f : Follow) (h : g.Linked c c')
    (hc : Reaches c₀ c) (hstart : g.Cut start start') (hlow : c₀.offset ≤ start)
    (hle : start ≤ c.offset) :
    Agree g c₀ (g.Grown c₀)
      ((do let (items, _) ← expressions rules f; node kind start items : Parser Tree) c)
      ((do let (items, _) ← expressions rules f; node kind start' items : Parser Tree) c') := by
  refine .bind (expressions_agrees hr f h) hc ?_
  rintro ⟨ts, trailing⟩ ⟨ts', trailing'⟩ d d' hd hcd _ ⟨hrow, -, -⟩
  exact .node hd hcd hstart hlow (hrow.widen hle (Nat.le_refl _)) (hkind ts)

theorem yieldExpression_agrees (hr : g.Lockstep rules) (f : Follow) (h : g.Linked c c') :
    Agree g c (g.Grown c) (yieldExpression rules f c) (yieldExpression rules f c') := by
  unfold yieldExpression
  refine .expect (fun _ _ => rfl) h (.refl c) ?_
  intro l l' d d' hl _ hd hcd hbehind
  refine .peek hd hcd ?_
  intro m m' hm hlinked hreach
  have hinner : l.start ≤ m.here.offset :=
    Nat.le_trans hbehind.start_le (Nat.le_trans hd.last_le hm.start_ge)
  have hshaped : ∀ ts, g.Shaped .yield ts := fun _ => trivial
  have several := expressionsNode_agrees hshaped hr f hlinked hreach hl.start hl.start_ge hinner
  rcases hm.token with ⟨old, new, hold, hnew⟩ | ⟨w, hne, hw, hw'⟩
  · rw [hold, hnew]
    exact several
  · rw [hw, hw']
    split
    · refine .accept hm.toLexed hlinked hreach (Nat.le_refl _) ?_
      intro e e' he hce hfrom
      refine .bind (hr.rule _ rfl _ _ he) hce ?_
      intro t t' k k' hk hck _ ht
      exact .node hk hck hl.start hl.start_ge
        (ht.single (Nat.le_trans hinner hfrom.reaches.offset)) trivial
    · refine .ite Iff.rfl (fun _ => several) fun _ => ?_
      exact .node hlinked hreach hl.start hl.start_ge
        (.nil (Nat.le_trans hbehind.start_le hm.reaches.last)) trivial

/-! ## Types -/

theorem typeParameters_agrees (hr : g.Lockstep rules) (h : g.Linked c c') (hl : g.Lexed l l')
    (hstart : c.offset = l.start) :
    Agree g c (g.Grown c) (typeParameters rules l c) (typeParameters rules l' c') := by
  unfold typeParameters
  refine .accept hl h (.refl c) (Nat.le_of_eq hstart) ?_
  intro d d' hd hcd hbehind
  refine .bind (separated_agrees (fun _ _ => rfl) hd fun e e' he _ _ => hr.rule _ rfl _ _ he)
    hcd ?_
  rintro ⟨ts, trailing⟩ ⟨ts', trailing'⟩ e e' he hce _ ⟨hrow, -, -⟩
  refine .expect (fun _ _ => rfl) he hce ?_
  intro m m' k k' _ _ hk hck hclose
  refine .node hk hck hl.start (Nat.le_of_eq hstart) ?_ trivial
  exact (hrow.widen (Nat.le_trans hbehind.start_le hd.last_le) (Nat.le_refl _)).reach hclose.reaches

theorem optionalTypeParameters_agrees (hr : g.Lockstep rules) (h : g.Linked c c') :
    Agree g c (fun ts ts' d => g.Row c.last d.last ts ts') (typeParameters? rules c)
      (typeParameters? rules c') := by
  unfold typeParameters?
  refine .peek h (.refl c) ?_
  intro l l' hl hlinked hreach
  rcases hl.token with ⟨old, new, hold, hnew⟩ | ⟨w, hne, hw, hw'⟩
  · rw [hold, hnew]
    exact .pure hlinked hreach (.nil hreach.last)
  · rw [hw, hw']
    split
    · refine .bind (typeParameters_agrees hr hlinked hl.toLexed rfl) hreach ?_
      intro t t' d d' hd hcd _ ht
      exact .pure hd hcd (ht.single (Nat.le_trans h.last_le hreach.offset))
    · exact .pure hlinked hreach (.nil hreach.last)

theorem simpleType_agrees (hr : g.Lockstep rules) (f : Follow) (h : g.Linked c c') :
    Agree g c (g.Grown c) (simpleType rules f c) (simpleType rules f c') := by
  unfold simpleType
  refine .peek h (.refl c) ?_
  intro l l' hl hlinked hreach
  rcases hl.token with ⟨old, new, hold, hnew⟩ | ⟨w, hne, hw, hw'⟩
  · rw [hold, hnew]
    refine .accept hl.toLexed hlinked hreach (Nat.le_refl _) ?_
    intro d d' hd hcd hbehind
    have hleaf := Row.leaf .identifier hl.toLexed hbehind fun _ =>
      .inl (by rw [hold]; rfl)
    refine .peek hd hcd ?_
    intro m m' hm hmlinked hmreach
    have back : Agree g c (g.Grown c)
        ((do returnTo l.here; rules (.expression f) : Parser Tree) m.here)
        ((do returnTo l'.here; rules (.expression f) : Parser Tree) m'.here) := by
      refine .returnTo hmlinked hlinked hreach ?_
      intro e e' he hce _
      exact (hr.rule _ rfl _ _ he).earlier hce
    rcases hm.token with ⟨old, new, hold, hnew⟩ | ⟨w, hne, hw, hw'⟩
    · rw [hold, hnew]
      exact back
    · rw [hw, hw']
      split
      · refine .bind (typeParameters_agrees hr hmlinked hm.toLexed rfl) hmreach ?_
        intro t t' e e' he hce _ ht
        exact .node he hce hl.start hl.start_ge ((hleaf.reach hm.reaches).snoc hmlinked ht) trivial
      · exact back
  · rw [hw, hw']
    split
    · refine .accept hl.toLexed hlinked hreach (Nat.le_refl _) ?_
      intro d d' hd hcd hbehind
      refine .bind (name_agrees {} hd) hcd ?_
      intro t t' e e' he hce _ ⟨ht, _⟩
      exact .node he hce hlinked.cut hl.start_ge (ht.single hbehind.reaches.offset) trivial
    · exact absurd rfl (hne _)
    · exact (hr.rule _ rfl _ _ hlinked).earlier hreach

theorem typeAnnotation_agrees (hr : g.Lockstep rules) (f : Follow) (h : g.Linked c c') :
    Agree g c (g.Grown c) ( typeAnnotation rules f c)
      ( typeAnnotation rules f c') := by
  unfold typeAnnotation
  refine .peek h (.refl c) ?_
  intro l l' hl hlinked hreach
  refine .bind (simpleType_agrees hr f hlinked) hreach ?_
  intro t t' d d' hd hcd hld ht
  refine .bind (.nodeRow hd hcd hl.start (ht.single (Nat.le_refl l.start)) trivial) (.refl c) ?_
  intro u u' e e' he hce _ hu
  refine Agree.imp (Q := fun u u' d => g.Row l.start d.last [u] [u']) (.loop he hce hu ?_)
    (.refl c) fun v v' k _ hv => hv.grown hl.start_ge
  intro v v' k k' hk hck hv
  refine .peek hk hck ?_
  intro m m' hm hmlinked hmreach
  have hv := hv.reach hm.reaches
  -- Every longer type joins the one so far with a further part.
  have joined : ∀ (kind : Kind) {w w' : Tree} {n n' p p' : Cursor}, (∀ ts, g.Shaped kind ts) →
      g.Linked n n' → Reaches m.here n → g.Linked p p' → Reaches c p → g.Grown n w w' p →
      Agree g c (fun o o' e => (o = none ∧ o' = none ∧ g.Row l.start e.last [v] [v']) ∨
          ∃ b b', o = some b ∧ o' = some b' ∧ g.Row l.start e.last [b] [b'])
        ((do
          let whole ← node kind l.start [v, w]
          return some (← node .type l.start [whole]) : Parser (Option Tree)) p)
        ((do
          let whole ← node kind l'.start [v', w']
          return some (← node .type l'.start [whole]) : Parser (Option Tree)) p') := by
    intro kind w w' n n' p p' hshaped hn hmn hp hcp hw
    refine .bind (.nodeRow hp hcp hl.start ((hv.reach hmn).snoc hn hw) (hshaped _)) (.refl c) ?_
    intro x x' q q' hq hcq _ hx
    refine .bind (.nodeRow hq hcq hl.start hx trivial) (.refl c) ?_
    intro y y' r r' hr' hcr _ hy
    exact .pure hr' hcr (.inr ⟨_, _, rfl, rfl, hy⟩)
  have none : Agree g c (fun o o' e => (o = none ∧ o' = none ∧ g.Row l.start e.last [v] [v']) ∨
      ∃ b b', o = some b ∧ o' = some b' ∧ g.Row l.start e.last [b] [b'])
      ((pure none : Parser (Option Tree)) m.here) ((pure none : Parser (Option Tree)) m'.here) :=
    .pure hmlinked hmreach (.inl ⟨rfl, rfl, hv⟩)
  rcases hm.token with ⟨old, new, hold, hnew⟩ | ⟨w, hne, hw, hw'⟩
  · rw [hold, hnew]
    exact none
  · rw [hw, hw']
    split
    · refine .accept hm.toLexed hmlinked hmreach (Nat.le_refl _) ?_
      intro n n' hn hcn hbehind
      refine .bind (hr.rule _ rfl _ _ hn) hcn ?_
      intro x x' p p' hp hcp _ hx
      exact joined .unionType (fun _ => trivial) hn hbehind.reaches hp hcp hx
    · refine .accept hm.toLexed hmlinked hmreach (Nat.le_refl _) ?_
      intro n n' hn hcn hbehind
      refine .bind (name_agrees {} hn) hcn ?_
      intro x x' p p' hp hcp _ ⟨hx, _⟩
      exact joined .memberType (fun _ => trivial) hn hbehind.reaches hp hcp hx
    · refine .ite Iff.rfl (fun _ => ?_) fun _ => none
      refine .accept hm.toLexed hmlinked hmreach (Nat.le_refl _) ?_
      intro n n' hn hcn hbehind
      refine .bind (hr.rule _ rfl _ _ hn) hcn ?_
      intro x x' p p' hp hcp _ hx
      exact joined .constrainedType (fun _ => trivial) hn hbehind.reaches hp hcp hx
    · exact none

end Longhand.Draft
