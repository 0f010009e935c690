import Longhand.Proofs.Grammar.Parameter

/-!
# Brackets and comprehensions of a draft

What stands in brackets is read alike in the two texts of a draft.
-/

namespace Longhand.Draft

open Syntax Text

variable {g : Draft} {rules : Rules} {c c' : Cursor} {l l' : Lexeme}

/-! ## Targets -/

/-- Expressions to the left of an assignment make twin targets, or none. -/
theorem target_cases {start start' stop stop' : Nat} {ts ts' : List Tree}
    (hstart : g.Cut start start') (hstop : g.Cut stop stop') (hrow : g.Row start stop ts ts')
    (trailing : Bool) :
    (target start stop ts trailing = reject ∧ target start' stop' ts' trailing = reject) ∨
      ∃ t t', target start stop ts trailing = pure t ∧
        target start' stop' ts' trailing = pure t' ∧ g.Row start stop [t] [t'] := by
  have many : ∀ {us us' : List Tree}, g.Row start stop us us' →
      g.Row start stop [.node .patternList none ⟨start, stop⟩ "" us]
        [.node .patternList none ⟨start', stop'⟩ "" us'] := fun hrow =>
    .single (.ofRow hstart hstop trivial hrow) (Nat.le_refl _) (Nat.le_refl _)
  rcases hrow.toTargets? with ⟨hnone, hnone'⟩ | ⟨us, us', hus, hus', husrow⟩
  · exact .inl ⟨by rw [target, hnone], by rw [target, hnone']⟩
  · right
    rcases husrow.singles with ⟨u, u', rfl, rfl, hlow, htwin, hhigh⟩ | hmany
    · cases trailing with
      | true => exact ⟨_, _, by rw [target, hus]; rfl, by rw [target, hus']; rfl, many husrow⟩
      | false => exact ⟨u, u', by rw [target, hus]; rfl, by rw [target, hus']; rfl, husrow⟩
    · refine ⟨_, _, ?_, ?_, many husrow⟩
      · rw [target, hus]
        split
        · rename_i heq
          cases heq
        · rename_i heq
          exact absurd (Option.some.inj heq) (hmany _).1
        · rename_i heq
          rw [Option.some.inj heq]
      · rw [target, hus']
        split
        · rename_i heq
          cases heq
        · rename_i heq
          exact absurd (Option.some.inj heq) (hmany _).2
        · rename_i heq
          rw [Option.some.inj heq]

theorem loopTarget_agrees (hr : g.Lockstep rules) (h : g.Linked c c') :
    Agree g c (g.Grown c) (loopTarget rules c) (loopTarget rules c') := by
  unfold loopTarget
  refine .peek h (.refl c) ?_
  intro l l' hl hlinked hreach
  refine .bind (separated_agrees (fun _ _ => rfl) hlinked fun e e' he _ _ =>
    hr.rule _ rfl _ _ he) hreach ?_
  rintro ⟨ts, trailing⟩ ⟨ts', trailing'⟩ d d' hd hcd _ ⟨hrow, rfl, _⟩
  dsimp only at hrow ⊢
  refine .lastEnd ?_ hd
  intro o' hstop
  rcases target_cases hl.start hstop hrow trailing with ⟨hleft, hright⟩ | ⟨t, t', hleft, hright, ht⟩
  · rw [hleft, hright]
    exact .error hd.furthest
  · rw [hleft, hright]
    exact .pure hd hcd (ht.grown hreach.offset)

/-! ## Comprehensions -/

theorem forInClause_agrees (hr : g.Lockstep rules) (f : Follow) (h : g.Linked c c') :
    Agree g c (g.Grown c) (forInClause rules f c) (forInClause rules f c') := by
  unfold forInClause
  refine .peek h (.refl c) ?_
  intro l l' hl hlinked hreach
  refine .bind (.passed (fun _ _ => rfl) hlinked) hreach ?_
  intro _ _ d d' hd hcd hld _
  refine .expect (fun _ _ => rfl) hd hcd ?_
  intro m m' e e' _ _ he hce hfor
  refine .bind (loopTarget_agrees hr he) hce ?_
  intro t t' k k' hk hck _ ht
  refine .expect (fun _ _ => rfl) hk hck ?_
  intro n n' p p' _ _ hp hcp hin
  refine .bind (separated_agrees (fun _ _ => rfl) hp fun q q' hq _ _ => hr.rule _ rfl _ _ hq)
    hcp ?_
  rintro ⟨ts, trailing⟩ ⟨ts', trailing'⟩ q q' hq hcq _ ⟨hrow, _, _⟩
  refine .node hq hcq hlinked.cut hl.start_ge ?_ trivial
  have hleft := (ht.withRole .left).single (Nat.le_trans hld.offset hfor.reaches.offset)
  exact (hleft.reach hin.reaches).append
    ((hrow.widen hp.last_le (Nat.le_refl _)).map_withRole .right)

theorem clauses_agrees (hr : g.Lockstep rules) (h : g.Linked c c') :
    Agree g c (fun ts ts' d => g.Row c.offset d.last ts ts') (clauses rules c)
      (clauses rules c') := by
  unfold clauses
  refine .bind (forInClause_agrees hr _ h) (.refl c) ?_
  intro t t' d d' hd hcd _ ht
  refine .bind (Q := fun us us' e => g.Row c.offset e.last us.reverse us'.reverse) ?_ hcd ?_
  · refine .loop hd (.refl d) (ht.single (Nat.le_refl _)) ?_
    intro us us' e e' he hde hrow
    refine .peek he hde ?_
    intro l l' hl hlinked hreach
    have hrow := hrow.reach hl.reaches
    have another : Agree g d (fun o o' e =>
        (o = none ∧ o' = none ∧ g.Row c.offset e.last us.reverse us'.reverse) ∨
          ∃ b b', o = some b ∧ o' = some b' ∧ g.Row c.offset e.last b.reverse b'.reverse)
        ((do return some ((← forInClause rules Follow.inside) :: us) :
          Parser (Option (List Tree))) l.here)
        ((do return some ((← forInClause rules Follow.inside) :: us') :
          Parser (Option (List Tree))) l'.here) := by
      refine .bind (forInClause_agrees hr _ hlinked) hreach ?_
      intro x x' k k' hk hdk _ hx
      exact .pure hk hdk (.inr ⟨_, _, rfl, rfl, hrow.grow hlinked hx⟩)
    rcases hl.token with ⟨old, new, hold, hnew⟩ | ⟨w, hne, hw, hw'⟩
    · rw [hold, hnew]
      exact .pure hlinked hreach (.inl ⟨rfl, rfl, hrow⟩)
    · rw [hw, hw']
      split
      · exact another
      · exact another
      · refine .accept hl.toLexed hlinked hreach (Nat.le_refl _) ?_
        intro k k' hk hdk hbehind
        refine .bind (hr.rule _ rfl _ _ hk) hdk ?_
        intro x x' m m' hm hdm hkm hx
        refine .bind (.node hm (hbehind.reaches.trans hkm) hlinked.cut (Nat.le_refl _)
          (hx.single hbehind.reaches.offset) trivial) hreach ?_
        intro y y' n n' hn hdn _ hy
        exact .pure hn hdn (.inr ⟨_, _, rfl, rfl, hrow.grow hlinked hy⟩)
      · exact .pure hlinked hreach (.inl ⟨rfl, rfl, hrow⟩)
  · intro us us' e e' he hce _ hrow
    exact .pure he hce hrow

/-! ## Brackets -/

theorem element_agrees (hr : g.Lockstep rules) (h : g.Linked c c') :
    Agree g c (g.Grown c) (element rules c) (element rules c') := by
  unfold element
  refine .peek h (.refl c) ?_
  intro l l' hl hlinked hreach
  rcases hl.token with ⟨old, new, hold, hnew⟩ | ⟨w, hne, hw, hw'⟩
  · rw [hold, hnew]
    exact (hr.rule _ rfl _ _ hlinked).earlier hreach
  · rw [hw, hw']
    split
    · exact (hr.rule _ rfl _ _ hlinked).earlier hreach
    · exact .marked hr rfl (fun _ => by trivial) hl hlinked hreach
    · exact (hr.rule _ rfl _ _ hlinked).earlier hreach

/-- Whether two ways to finish a bracketed form agree for all its items. -/
def Finishing (g : Draft) (c₀ : Cursor) (start : Nat)
    (finish finish' : List Tree → Bool → Parser Tree) : Prop :=
  ∀ ts ts' b d d', g.Linked d d' → Reaches c₀ d → g.Row start d.last ts ts' →
    Agree g c₀ (g.Grown c₀) (finish ts b d) (finish' ts' b d')

theorem elementsAfter_agrees (hr : g.Lockstep rules) (kind : Kind) {close : Token → Bool}
    (hclose : ∀ a b, close (.name a) = close (.name b))
    (hkind : ∀ ts, g.Shaped kind ts) {c₀ : Cursor} {start start' : Nat}
    {finish finish' : List Tree → Bool → Parser Tree}
    (hfinish : g.Finishing c₀ start finish finish') (h : g.Linked c c') (hc : Reaches c₀ c)
    (hstart : g.Cut start start') (hlow : c₀.offset ≤ start) {t t' : Tree}
    (ht : g.Row start c.last [t] [t']) :
    Agree g c₀ (g.Grown c₀) (elementsAfter rules start close kind finish t c)
      (elementsAfter rules start' close kind finish' t' c') := by
  unfold elementsAfter
  refine .peek h hc ?_
  intro l l' hl hlinked hreach
  have ht := ht.reach hl.reaches
  refine .ite (by rw [hl.same Token.startsClause fun _ _ => rfl]) (fun _ => ?_) fun _ => ?_
  · refine .bind (clauses_agrees hr hlinked) hreach ?_
    intro ts ts' d d' hd hcd _ hrow
    refine .expect hclose hd hcd ?_
    intro m m' e e' _ _ he hce hbehind
    refine .node he hce hstart hlow ?_ (hkind _)
    exact (ht.append (hrow.widen hlinked.last_le (Nat.le_refl _))).reach hbehind.reaches
  · refine .bind (furtherItems_agrees (fun _ _ => rfl) hlinked fun e e' he _ _ =>
      element_agrees hr he) hreach ?_
    rintro ⟨ts, trailing⟩ ⟨ts', trailing'⟩ d d' hd hcd hld ⟨hrow, rfl⟩
    refine .expect hclose hd hcd ?_
    intro m m' e e' _ _ he hce hbehind
    refine hfinish _ _ _ _ _ he hce ?_
    exact (ht.append (hrow.row hld hlinked)).reach hbehind.reaches

theorem elements_agrees (hr : g.Lockstep rules) (kind : Kind) {close : Token → Bool}
    (hclose : ∀ a b, close (.name a) = close (.name b))
    (hkind : ∀ ts, g.Shaped kind ts) {c₀ : Cursor} {start start' : Nat}
    {finish finish' : List Tree → Bool → Parser Tree}
    (hfinish : g.Finishing c₀ start finish finish') (h : g.Linked c c') (hc : Reaches c₀ c)
    (hstart : g.Cut start start') (hlow : c₀.offset ≤ start) (hle : start ≤ c.offset) :
    Agree g c₀ (g.Grown c₀) (elements rules start close kind finish c)
      (elements rules start' close kind finish' c') := by
  unfold elements
  refine .get ?_
  refine .bind (element_agrees hr h) hc ?_
  intro t t' d d' hd hcd _ ht
  refine .peek hd hcd ?_
  intro l l' hl hlinked hreach
  have hclause : l.token.startsClause = l'.token.startsClause :=
    hl.same Token.startsClause fun _ _ => rfl
  have hkinds : t.kind = t'.kind := ht.twin.kind
  refine .ite (by rw [hclause, hkinds]) (fun _ => ?_) fun _ => ?_
  · refine .returnTo hlinked h hc ?_
    intro e e' he hce hstands
    refine .bind (hr.rule _ rfl _ _ he) hce ?_
    intro u u' k k' hk hck _ hu
    exact elementsAfter_agrees hr kind hclose hkind hfinish hk hck hstart hlow
      (hu.single (hstands.offset ▸ hle))
  · refine .ite (by rw [hclause, hkinds]) (fun _ => .error hlinked.furthest) fun _ => ?_
    exact elementsAfter_agrees hr kind hclose hkind hfinish hlinked hreach hstart hlow
      ((ht.single hle).reach hl.reaches)

theorem bracketed_agrees (hr : g.Lockstep rules) (h : g.Linked c c') (hl : g.Lexed l l')
    (hstart : c.offset = l.start) :
    Agree g c (g.Grown c) (bracketed rules l c) (bracketed rules l' c') := by
  have hle : c.offset ≤ l.start := Nat.le_of_eq hstart
  unfold bracketed
  refine .accept hl h (.refl c) hle ?_
  intro d d' hd hcd hbehind
  refine .peek hd hcd ?_
  intro m m' hm hlinked hreach
  refine .ite (by rw [hm.same Token.isCloseParen fun _ _ => rfl]) (fun _ => ?_) fun _ => ?_
  · refine .accept hm.toLexed hlinked hreach (Nat.le_refl _) ?_
    intro e e' he hce hclose
    refine .node he hce hl.start hle (.nil ?_) trivial
    exact Nat.le_trans hbehind.start_le (hm.reaches.trans hclose.reaches).last
  · refine elements_agrees hr .generatorExpression (fun _ _ => rfl) (fun _ => trivial) ?_ hlinked
      hreach hl.start hle ?_
    · intro ts ts' b e e' he hce hrow
      dsimp only
      rcases hrow.singles with ⟨t, t', rfl, rfl, -, htwin, -⟩ | hmany
      · dsimp only
        refine .ite (by rw [htwin.kind]) (fun _ => ?_) fun _ => ?_
        · exact .node he hce hl.start hle hrow trivial
        · exact .node he hce hl.start hle hrow trivial
      · split
        · exact absurd rfl (hmany _).1
        split
        · exact absurd rfl (hmany _).2
        · exact .node he hce hl.start hle hrow trivial
    · exact Nat.le_trans hbehind.start_le (Nat.le_trans hd.last_le hm.start_ge)

theorem listDisplay_agrees (hr : g.Lockstep rules) (h : g.Linked c c') (hl : g.Lexed l l')
    (hstart : c.offset = l.start) :
    Agree g c (g.Grown c) (listDisplay rules l c) (listDisplay rules l' c') := by
  have hle : c.offset ≤ l.start := Nat.le_of_eq hstart
  unfold listDisplay
  refine .accept hl h (.refl c) hle ?_
  intro d d' hd hcd hbehind
  refine .peek hd hcd ?_
  intro m m' hm hlinked hreach
  refine .ite (by rw [hm.same Token.isCloseSquare fun _ _ => rfl]) (fun _ => ?_) fun _ => ?_
  · refine .accept hm.toLexed hlinked hreach (Nat.le_refl _) ?_
    intro e e' he hce hclose
    refine .node he hce hl.start hle (.nil ?_) trivial
    exact Nat.le_trans hbehind.start_le (hm.reaches.trans hclose.reaches).last
  · refine elements_agrees hr .listComprehension (fun _ _ => rfl) (fun _ => trivial) ?_ hlinked
      hreach hl.start hle ?_
    · intro ts ts' b e e' he hce hrow
      exact .node he hce hl.start hle hrow trivial
    · exact Nat.le_trans hbehind.start_le (Nat.le_trans hd.last_le hm.start_ge)

theorem entry_agrees (hr : g.Lockstep rules) (h : g.Linked c c') :
    Agree g c (g.Grown c) (entry rules c) (entry rules c') := by
  have pair : ∀ l l', g.Peeked c l l' → g.Linked l.here l'.here → Reaches c l.here →
      Agree g c (g.Grown c)
        ((do
          let key ← rules (.expression Follow.inside)
          let _ ← expect Follow.inside.operator Token.isColon
          let value ← rules (.expression Follow.inside)
          node .pair l.start [key, value] : Parser Tree) l.here)
        ((do
          let key ← rules (.expression Follow.inside)
          let _ ← expect Follow.inside.operator Token.isColon
          let value ← rules (.expression Follow.inside)
          node .pair l'.start [key, value] : Parser Tree) l'.here) := by
    intro l l' hl hlinked hreach
    refine .bind (hr.rule _ rfl _ _ hlinked) hreach ?_
    intro t t' d d' hd hcd _ ht
    refine .expect (fun _ _ => rfl) hd hcd ?_
    intro m m' e e' _ _ he hce hcolon
    refine .bind (hr.rule _ rfl _ _ he) hce ?_
    intro u u' k k' hk hck _ hu
    exact .node hk hck hlinked.cut hl.start_ge
      (((ht.single (Nat.le_refl _)).reach hcolon.reaches).snoc he hu) trivial
  unfold entry
  refine .peek h (.refl c) ?_
  intro l l' hl hlinked hreach
  rcases hl.token with ⟨old, new, hold, hnew⟩ | ⟨w, hne, hw, hw'⟩
  · rw [hold, hnew]
    exact pair l l' hl hlinked hreach
  · rw [hw, hw']
    split
    · exact .marked hr rfl (fun _ => by trivial) hl hlinked hreach
    · exact pair l l' hl hlinked hreach

theorem dictionaryAfter_agrees (hr : g.Lockstep rules) {c₀ : Cursor} {start start' : Nat}
    (h : g.Linked c c') (hc : Reaches c₀ c) (hstart : g.Cut start start')
    (hlow : c₀.offset ≤ start) {t t' : Tree} (ht : g.Row start c.last [t] [t']) :
    Agree g c₀ (g.Grown c₀) (dictionaryAfter rules start t c)
      (dictionaryAfter rules start' t' c') := by
  unfold dictionaryAfter
  refine .bind (furtherItems_agrees (fun _ _ => rfl) h fun e e' he _ _ => entry_agrees hr he) hc ?_
  rintro ⟨ts, trailing⟩ ⟨ts', trailing'⟩ d d' hd hcd hcd' ⟨hrow, -⟩
  refine .expect (fun _ _ => rfl) hd hcd ?_
  intro m m' e e' _ _ he hce hbehind
  exact .node he hce hstart hlow
    ((ht.append (hrow.row hcd' h)).reach hbehind.reaches) trivial

theorem keyed_agrees (hr : g.Lockstep rules) {c₀ : Cursor} {start start' : Nat}
    (h : g.Linked c c') (hc : Reaches c₀ c) (hstart : g.Cut start start')
    (hlow : c₀.offset ≤ start) (hle : start ≤ c.offset) (hl : g.Lexed l l')
    (hfirst : c.offset = l.start) :
    Agree g c₀ (g.Grown c₀) (keyed rules start l c) (keyed rules start' l' c') := by
  unfold keyed
  refine .bind (hr.rule _ rfl _ _ h) hc ?_
  intro t t' d d' hd hcd hcd' ht
  refine .peek hd hcd ?_
  intro m m' hm hlinked hreach
  refine .ite (by rw [hm.same Token.isColon fun _ _ => rfl]) (fun _ => ?_) fun _ => ?_
  · refine .accept hm.toLexed hlinked hreach (Nat.le_refl _) ?_
    intro e e' he hce hcolon
    refine .bind (hr.rule _ rfl _ _ he) hce ?_
    intro u u' k k' hk hck hek hu
    have hpair := ((ht.single (Nat.le_refl _)).reach (hm.reaches.trans hcolon.reaches)).snoc he hu
    have hck' := (hcd'.trans (hm.reaches.trans hcolon.reaches)).trans hek
    refine .bind (.node hk hck' hl.start (Nat.le_of_eq hfirst) (hpair.widen ?_ (Nat.le_refl _))
      trivial) hc ?_
    · exact Nat.le_of_eq hfirst.symm
    intro v v' n n' hn hcn _ hv
    refine .peek hn hcn ?_
    intro q q' hq hqlinked hqreach
    have hv := (hv.single hle).reach hq.reaches
    refine .ite (by rw [hq.same Token.startsClause fun _ _ => rfl]) (fun _ => ?_) fun _ => ?_
    · refine .bind (clauses_agrees hr hqlinked) hqreach ?_
      intro ts ts' x x' hx hcx _ hrow
      refine .expect (fun _ _ => rfl) hx hcx ?_
      intro r r' y y' _ _ hy hcy hbehind
      exact .node hy hcy hstart hlow
        ((hv.append (hrow.widen hqlinked.last_le (Nat.le_refl _))).reach hbehind.reaches) trivial
    · exact dictionaryAfter_agrees hr hqlinked hqreach hstart hlow hv
  · exact elementsAfter_agrees hr .setComprehension (fun _ _ => rfl) (fun _ => trivial)
      (fun ts ts' b e e' he hce hrow => .node he hce hstart hlow hrow (by trivial))
      hlinked hreach hstart hlow ((ht.single hle).reach hm.reaches)

theorem braceDisplay_agrees (hr : g.Lockstep rules) (h : g.Linked c c') (hl : g.Lexed l l')
    (hstart : c.offset = l.start) :
    Agree g c (g.Grown c) (braceDisplay rules l c) (braceDisplay rules l' c') := by
  have hle : c.offset ≤ l.start := Nat.le_of_eq hstart
  unfold braceDisplay
  refine .accept hl h (.refl c) hle ?_
  intro d d' hd hcd hbehind
  refine .peek hd hcd ?_
  intro m m' hm hlinked hreach
  have hinner : l.start ≤ m.here.offset :=
    Nat.le_trans hbehind.start_le (Nat.le_trans hd.last_le hm.start_ge)
  have items : Agree g c (g.Grown c)
      (elements rules l.start Token.isCloseBrace .setComprehension
        (fun items _ => node .set l.start items) m.here)
      (elements rules l'.start Token.isCloseBrace .setComprehension
        (fun items _ => node .set l'.start items) m'.here) :=
    elements_agrees hr .setComprehension (fun _ _ => rfl) (fun _ => trivial)
      (fun ts ts' b e e' he hce hrow => .node he hce hl.start hle hrow (by trivial))
      hlinked hreach hl.start hle hinner
  rcases hm.token with ⟨old, new, hold, hnew⟩ | ⟨w, hne, hw, hw'⟩
  · rw [hold, hnew]
    exact keyed_agrees hr hlinked hreach hl.start hle hinner hm.toLexed rfl
  · rw [hw, hw']
    split
    · refine .accept hm.toLexed hlinked hreach (Nat.le_refl _) ?_
      intro e e' he hce hclose
      refine .node he hce hl.start hle (.nil ?_) trivial
      exact Nat.le_trans hbehind.start_le (hm.reaches.trans hclose.reaches).last
    · refine .accept hm.toLexed hlinked hreach (Nat.le_refl _) ?_
      intro e e' he hce hcomma
      refine .expect (fun _ _ => rfl) he hce ?_
      intro n n' k k' _ _ hk hck hclose
      refine .node hk hck hl.start hle (.nil ?_) trivial
      have hreaches := (hm.reaches.trans hcomma.reaches).trans hclose.reaches
      exact Nat.le_trans hbehind.start_le hreaches.last
    · exact items
    · exact items
    · refine .bind (entry_agrees hr hlinked) hreach ?_
      intro t t' e e' he hce _ ht
      exact dictionaryAfter_agrees hr he hce hl.start hle (ht.single hinner)
    · exact keyed_agrees hr hlinked hreach hl.start hle hinner hm.toLexed rfl

end Longhand.Draft
