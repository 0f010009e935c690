import Longhand.Proofs.Grammar.StringLiteral
import Longhand.Syntax.Grammar.Expression

/-!
# Parameters of a draft

Lists of parameters are read alike in the two texts of a draft.
-/

namespace Longhand.Draft

open Syntax Text

variable {g : Draft} {rules : Rules} {c c' : Cursor} {l l' : Lexeme}

theorem optionalExpressions_agrees (hr : g.Lockstep rules) (f : Follow) (h : g.Linked c c') :
    Agree g c (fun ts ts' d => g.Row c.last d.last ts ts') (expressions? rules f c)
      (expressions? rules f c') := by
  unfold expressions?
  refine .peek h (.refl c) ?_
  intro l l' hl hlinked hreach
  refine .ite (by rw [hl.same Token.startsExpression fun _ _ => rfl]) (fun _ => ?_) fun _ => ?_
  · refine .bind (expressions_agrees hr f hlinked) hreach ?_
    intro r r' d d' hd hcd _ ⟨hrow, _⟩
    exact .pure hd hcd (hrow.widen (Nat.le_trans h.last_le hreach.offset) (Nat.le_refl _))
  · exact .pure hlinked hreach (.nil hreach.last)

theorem tupleParameter_agrees (hr : g.Lockstep rules) (h : g.Linked c c') (hl : g.Lexed l l')
    (hstart : c.offset = l.start) :
    Agree g c (g.Grown c) (tupleParameter rules l c) (tupleParameter rules l' c') := by
  unfold tupleParameter
  refine .accept hl h (.refl c) (Nat.le_of_eq hstart) ?_
  intro d d' hd hcd hbehind
  refine .bind (optionalExpressions_agrees hr _ hd) hcd ?_
  intro ts ts' e e' he hce _ hrow
  refine .expect (fun _ _ => rfl) he hce ?_
  intro m m' k k' _ _ hk hck hclose
  rcases hrow.toTargets? with ⟨hnone, hnone'⟩ | ⟨us, us', hus, hus', husrow⟩
  · rw [hnone, hnone']
    exact .error hk.furthest
  · rw [hus, hus']
    refine .node hk hck hl.start (Nat.le_of_eq hstart) ?_ trivial
    exact (husrow.reach hclose.reaches).widen hbehind.start_le (Nat.le_refl _)

theorem starredParameter_agrees (kind : Kind) (h : g.Linked c c') (hl : g.Lexed l l')
    (hstart : c.offset = l.start) (hshaped : ∀ ts, g.Shaped kind ts) :
    Agree g c (g.Grown c) (starredParameter kind l c) (starredParameter kind l' c') := by
  unfold starredParameter
  refine .accept hl h (.refl c) (Nat.le_of_eq hstart) ?_
  intro d d' hd hcd hbehind
  refine .bind (name_agrees _ hd) hcd ?_
  intro t t' e e' he hce _ ⟨ht, _⟩
  refine .node he hce hl.start (Nat.le_of_eq hstart) (ht.single ?_) (hshaped _)
  rw [hbehind.offset]
  exact hl.start_le

/-- Whether two results are none, or twins that were read behind a place. -/
def Perhaps (g : Draft) (c : Cursor) (o o' : Option Tree) (d : Cursor) : Prop :=
  (o = none ∧ o' = none) ∨ ∃ t t', o = some t ∧ o' = some t' ∧ g.Grown c t t' d

theorem annotation_agrees (hr : g.Lockstep rules) (f : Follow) (typed : Bool)
    (h : g.Linked c c') :
    Agree g c (g.Perhaps c) (annotation? rules f typed c) (annotation? rules f typed c') := by
  unfold annotation?
  refine .ite Iff.rfl (fun _ => ?_) fun _ => .pure h (.refl c) (.inl ⟨rfl, rfl⟩)
  refine .optional (fun _ _ => rfl) h (.refl c) ?_ ?_
  · intro m m' _ _ hlinked hreach
    exact .pure hlinked hreach (.inl ⟨rfl, rfl⟩)
  · intro m m' d d' _ _ hd hcd _
    refine .bind (hr.rule _ rfl _ _ hd) hcd ?_
    intro t t' e e' he hce _ ht
    exact .pure he hce (.inr ⟨_, _, rfl, rfl, (ht.before hcd).withRole .type⟩)

theorem default_agrees (hr : g.Lockstep rules) (f : Follow) (h : g.Linked c c') :
    Agree g c (g.Perhaps c) (default? rules f c) (default? rules f c') := by
  unfold default?
  refine .optional (fun _ _ => rfl) h (.refl c) ?_ ?_
  · intro m m' _ _ hlinked hreach
    exact .pure hlinked hreach (.inl ⟨rfl, rfl⟩)
  · intro m m' d d' _ _ hd hcd _
    refine .bind (hr.rule _ rfl _ _ hd) hcd ?_
    intro t t' e e' he hce _ ht
    exact .pure he hce (.inr ⟨_, _, rfl, rfl, (ht.before hcd).withRole .value⟩)

theorem typedSplat_agrees (hr : g.Lockstep rules) (f : Follow) (typed : Bool) (kind : Kind)
    (h : g.Linked c c') (hl : g.Lexed l l') (hstart : c.offset = l.start)
    (hshaped : ∀ ts, g.Shaped kind ts) :
    Agree g c (g.Grown c) (typedSplat rules f typed kind l c)
      (typedSplat rules f typed kind l' c') := by
  unfold typedSplat
  refine .bind (starredParameter_agrees kind h hl hstart hshaped) (.refl c) ?_
  intro t t' d d' hd hcd _ ht
  refine .bind (annotation_agrees hr f typed hd) hcd ?_
  rintro o o' e e' he hce hde (⟨rfl, rfl⟩ | ⟨u, u', rfl, rfl, hu⟩)
  · exact .pure he hce ⟨ht.twin, ht.start_ge, Nat.le_trans ht.stop_le hde.last⟩
  · exact .node he hce hl.start (Nat.le_of_eq hstart)
      ((ht.single (Nat.le_of_eq hstart.symm)).snoc hd hu) trivial

/-- A parameter that is a name, with its type and its default if it has them. -/
theorem namedParameter_agrees (hr : g.Lockstep rules) (f : Follow) (typed : Bool)
    (h : g.Linked c c') (hl : g.Lexed l l') (hstart : c.offset = l.start)
    (hname : l.token.isName = true) :
    Agree g c (g.Grown c) (namedParameter rules f typed l c)
      (namedParameter rules f typed l' c') := by
  unfold namedParameter
  refine .accept hl h (.refl c) (Nat.le_of_eq hstart) ?_
  intro d d' hd hcd hbehind
  have hid := Row.leaf .identifier hl hbehind fun _ => .inl hname
  have hid' := hid.map_withRole .name
  refine .bind (annotation_agrees hr f typed hd) hcd ?_
  rintro o o' e e' he hce hde ho
  refine .bind (default_agrees hr f he) hce ?_
  rintro p p' k k' hk hck hek hp
  rcases ho with ⟨rfl, rfl⟩ | ⟨u, u', rfl, rfl, hu⟩
  · rcases hp with ⟨rfl, rfl⟩ | ⟨v, v', rfl, rfl, hv⟩
    · exact .pure hk hck ((hid.reach (hde.trans hek)).grown (Nat.le_of_eq hstart))
    · exact .node hk hck hl.start (Nat.le_of_eq hstart) ((hid'.reach hde).snoc he hv) trivial
  · have htyped := hid.snoc hd hu
    have htyped' := hid'.snoc hd hu
    rcases hp with ⟨rfl, rfl⟩ | ⟨v, v', rfl, rfl, hv⟩
    · exact .node hk hck hl.start (Nat.le_of_eq hstart) (htyped.reach hek) trivial
    · exact .node hk hck hl.start (Nat.le_of_eq hstart) (htyped'.snoc he hv) trivial

theorem parameter_agrees (hr : g.Lockstep rules) (f : Follow) (typed : Bool)
    (h : g.Linked c c') :
    Agree g c (g.Grown c) (parameter rules f typed c) (parameter rules f typed c') := by
  unfold parameter
  refine .peek h (.refl c) ?_
  intro l l' hl hlinked hreach
  rcases hl.token with ⟨old, new, hold, hnew⟩ | ⟨t, hne, ht, ht'⟩
  · rw [hold, hnew]
    have hname : l.token.isName = true := by rw [hold]; rfl
    exact (namedParameter_agrees hr f typed hlinked hl.toLexed rfl hname).earlier hreach
  · rw [ht, ht']
    split
    · exact absurd rfl (hne _)
    · refine .accept hl.toLexed hlinked hreach (Nat.le_refl _) ?_
      intro d d' hd hcd hbehind
      refine .peek hd hcd ?_
      intro m m' hm hmlinked hmreach
      refine .ite (by rw [hm.same Token.isName fun _ _ => rfl]) (fun _ => ?_) fun _ => ?_
      · refine .returnTo hmlinked hlinked hreach ?_
        intro e e' he hce hstands
        exact (typedSplat_agrees hr f typed .listSplatPattern he hl.toLexed hstands.offset
          fun _ => trivial).earlier hce
      · refine .node hmlinked hmreach hlinked.cut hl.start_ge (.nil ?_) trivial
        exact Nat.le_trans hbehind.start_le hm.reaches.last
    · exact (typedSplat_agrees hr f typed .dictionarySplatPattern hlinked hl.toLexed rfl
        fun _ => trivial).earlier hreach
    · refine .accept hl.toLexed hlinked hreach (Nat.le_refl _) ?_
      intro d d' hd hcd hbehind
      exact .node hd hcd hlinked.cut hl.start_ge (.nil hbehind.start_le) trivial
    · refine .bind (tupleParameter_agrees hr hlinked hl.toLexed rfl) hreach ?_
      intro u u' d d' hd hcd _ hu
      refine .bind (default_agrees hr f hd) hcd ?_
      rintro o o' e e' he hce hde (⟨rfl, rfl⟩ | ⟨v, v', rfl, rfl, hv⟩)
      · exact .pure he hce ((hu.single (Nat.le_refl _)).reach hde |>.grown hreach.offset)
      · exact .node he hce hlinked.cut hl.start_ge
          (((hu.withRole .name).single (Nat.le_refl _)).snoc hd hv) trivial
    · exact .error hlinked.furthest

theorem parameterItems_agrees (hr : g.Lockstep rules) (f : Follow) (typed : Bool)
    (h : g.Linked c c') :
    Agree g c (fun ts ts' d => (ts = [] ∧ ts' = []) ∨ g.Row c.offset d.last ts ts' ∧ ts ≠ [])
      (parameterItems rules f typed c) (parameterItems rules f typed c') := by
  unfold parameterItems
  refine .peek h (.refl c) ?_
  intro l l' hl hlinked hreach
  refine .ite (by rw [hl.same Token.startsParameter fun _ _ => rfl]) (fun _ => ?_) fun _ => ?_
  · refine .bind (separated_agrees (fun _ _ => rfl) hlinked ?_) hreach ?_
    · intro e e' he _ _
      exact parameter_agrees hr f typed he
    · intro r r' d d' hd hcd _ ⟨hrow, _, hne⟩
      exact .pure hd hcd (.inr ⟨hrow.widen hreach.offset (Nat.le_refl _), hne⟩)
  · exact .pure hlinked hreach (.inl ⟨rfl, rfl⟩)

theorem parameters_agrees (hr : g.Lockstep rules) (h : g.Linked c c') :
    Agree g c (g.Grown c) (parameters rules c) (parameters rules c') := by
  unfold parameters
  refine .expect (fun _ _ => rfl) h (.refl c) ?_
  intro l l' d d' hl _ hd hcd hopen
  refine .bind (parameterItems_agrees hr _ _ hd) hcd ?_
  intro ts ts' e e' he hce hde hts
  refine .expect (fun _ _ => rfl) he hce ?_
  intro m m' k k' _ _ hk hck hclose
  refine .node hk hck hl.start hl.start_ge ?_ trivial
  have hlast := Nat.le_trans hde.last hclose.reaches.last
  rcases hts with ⟨rfl, rfl⟩ | ⟨hrow, -⟩
  · exact .nil (Nat.le_trans hopen.start_le hlast)
  · refine hrow.widen ?_ hclose.reaches.last
    rw [hopen.offset]
    exact hl.start_le

theorem lambdaParameters_agrees (hr : g.Lockstep rules) (h : g.Linked c c') :
    Agree g c (fun ts ts' d => g.Row c.last d.last ts ts') (lambdaParameters? rules c)
      (lambdaParameters? rules c') := by
  unfold lambdaParameters?
  refine .peek h (.refl c) ?_
  intro l l' hl hlinked hreach
  refine .bind (parameterItems_agrees hr _ _ hlinked) hreach ?_
  rintro ts ts' d d' hd hcd _ (⟨rfl, rfl⟩ | ⟨hrow, hne⟩)
  · exact .pure hd hcd (.nil hcd.last)
  · have hempty : ts.isEmpty = ts'.isEmpty := by
      have := hrow.length
      rw [Bool.eq_iff_iff, List.isEmpty_iff, List.isEmpty_iff, ← List.length_eq_zero_iff,
        ← List.length_eq_zero_iff, this]
    refine .ite (by rw [hempty]) (fun hnil => ?_) fun _ => ?_
    · exact absurd (List.isEmpty_iff.1 hnil) hne
    · refine .bind (.node hd hcd hlinked.cut hl.start_ge hrow trivial) (.refl c) ?_
      intro t t' e e' he hce _ ht
      exact .pure he hce ((ht.withRole .parameters).single h.last_le)

theorem lambdaExpression_agrees (hr : g.Lockstep rules) (f : Follow) (h : g.Linked c c')
    (hl : g.Lexed l l') (hstart : c.offset = l.start) :
    Agree g c (g.Grown c) (lambdaExpression rules f l c) (lambdaExpression rules f l' c') := by
  unfold lambdaExpression
  refine .accept hl h (.refl c) (Nat.le_of_eq hstart) ?_
  intro d d' hd hcd hbehind
  refine .bind (lambdaParameters_agrees hr hd) hcd ?_
  intro ts ts' e e' he hce _ hrow
  refine .expect (fun _ _ => rfl) he hce ?_
  intro m m' k k' _ _ hk hck hcolon
  refine .bind (hr.rule _ rfl _ _ hk) hck ?_
  intro t t' n n' hn hcn _ ht
  refine .node hn hcn hl.start (Nat.le_of_eq hstart) ?_ trivial
  exact ((hrow.reach hcolon.reaches).widen hbehind.start_le (Nat.le_refl _)).snoc hk
    (ht.withRole .body)

end Longhand.Draft
