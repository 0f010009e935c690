import Longhand.Proofs.Grammar.CasePattern
import Longhand.Syntax.Grammar.Statement

/-!
# Compound statements of a draft

Compound statements tend to be read alike in the two texts of a draft.  What is astray in a part of
one is astray in the whole of it.
-/

namespace Longhand.Draft

open Syntax Text

variable {g : Draft} {rules : Rules} {c₀ c c' : Cursor} {l l' : Lexeme}

/-! ## Clauses -/

theorem colonSuite_tends (hr : g.Locked rules) (h : g.Linked c c') :
    Tends g c (g.Grown c) g.Stray (colonSuite rules c) (colonSuite rules c') := by
  unfold colonSuite
  refine .expect (fun _ _ => rfl) h (.refl c) ?_
  intro l l' d d' _ _ hd hcd _
  exact (hr.tends _ (by simp) _ _ hd).earlier hcd

/-- A node whose last child is a block. -/
theorem blockNode_tends (hr : g.Locked rules) (kind : Kind) (role : Role)
    (hkind : ∀ ts, g.Shaped kind ts) (h : g.Linked c c') (hc : Reaches c₀ c) {start start' : Nat}
    (hstart : g.Cut start start') (hlow : c₀.offset ≤ start) {ts ts' : List Tree}
    (hrow : g.Row start c.last ts ts') :
    Tends g c₀ (g.Grown c₀) g.Stray
      ((do
        let body ← colonSuite rules
        node kind start (ts ++ [body.withRole role]) : Parser Tree) c)
      ((do
        let body ← colonSuite rules
        node kind start' (ts' ++ [body.withRole role]) : Parser Tree) c') := by
  refine .bind (colonSuite_tends hr h) hc ?_ fun t ht => .node (.right (.head (ht.withRole _)))
  intro t t' d d' hd hcd _ ht
  exact .agree (.node hd hcd hstart hlow (hrow.snoc h (ht.withRole role)) (hkind _))

/-- What is astray in the parts before a block is astray in the node around both. -/
theorem blockNode_yields {kind : Kind} {role : Role} {start : Nat} {ts : List Tree}
    (h : g.StrayIn ts) :
    Yields (do
      let body ← colonSuite rules
      node kind start (ts ++ [body.withRole role])) g.Stray :=
  .bind fun _ => .node (.left h)

theorem blockClause_tends (hr : g.Locked rules) (kind : Kind) (hkind : ∀ ts, g.Shaped kind ts)
    (h : g.Linked c c') (hl : g.Lexed l l') (hstart : c.offset = l.start) :
    Tends g c (g.Grown c) g.Stray (blockClause rules kind l c) (blockClause rules kind l' c') := by
  have hle : c.offset ≤ l.start := Nat.le_of_eq hstart
  unfold blockClause
  refine .accept hl h (.refl c) hle ?_
  intro d d' hd hcd hbehind
  exact blockNode_tends hr kind .body hkind hd hcd hl.start hle (.nil hbehind.start_le)

theorem clause_tends (hr : g.Locked rules) (w : Word) (kind : Kind)
    (hkind : ∀ ts, g.Shaped kind ts) (h : g.Linked c c') :
    Tends g c (fun ts ts' d => g.Row c.last d.last ts ts') g.StrayIn (clause? rules w kind c)
      (clause? rules w kind c') := by
  unfold clause?
  refine .peek h (.refl c) ?_
  intro l l' hl hlinked hreach
  refine .ite (by rw [hl.same (Token.isWord w) fun _ _ => rfl]) (fun _ => ?_)
    fun _ => .pure hlinked hreach (.nil hreach.last)
  refine .bind (blockClause_tends hr kind hkind hlinked hl.toLexed rfl) hreach ?_
    fun t ht => .pure (.head ht)
  intro t t' d d' hd hcd _ ht
  exact .pure hd hcd (ht.single (Nat.le_trans h.last_le hreach.offset))

/-- A node with a last clause that may be missing. -/
theorem clauseNode_tends (hr : g.Locked rules) (w : Word) (clause kind : Kind)
    (hclause : ∀ ts, g.Shaped clause ts) (hkind : ∀ ts, g.Shaped kind ts) (h : g.Linked c c')
    (hc : Reaches c₀ c) {start start' : Nat} (hstart : g.Cut start start')
    (hlow : c₀.offset ≤ start) {ts ts' : List Tree} (hrow : g.Row start c.last ts ts') :
    Tends g c₀ (g.Grown c₀) g.Stray
      ((do node kind start (ts ++ (← clause? rules w clause)) : Parser Tree) c)
      ((do node kind start' (ts' ++ (← clause? rules w clause)) : Parser Tree) c') := by
  refine .bind (clause_tends hr w clause hclause h) hc ?_ fun us hus => .node (.right hus)
  intro us us' d d' hd hcd _ hus
  exact .agree (.node hd hcd hstart hlow (hrow.append hus) (hkind _))

theorem conditionClause_tends (hr : g.Locked rules) (h : g.Linked c c') (hl : g.Lexed l l')
    (hstart : c.offset = l.start) :
    Tends g c (fun ts ts' d => g.Row l.start d.last ts ts') g.StrayIn (conditionClause rules l c)
      (conditionClause rules l' c') := by
  unfold conditionClause
  refine .accept hl h (.refl c) (Nat.le_of_eq hstart) ?_
  intro d d' hd hcd hbehind
  refine .after (hr.rule _ rfl _ _ hd) hcd ?_
  intro t t' e e' he hce _ ht
  have ht := ht.single (Nat.le_trans hbehind.start_le hd.last_le)
  refine .bind (colonSuite_tends hr he) hce ?_ fun u hu => .pure (.tail (.head (hu.withRole _)))
  intro u u' k k' hk hck _ hu
  exact .pure hk hck (ht.snoc he (hu.withRole _))

/-! ## Branches and loops -/

/-- What is astray in the parts before further clauses is astray in the whole statement. -/
theorem clauseNode_yields {w : Word} {kind clause : Kind} {start : Nat} {ts : List Tree}
    (h : g.StrayIn ts) :
    Yields (do node kind start (ts ++ (← clause? rules w clause)) : Parser Tree) g.Stray :=
  .bind fun _ => .node (.left h)

theorem whileStatement_tends (hr : g.Locked rules) (h : g.Linked c c') (hl : g.Lexed l l')
    (hstart : c.offset = l.start) :
    Tends g c (g.Grown c) g.Stray (whileStatement rules l c) (whileStatement rules l' c') := by
  unfold whileStatement
  refine .bind (conditionClause_tends hr h hl hstart) (.refl c) ?_ fun _ => clauseNode_yields
  intro ts ts' d d' hd hcd _ hrow
  exact clauseNode_tends hr .else_ .elseClause .whileStatement (fun _ => trivial)
    (fun _ => trivial) hd hcd hl.start (Nat.le_of_eq hstart) hrow

theorem ifStatement_tends (hr : g.Locked rules) (h : g.Linked c c') (hl : g.Lexed l l')
    (hstart : c.offset = l.start) :
    Tends g c (g.Grown c) g.Stray (ifStatement rules l c) (ifStatement rules l' c') := by
  unfold ifStatement
  refine .bind (conditionClause_tends hr h hl hstart) (.refl c) ?_
    fun ts hts => .bind fun us => clauseNode_yields hts.left
  intro ts ts' d d' hd hcd _ hrow
  refine .bind (Q := fun us us' e => g.Row d.last e.last us.reverse us'.reverse) (S := g.StrayIn)
    (.loop hd (.refl d) (.nil (Nat.le_refl _)) ?_ ?_) hcd ?_
    fun us hus => clauseNode_yields hus.reverse.right
  · intro us us' e e' he hde hus
    refine .peek he hde ?_
    intro m m' hm hlinked hreach
    have hus := hus.reach hm.reaches
    refine .ite (by rw [hm.same (Token.isWord .elif_) fun _ _ => rfl]) (fun _ => ?_)
      fun _ => .pure hlinked hreach (.inl ⟨rfl, rfl, hus⟩)
    refine .bind (conditionClause_tends hr hlinked hm.toLexed rfl) hreach ?_
      fun vs hvs => .next (.node hvs) fun t ht => .pure ⟨_, rfl, .head ht⟩
    intro vs vs' k k' hk hdk hek hvs
    refine .after (.node hk hek hm.start (Nat.le_refl _) hvs trivial) hreach ?_
    intro t t' n n' hn hdn _ ht
    exact .pure hn hdn (.inr ⟨_, _, rfl, rfl, hus.grow hlinked ht⟩)
  · intro us hus
    refine .bind fun m => .ite (.bind fun vs => .bind fun t => .pure ?_) (.pure fun b hb => nomatch hb)
    rintro b ⟨⟩
    exact .tail hus
  · intro us us' e e' he hce hde hus
    exact clauseNode_tends hr .else_ .elseClause .ifStatement (fun _ => trivial)
      (fun _ => trivial) he hce hl.start (Nat.le_of_eq hstart) (hrow.append hus)

theorem forStatement_tends (hr : g.Locked rules) {start start' : Nat} (h : g.Linked c c')
    (hl : g.Lexed l l') (hle : c.offset ≤ l.start) (hc : Reaches c₀ c)
    (hstart : g.Cut start start') (hlow : c₀.offset ≤ start) (hinner : start ≤ c.offset) :
    Tends g c₀ (g.Grown c₀) g.Stray (forStatement rules start l c)
      (forStatement rules start' l' c') := by
  unfold forStatement
  refine .accept hl h hc hle ?_
  intro d d' hd hcd hbehind
  refine .after (loopTarget_agrees hr.toLockstep hd) hcd ?_
  intro t t' e e' he hce hde ht
  refine .expect (fun _ _ => rfl) he hce ?_
  intro m m' k k' _ _ hk hck hin
  have ht := (((ht.withRole .left).single
    (Nat.le_trans hinner hbehind.reaches.offset)).reach hin.reaches)
  refine .after (expressionOrList_agrees hr.toLockstep _ hk) hck ?_
  intro u u' n n' hn hcn _ hu
  have hu := ht.snoc hk (hu.withRole .right)
  refine .bind (colonSuite_tends hr hn) hcn ?_
    fun v hv => clauseNode_yields (.tail (.tail (.head (hv.withRole _))))
  intro v v' p p' hp hcp _ hv
  exact clauseNode_tends hr .else_ .elseClause .forStatement (fun _ => trivial)
    (fun _ => trivial) hp hcp hstart hlow (hu.snoc hn (hv.withRole .body))

/-! ## Handlers -/

theorem exceptions_agrees (hr : g.Lockstep rules) (h : g.Linked c c') :
    Agree g c (fun ts ts' d => g.Row c.last d.last ts ts') (exceptions rules c)
      (exceptions rules c') := by
  unfold exceptions
  refine .peek h (.refl c) ?_
  intro l l' hl hlinked hreach
  refine .ite (by rw [hl.same Token.startsExpression fun _ _ => rfl]) (fun _ => ?_)
    fun _ => .pure hlinked hreach (.nil hreach.last)
  refine .bind (hr.rule _ rfl _ _ hlinked) hreach ?_
  intro t t' d d' hd hcd _ ht
  have hfirst : g.Row c.last d.last [t].reverse [t'].reverse :=
    ht.single (Nat.le_trans h.last_le hreach.offset)
  refine .bind (Q := fun ts ts' e => g.Row c.last e.last ts.reverse ts'.reverse)
    (.loop hd (.refl d) hfirst ?_) hcd ?_
  · intro ts ts' e e' he hde hrow
    refine .optional (fun _ _ => rfl) he hde ?_ ?_
    · intro m m' hm _ hmlinked hmreach
      exact .pure hmlinked hmreach (.inl ⟨rfl, rfl, hrow.reach hm.reaches⟩)
    · intro m m' k k' hm _ hk hdk hbehind
      refine .bind (hr.rule _ rfl _ _ hk) hdk ?_
      intro u u' n n' hn hdn _ hu
      refine .pure hn hdn (.inr ⟨_, _, rfl, rfl, ?_⟩)
      refine Row.grow ?_ hk hu
      rw [List.reverse_cons, List.reverse_cons]
      exact hrow.append ((Row.leaf .comma hm.toLexed hbehind fun hkind => nomatch hkind).widen
        (Nat.le_trans he.last_le hm.start_ge) (Nat.le_refl _))
  · intro ts ts' e e' he hce _ hrow
    exact .pure he hce hrow

theorem exceptClause_tends (hr : g.Locked rules) (h : g.Linked c c') (hl : g.Lexed l l')
    (hstart : c.offset = l.start) :
    Tends g c (g.Grown c) g.Stray (exceptClause rules l c) (exceptClause rules l' c') := by
  have hle : c.offset ≤ l.start := Nat.le_of_eq hstart
  unfold exceptClause
  refine .accept hl h (.refl c) hle ?_
  intro d d' hd hcd hbehind
  refine .after (.passed (fun _ _ => rfl) hd) hcd ?_
  intro _ _ e e' he hce hde _
  refine .after (exceptions_agrees hr.toLockstep he) hce ?_
  intro ts ts' k k' hk hck _ hrow
  exact blockNode_tends hr .exceptClause .body (fun _ => trivial) hk hck hl.start hle
    (hrow.widen (Nat.le_trans hbehind.start_le hde.last) (Nat.le_refl _))

theorem tryStatement_tends (hr : g.Locked rules) (h : g.Linked c c') (hl : g.Lexed l l')
    (hstart : c.offset = l.start) :
    Tends g c (g.Grown c) g.Stray (tryStatement rules l c) (tryStatement rules l' c') := by
  unfold tryStatement
  refine .accept hl h (.refl c) (Nat.le_of_eq hstart) ?_
  intro d d' hd hcd hbehind
  refine .bind (colonSuite_tends hr hd) hcd ?_ fun t ht => .bind fun us => .bind fun vs =>
    clauseNode_yields (.left (.head (ht.withRole _)))
  intro t t' e e' he hce _ ht
  have ht := (ht.withRole .body).single (Nat.le_trans hbehind.start_le hd.last_le)
  refine .bind (Q := fun us us' k => g.Row e.last k.last us.reverse us'.reverse) (S := g.StrayIn)
    (.loop he (.refl e) (.nil (Nat.le_refl _)) ?_ ?_) hce ?_
    fun us hus => .bind fun vs => clauseNode_yields (.left (.tail hus.reverse))
  · intro us us' k k' hk hek hus
    refine .peek hk hek ?_
    intro m m' hm hlinked hreach
    have hus := hus.reach hm.reaches
    refine .ite (by rw [hm.same (Token.isWord .except_) fun _ _ => rfl]) (fun _ => ?_)
      fun _ => .pure hlinked hreach (.inl ⟨rfl, rfl, hus⟩)
    refine .bind (exceptClause_tends hr hlinked hm.toLexed rfl) hreach ?_
      fun u hu => .pure ⟨_, rfl, .head hu⟩
    intro u u' n n' hn hen _ hu
    exact .pure hn hen (.inr ⟨_, _, rfl, rfl, hus.grow hlinked hu⟩)
  · intro us hus
    refine .bind fun m => .ite (.bind fun u => .pure ?_) (.pure fun b hb => nomatch hb)
    rintro b ⟨⟩
    exact .tail hus
  · intro us us' k k' hk hck hek hus
    refine .bind (clause_tends hr .else_ .elseClause (fun _ => trivial) hk) hck ?_
      fun vs hvs => clauseNode_yields (.right hvs)
    intro vs vs' n n' hn hcn _ hvs
    exact clauseNode_tends hr .finally_ .finallyClause .tryStatement (fun _ => trivial)
      (fun _ => trivial) hn hcn hl.start (Nat.le_of_eq hstart) ((ht.append hus).append hvs)

/-! ## Resources -/

theorem withItem_agrees (hr : g.Lockstep rules) (f : Follow) (h : g.Linked c c') :
    Agree g c (g.Grown c) (withItem rules f c) (withItem rules f c') := by
  unfold withItem
  refine .peek h (.refl c) ?_
  intro l l' hl hlinked hreach
  refine .bind (hr.rule _ rfl _ _ hlinked) hreach ?_
  intro t t' d d' hd hcd _ ht
  exact .node hd hcd hl.start hl.start_ge (ht.single (Nat.le_refl _)) trivial

theorem withItems_agrees (hr : g.Lockstep rules) (f : Follow) (h : g.Linked c c') :
    Agree g c (fun ts ts' d => g.Row c.offset d.last ts ts') (withItems rules f c)
      (withItems rules f c') := by
  unfold withItems
  refine .bind (separated_agrees (fun _ _ => rfl) h fun e e' he _ _ => withItem_agrees hr f he)
    (.refl c) ?_
  intro r r' d d' hd hcd _ ⟨hrow, _⟩
  exact .pure hd hcd hrow

theorem bracketedWithClause_agrees (hr : g.Lockstep rules) (h : g.Linked c c')
    {start start' : Nat} (hstart : g.Cut start start') (heq : start = c.offset) :
    Agree g c (g.Grown c) (bracketedWithClause rules start c)
      (bracketedWithClause rules start' c') := by
  unfold bracketedWithClause
  refine .expect (fun _ _ => rfl) h (.refl c) ?_
  intro l l' d d' _ _ hd hcd _
  refine .bind (withItems_agrees hr _ hd) hcd ?_
  intro ts ts' e e' he hce _ hrow
  refine .expect (fun _ _ => rfl) he hce ?_
  intro m m' k k' _ _ hk hck hclose
  have hrow := (hrow.widen (heq ▸ hcd.offset) (Nat.le_refl _)).reach hclose.reaches
  refine .bind (.nodeRow hk hck hstart hrow trivial) (.refl c) ?_
  intro t t' n n' hn hcn _ ht
  refine .peek hn hcn ?_
  intro q q' hq hqlinked hqreach
  refine .ite (by rw [hq.same Token.isColon fun _ _ => rfl]) (fun _ => ?_)
    fun _ => .error hqlinked.furthest
  exact .pure hqlinked hqreach ((ht.reach hq.reaches).grown (Nat.le_of_eq heq.symm))

theorem withClause_agrees (hr : g.Lockstep rules) (h : g.Linked c c') :
    Agree g c (g.Grown c) (withClause rules c) (withClause rules c') := by
  unfold withClause
  refine .peek h (.refl c) ?_
  intro l l' hl hlinked hreach
  refine .firstOf ((bracketedWithClause_agrees hr hlinked hl.start rfl).earlier hreach) hlinked ?_
  intro d d' hd hoffset hlast
  have hld : Reaches l.here d := ⟨Nat.le_of_eq hoffset.symm, Nat.le_of_eq hlast.symm⟩
  refine .bind (withItems_agrees hr _ hd) (hreach.trans hld) ?_
  intro ts ts' e e' he hce _ hrow
  exact .node he hce hl.start hl.start_ge (hrow.widen hld.offset (Nat.le_refl _)) trivial

theorem withStatement_tends (hr : g.Locked rules) {start start' : Nat} (h : g.Linked c c')
    (hl : g.Lexed l l') (hle : c.offset ≤ l.start) (hc : Reaches c₀ c)
    (hstart : g.Cut start start') (hlow : c₀.offset ≤ start) (hinner : start ≤ c.offset) :
    Tends g c₀ (g.Grown c₀) g.Stray (withStatement rules start l c)
      (withStatement rules start' l' c') := by
  unfold withStatement
  refine .accept hl h hc hle ?_
  intro d d' hd hcd hbehind
  refine .after (withClause_agrees hr.toLockstep hd) hcd ?_
  intro t t' e e' he hce _ ht
  exact blockNode_tends hr .withStatement .body (fun _ => trivial) he hce hstart hlow
    (ht.single (Nat.le_trans hinner hbehind.reaches.offset))

/-! ## Definitions -/

theorem resultType_agrees (hr : g.Lockstep rules) (h : g.Linked c c') :
    Agree g c (fun ts ts' d => g.Row c.last d.last ts ts') (resultType? rules c)
      (resultType? rules c') := by
  unfold resultType?
  refine .optional (fun _ _ => rfl) h (.refl c) ?_ ?_
  · intro m m' _ _ hlinked hreach
    exact .pure hlinked hreach (.nil hreach.last)
  · intro m m' d d' _ _ hd hcd _
    refine .bind (hr.rule _ rfl _ _ hd) hcd ?_
    intro t t' e e' he hce _ ht
    exact .pure he hce (ht.single (Nat.le_trans h.last_le hcd.offset))

theorem functionDefinition_tends (hr : g.Locked rules) {start start' : Nat} (h : g.Linked c c')
    (hl : g.Lexed l l') (hle : c.offset ≤ l.start) (hc : Reaches c₀ c)
    (hstart : g.Cut start start') (hlow : c₀.offset ≤ start) (hinner : start ≤ c.offset) :
    Tends g c₀ (g.Grown c₀) g.Stray (functionDefinition rules start l c)
      (functionDefinition rules start' l' c') := by
  unfold functionDefinition
  refine .accept hl h hc hle ?_
  intro d d' hd hcd hbehind
  refine .after (name_agrees {} hd) hcd ?_
  intro t t' e e' he hce _ ht
  have ht := (ht.1.withRole .name).single (Nat.le_trans hinner hbehind.reaches.offset)
  refine .after (optionalTypeParameters_agrees hr.toLockstep he) hce ?_
  intro ts ts' k k' hk hck _ hts
  refine .after (parameters_agrees hr.toLockstep hk) hck ?_
  intro u u' n n' hn hcn _ hu
  refine .after (resultType_agrees hr.toLockstep hn) hcn ?_
  intro us us' p p' hp hcp _ hus
  have hhead := ((ht.append hts).append ((hu.withRole .parameters).single hk.last_le)).append hus
  simpa using blockNode_tends hr .functionDefinition .body (fun _ => trivial) hp hcp hstart hlow
    hhead

theorem bases_agrees (hr : g.Lockstep rules) (h : g.Linked c c') :
    Agree g c (fun ts ts' d => g.Row c.last d.last ts ts') (bases? rules c) (bases? rules c') := by
  unfold bases?
  refine .peek h (.refl c) ?_
  intro l l' hl hlinked hreach
  refine .ite (by rw [hl.same Token.isOpenParen fun _ _ => rfl]) (fun hopen => ?_)
    fun _ => .pure hlinked hreach (.nil hreach.last)
  have htoken : l.token = .openParen := by
    cases htoken : l.token <;> rw [htoken] at hopen <;> first | rfl | cases hopen
  refine .bind (arguments_agrees hr hlinked hl.toLexed rfl htoken) hreach ?_
  intro t t' d d' hd hcd _ ht
  refine .ite (by rw [ht.twin.kind]) (fun _ => ?_) fun _ => .error hd.furthest
  exact .pure hd hcd (ht.single (Nat.le_trans h.last_le hreach.offset))

theorem classDefinition_tends (hr : g.Locked rules) (h : g.Linked c c') (hl : g.Lexed l l')
    (hstart : c.offset = l.start) :
    Tends g c (g.Grown c) g.Stray (classDefinition rules l c) (classDefinition rules l' c') := by
  have hle : c.offset ≤ l.start := Nat.le_of_eq hstart
  unfold classDefinition
  refine .accept hl h (.refl c) hle ?_
  intro d d' hd hcd hbehind
  refine .after (name_agrees {} hd) hcd ?_
  intro t t' e e' he hce _ ht
  have ht := (ht.1.withRole .name).single (Nat.le_trans hbehind.start_le hd.last_le)
  refine .after (optionalTypeParameters_agrees hr.toLockstep he) hce ?_
  intro ts ts' k k' hk hck _ hts
  refine .after (bases_agrees hr.toLockstep hk) hck ?_
  intro us us' p p' hp hcp _ hus
  exact blockNode_tends hr .classDefinition .body (fun _ => trivial) hp hcp hl.start hle
    ((ht.append hts).append hus)

theorem definition_tends (hr : g.Locked rules) (hl : g.Lexed l l') :
    Tends g l.here (g.Grown l.here) g.Stray (definition rules l l.here)
      (definition rules l' l'.here) := by
  unfold definition
  rcases hl.token with ⟨old, new, hold, hnew⟩ | ⟨w, hne, hw, hw'⟩
  · rw [hold, hnew]
    exact .agree (.error hl.here.furthest)
  · rw [hw, hw']
    split
    · exact functionDefinition_tends hr hl.here hl (Nat.le_refl _) (.refl _) hl.start
        (Nat.le_refl _) (Nat.le_refl _)
    · exact classDefinition_tends hr hl.here hl rfl
    · refine .accept hl hl.here (.refl _) (Nat.le_refl _) ?_
      intro d d' hd hcd hbehind
      refine .peek hd hcd ?_
      intro m m' hm hlinked hreach
      refine .ite (by rw [hm.same (Token.isWord .def_) fun _ _ => rfl]) (fun _ => ?_)
        fun _ => .agree (.error hlinked.furthest)
      exact functionDefinition_tends hr hlinked hm.toLexed (Nat.le_refl _) hreach hl.start
        (Nat.le_refl _) hreach.offset
    · exact .agree (.error hl.here.furthest)

theorem decorator_agrees (hr : g.Lockstep rules) (h : g.Linked c c') (hl : g.Lexed l l')
    (hstart : c.offset = l.start) :
    Agree g c (g.Grown c) (decorator rules l c) (decorator rules l' c') := by
  have hle : c.offset ≤ l.start := Nat.le_of_eq hstart
  unfold decorator
  refine .accept hl h (.refl c) hle ?_
  intro d d' hd hcd hbehind
  refine .bind (hr.rule _ rfl _ _ hd) hcd ?_
  intro t t' e e' he hce _ ht
  have ht := ht.single (Nat.le_trans hbehind.start_le hd.last_le)
  refine .bind (.nodeRow he hce hl.start ht trivial) (.refl c) ?_
  intro u u' k k' hk hck _ hu
  refine .expect (fun _ _ => rfl) hk hck ?_
  intro m m' n n' _ _ hn hcn hnewline
  exact .pure hn hcn ((hu.reach hnewline.reaches).grown hle)

theorem decoratedDefinition_tends (hr : g.Locked rules) (h : g.Linked c c') (hl : g.Lexed l l')
    (hstart : c.offset = l.start) :
    Tends g c (g.Grown c) g.Stray (decoratedDefinition rules l c)
      (decoratedDefinition rules l' c') := by
  have hle : c.offset ≤ l.start := Nat.le_of_eq hstart
  unfold decoratedDefinition
  refine .after (decorator_agrees hr.toLockstep h hl hstart) (.refl c) ?_
  intro t t' d d' hd hcd _ ht
  have hfirst : g.Row c.offset d.last [t].reverse [t'].reverse := ht.single (Nat.le_refl _)
  refine .after (Q := fun ts ts' e => g.Row c.offset e.last ts.reverse ts'.reverse)
    (.loop hd (.refl d) hfirst ?_) hcd ?_
  · intro ts ts' e e' he hde hrow
    refine .peek he hde ?_
    intro m m' hm hlinked hreach
    have hrow := hrow.reach hm.reaches
    refine .ite (by rw [hm.same Token.isAt fun _ _ => rfl]) (fun _ => ?_)
      fun _ => .pure hlinked hreach (.inl ⟨rfl, rfl, hrow⟩)
    refine .bind (decorator_agrees hr.toLockstep hlinked hm.toLexed rfl) hreach ?_
    intro u u' k k' hk hdk _ hu
    exact .pure hk hdk (.inr ⟨_, _, rfl, rfl, hrow.grow hlinked hu⟩)
  · intro ts ts' e e' he hce _ hrow
    refine .peek he hce ?_
    intro m m' hm hlinked hreach
    have hrow := (hrow.reach hm.reaches).widen (Nat.le_of_eq hstart.symm) (Nat.le_refl _)
    refine .bind (definition_tends hr hm.toLexed) hreach ?_ fun u hu => .node (.right (.head hu))
    intro u u' k k' hk hck _ hu
    exact .agree (.node hk hck hl.start hle (hrow.snoc hlinked hu) trivial)

/-! ## Cases -/

theorem guard_agrees (hr : g.Lockstep rules) (h : g.Linked c c') :
    Agree g c (fun ts ts' d => g.Row c.last d.last ts ts') (guard? rules c) (guard? rules c') := by
  unfold guard?
  refine .optional (fun _ _ => rfl) h (.refl c) ?_ ?_
  · intro m m' _ _ hlinked hreach
    exact .pure hlinked hreach (.nil hreach.last)
  · intro m m' d d' hm _ hd hcd hbehind
    refine .bind (hr.rule _ rfl _ _ hd) hcd ?_
    intro t t' e e' he hce _ ht
    refine .bind (.nodeRow he hce hm.start (ht.single ?_) trivial) (.refl c) ?_
    · exact Nat.le_trans hbehind.start_le hd.last_le
    · intro u u' k k' hk hck _ hu
      exact .pure hk hck (hu.widen (Nat.le_trans h.last_le hm.start_ge) (Nat.le_refl _))

theorem caseClause_tends (hr : g.Locked rules) (h : g.Linked c c') (hl : g.Lexed l l')
    (hstart : c.offset = l.start) :
    Tends g c (g.Grown c) g.Stray (caseClause rules l c) (caseClause rules l' c') := by
  have hle : c.offset ≤ l.start := Nat.le_of_eq hstart
  unfold caseClause
  refine .accept hl h (.refl c) hle ?_
  intro d d' hd hcd hbehind
  refine .bind (separated_tends (fun _ _ => rfl) hd fun e e' he _ => hr.tends _ (by simp) e e' he)
    hcd ?_ fun r hr => .bind fun us => blockNode_yields hr.left
  intro r r' e e' he hce _ hrow
  have hrow := hrow.widen (Nat.le_trans hbehind.start_le hd.last_le) (Nat.le_refl _)
  refine .after (guard_agrees hr.toLockstep he) hce ?_
  intro us us' k k' hk hck _ hus
  exact blockNode_tends hr .caseClause .consequence (fun _ => trivial) hk hck hl.start hle
    (hrow.append hus)

/-- No case begins before an equals sign. -/
theorem caseClause_barred (hr : g.Locked rules) (h : Barred l.next) :
    Gives (caseClause rules l c) fun _ => False := by
  unfold caseClause
  refine .step ?_
  rintro ⟨⟩ d hok
  cases hok
  refine .bind (S := fun _ => False) ?_ fun _ hfalse => hfalse.elim
  unfold separated
  exact .bind (hr.barred _ rfl _ h) fun _ hfalse => hfalse.elim

theorem furtherCase_yields (s : List Tree × Bool) (h : g.StrayIn s.1) :
    Yields (furtherCase? rules s) fun o => ∀ t, o = some t → g.StrayIn t.1 := by
  obtain ⟨trees, ended⟩ := s
  refine .ite (.pure fun b hb => nomatch hb) (.bind fun l => .ite (.bind fun t => .pure ?_)
    (.ite (.bind fun _ => .pure ?_) .reject))
  · rintro b ⟨⟩
    exact .tail h
  · rintro b ⟨⟩
    exact h

/-- Where only one of the texts has a case, none is read. -/
theorem furtherCase_gives (hr : g.Locked rules) {trees : List Tree} {old new : List Char}
    (hmark : g.ReadsMark (c.read { dedent := true }) old new)
    (hcase : (old = "case".toList ∧ Barred (c.read { dedent := true }).next) ∨
      old ≠ "case".toList) :
    Gives (furtherCase? rules (trees, false) c) fun _ => False := by
  unfold furtherCase?
  refine .peek ?_
  rw [hmark.token]
  refine .ite (fun hname => ?_) fun _ => .error
  rcases hcase with ⟨-, hbarred⟩ | hne
  · exact .bind (caseClause_barred hr hbarred) fun _ hfalse => hfalse.elim
  · exact absurd (of_decide_eq_true hname) hne

/-- What the cases read so far and the end of the block amount to. -/
def Cased (g : Draft) (low : Nat) (s s' : List Tree × Bool) (d : Cursor) : Prop :=
  g.Row low d.last s.1.reverse s'.1.reverse ∧ s.2 = s'.2

theorem furtherCase_tends (hr : g.Locked rules) {low : Nat} (h : g.Linked c c')
    {s s' : List Tree × Bool} (hs : g.Cased low s s' c) :
    Tends g c (fun o o' e => (o = none ∧ o' = none ∧ g.Cased low s s' e) ∨
        ∃ b b', o = some b ∧ o' = some b' ∧ g.Cased low b b' e)
      (fun o => ∃ b, o = some b ∧ g.StrayIn b.1) (furtherCase? rules s c)
      (furtherCase? rules s' c') := by
  obtain ⟨trees, ended⟩ := s
  obtain ⟨trees', ended'⟩ := s'
  obtain ⟨hrow, hended⟩ := hs
  dsimp only at hrow hended
  subst hended
  have hl := h.peeked { dedent := true }
  cases ended with
  | true => exact .pure h (.refl c) (.inl ⟨rfl, rfl, hrow, rfl⟩)
  | false =>
      rcases hl.mark_or_same (.inr rfl) with ⟨hodd, old, new, hmark, hcase⟩ | hsame
      · exact .astray hodd fun o d hok => (furtherCase_gives hr hmark hcase o d hok).elim
      unfold furtherCase?
      refine .read ?_
      generalize c.read { dedent := true } = l at hl hsame
      generalize c'.read { dedent := true } = l' at hl hsame
      have hrow := hrow.reach hl.reaches
      refine .ite (by rw [hsame]) (fun _ => ?_) fun _ => ?_
      · refine .bind (caseClause_tends hr hl.here hl.toLexed rfl) hl.reaches ?_
          fun t ht => .pure ⟨_, rfl, .head ht⟩
        intro t t' d d' hd hcd _ ht
        exact .pure hd hcd (.inr ⟨_, _, rfl, rfl, hrow.grow hl.here ht, rfl⟩)
      · refine .ite (by rw [hl.same Token.isDedent fun _ _ => rfl]) (fun _ => ?_)
          fun _ => .agree (.error hl.here.furthest)
        refine .accept hl.toLexed hl.here hl.reaches (Nat.le_refl _) ?_
        intro d d' hd hcd hbehind
        exact .pure hd hcd (.inr ⟨_, _, rfl, rfl, hrow.reach hbehind.reaches, rfl⟩)

theorem caseBlock_tends (hr : g.Locked rules) (h : g.Linked c c') :
    Tends g c (g.Grown c) g.Stray (caseBlock rules c) (caseBlock rules c') := by
  unfold caseBlock
  refine .peek h (.refl c) ?_
  intro l l' hl hlinked hreach
  rcases hl.token with ⟨old, new, hold, hnew⟩ | ⟨w, hne, hw, hw'⟩
  · rw [hold, hnew]
    exact .agree (.error hlinked.furthest)
  · rw [hw, hw']
    split
    · refine .agree (.accept hl.toLexed hlinked hreach (Nat.le_refl _) ?_)
      intro d d' hd hcd hbehind
      exact .node hd hcd hl.start hl.start_ge (.nil hbehind.start_le) trivial
    · refine .accept hl.toLexed hlinked hreach (Nat.le_refl _) ?_
      intro d d' hd hcd hbehind
      refine .bind (Q := g.Cased l.start) (S := fun s => g.StrayIn s.1)
        (.loop hd (.refl d) ⟨.nil hbehind.start_le, rfl⟩ ?_ furtherCase_yields) hcd ?_
        fun s hs => .ite (.node hs.reverse) .reject
      · intro s s' e e' he hde hs
        exact (furtherCase_tends hr he hs).imp hde fun _ _ _ _ hq => hq
      · rintro ⟨trees, ended⟩ ⟨trees', ended'⟩ e e' he hce _ ⟨hrow, hended⟩
        dsimp only at hrow hended ⊢
        refine .ite (by rw [hended]) (fun _ => ?_) fun _ => .agree (.error he.furthest)
        exact .agree (.node he hce hl.start hl.start_ge hrow trivial)
    · exact .agree (.error hlinked.furthest)

theorem matchStatement_tends (hr : g.Locked rules) (h : g.Linked c c') (hl : g.Lexed l l')
    (hstart : c.offset = l.start) :
    Tends g c (g.Grown c) g.Stray (matchStatement rules l c) (matchStatement rules l' c') := by
  have hle : c.offset ≤ l.start := Nat.le_of_eq hstart
  unfold matchStatement
  refine .accept hl h (.refl c) hle ?_
  intro d d' hd hcd hbehind
  refine .after (expressions_agrees hr.toLockstep _ hd) hcd ?_
  intro r r' e e' he hce _ hrow
  have hrow := hrow.1.widen (Nat.le_trans hbehind.start_le hd.last_le) (Nat.le_refl _)
  refine .expect (fun _ _ => rfl) he hce ?_
  intro m m' k k' _ _ hk hck hcolon
  refine .bind (caseBlock_tends hr hk) hck ?_ fun t ht => .node (.right (.head (ht.withRole _)))
  intro t t' n n' hn hcn _ ht
  exact .agree (.node hn hcn hl.start hle
    ((hrow.reach hcolon.reaches).snoc hk (ht.withRole .body)) trivial)

/-! ## Blocks -/

/-- A statement that stands alone. -/
theorem alone_tends {p p' : Parser Tree} {low : Nat} (hlow : low ≤ c₀.offset)
    (hp : Tends g c₀ (g.Grown c₀) g.Stray (p c) (p' c')) :
    Tends g c₀ (fun ts ts' d => g.Row low d.last ts ts') g.StrayIn
      ((do return [← p] : Parser (List Tree)) c) ((do return [← p'] : Parser (List Tree)) c') := by
  refine .bind hp (.refl c₀) ?_ fun t ht => .pure (.head ht)
  intro t t' d d' hd hcd _ ht
  exact .pure hd hcd (ht.single hlow)

/-- A statement that begins with the word `async`. -/
theorem asyncStatement_tends (hr : g.Locked rules) (hl : g.Lexed l l') :
    Tends g l.here (fun ts ts' d => g.Row l.start d.last ts ts') g.StrayIn
      (asyncStatement rules l l.here) (asyncStatement rules l' l'.here) := by
  unfold asyncStatement
  refine .accept hl hl.here (.refl _) (Nat.le_refl _) ?_
  intro d d' hd hcd hbehind
  refine .peek hd hcd ?_
  intro m m' hm hlinked hreach
  have line : Tends g l.here (fun ts ts' d => g.Row l.start d.last ts ts') g.StrayIn
      ((do returnTo l.here; simpleLine rules : Parser (List Tree)) m.here)
      ((do returnTo l'.here; simpleLine rules : Parser (List Tree)) m'.here) := by
    refine .returnTo hlinked hl.here (.refl _) ?_
    intro e e' he hce hstands
    refine .imp (.agree (simpleLine_agrees hr.toLockstep he)) hce fun ts ts' k _ hrow => ?_
    exact hrow.widen (Nat.le_of_eq hstands.offset.symm) (Nat.le_refl _)
  rcases hm.token with ⟨old, new, hold, hnew⟩ | ⟨w, hne, hw, hw'⟩
  · rw [hold, hnew]
    exact line
  · rw [hw, hw']
    split
    · exact alone_tends (Nat.le_refl _) (functionDefinition_tends hr hlinked hm.toLexed
        (Nat.le_refl _) hreach hl.start (Nat.le_refl _) hreach.offset)
    · exact alone_tends (Nat.le_refl _) (forStatement_tends hr hlinked hm.toLexed (Nat.le_refl _)
        hreach hl.start (Nat.le_refl _) hreach.offset)
    · exact alone_tends (Nat.le_refl _) (withStatement_tends hr hlinked hm.toLexed (Nat.le_refl _)
        hreach hl.start (Nat.le_refl _) hreach.offset)
    · exact line

/-- A line, or a match statement where the line cannot be read otherwise. -/
theorem statement_tends (hr : g.Locked rules) (hl : g.Lexed l l') :
    Tends g l.here (fun ts ts' d => g.Row l.start d.last ts ts') g.StrayIn
      (statement rules l l.here) (statement rules l' l'.here) := by
  have line := simpleLine_agrees hr.toLockstep hl.here
  have alone : ∀ {p p' : Parser Tree},
      Tends g l.here (g.Grown l.here) g.Stray (p l.here) (p' l'.here) →
      Tends g l.here (fun ts ts' d => g.Row l.start d.last ts ts') g.StrayIn
        ((do return [← p] : Parser (List Tree)) l.here)
        ((do return [← p'] : Parser (List Tree)) l'.here) := fun hp =>
    alone_tends (Nat.le_refl _) hp
  have hmatch := keyword_iff hl Follow.line.optionalOperand "match" Token.startsExpression
    (fun _ _ => rfl) rfl fun _ => rfl
  unfold statement
  rcases hl.token with ⟨old, new, hold, hnew⟩ | ⟨w, hne, hw, hw'⟩
  · rw [hold, hnew] at hmatch ⊢
    refine .ite (by rw [hmatch]) (fun _ => ?_) fun _ => .agree line
    refine .firstOf line hl.here ?_
    intro d d' hd hoffset hlast
    have hreach : Reaches l.here d := ⟨Nat.le_of_eq hoffset.symm, Nat.le_of_eq hlast.symm⟩
    exact alone_tends (Nat.le_refl _) ((matchStatement_tends hr hd hl hoffset).earlier hreach)
  · rw [hw, hw']
    split
    · exact alone (ifStatement_tends hr hl.here hl rfl)
    · exact alone (whileStatement_tends hr hl.here hl rfl)
    · exact alone (forStatement_tends hr hl.here hl (Nat.le_refl _) (.refl _) hl.start
        (Nat.le_refl _) (Nat.le_refl _))
    · exact alone (tryStatement_tends hr hl.here hl rfl)
    · exact alone (withStatement_tends hr hl.here hl (Nat.le_refl _) (.refl _) hl.start
        (Nat.le_refl _) (Nat.le_refl _))
    · exact alone (definition_tends hr hl)
    · exact alone (definition_tends hr hl)
    · exact asyncStatement_tends hr hl
    · exact alone (decoratedDefinition_tends hr hl.here hl rfl)
    · exact absurd rfl (hne _)
    · exact .agree line

theorem furtherStatement_yields (ts : List Tree) (h : g.StrayIn ts) :
    Yields (furtherStatement? rules ts) fun o => ∀ us, o = some us → g.StrayIn us := by
  refine .bind fun l => .ite (.pure fun b hb => nomatch hb) (.bind fun us => .pure ?_)
  rintro b ⟨⟩
  exact h.right

theorem statements_tends (hr : g.Locked rules) (h : g.Linked c c') :
    Tends g c (g.Listed c) g.StrayIn (statements rules c) (statements rules c') := by
  unfold statements
  refine .bind (Q := fun ts ts' d => g.Listed c ts.reverse ts'.reverse d) (S := g.StrayIn)
    (.loop h (.refl c) (.inl ⟨rfl, rfl⟩) ?_ furtherStatement_yields) (.refl c) ?_
    fun ts hts => .pure hts.reverse
  · intro ts ts' d d' hd hcd hts
    refine .peek hd hcd ?_
    intro l l' hl hlinked hreach
    refine .ite (by rw [hl.same Token.endsBlock fun _ _ => rfl]) (fun _ => ?_) fun _ => ?_
    · refine .pure hlinked hreach (.inl ⟨rfl, rfl, ?_⟩)
      rcases hts with hnil | hrow
      · exact .inl hnil
      · exact .inr (hrow.reach hl.reaches)
    · refine .bind (statement_tends hr hl.toLexed) hreach ?_
        fun us hus => .pure ⟨_, rfl, hus.reverse.left⟩
      intro us us' e e' he hce _ hus
      refine .pure he hce (.inr ⟨_, _, rfl, rfl, .inr ?_⟩)
      rw [List.reverse_append, List.reverse_append, List.reverse_reverse, List.reverse_reverse]
      rcases hts with ⟨hnil, hnil'⟩ | hrow
      · rw [hnil, hnil']
        exact hus.widen hreach.offset (Nat.le_refl _)
      · exact hrow.append (hus.widen (Nat.le_trans hd.last_le hl.start_ge) (Nat.le_refl _))
  · intro ts ts' d d' hd hcd _ hts
    exact .pure hd hcd hts

theorem suite_tends (hr : g.Locked rules) (h : g.Linked c c') :
    Tends g c (g.Grown c) g.Stray (suite rules c) (suite rules c') := by
  unfold suite
  refine .peek h (.refl c) ?_
  intro l l' hl hlinked hreach
  have line : Tends g c (g.Grown c) g.Stray
      ((do node .block l.start (← simpleLine rules) : Parser Tree) l.here)
      ((do node .block l'.start (← simpleLine rules) : Parser Tree) l'.here) := by
    refine .after (simpleLine_agrees hr.toLockstep hlinked) hreach ?_
    intro ts ts' d d' hd hcd _ hrow
    exact .agree (.node hd hcd hl.start hl.start_ge hrow trivial)
  rcases hl.token with ⟨old, new, hold, hnew⟩ | ⟨w, hne, hw, hw'⟩
  · rw [hold, hnew]
    exact line
  · rw [hw, hw']
    split
    · refine .agree (.accept hl.toLexed hlinked hreach (Nat.le_refl _) ?_)
      intro d d' hd hcd hbehind
      exact .node hd hcd hl.start hl.start_ge (.nil hbehind.start_le) trivial
    · refine .accept hl.toLexed hlinked hreach (Nat.le_refl _) ?_
      intro d d' hd hcd hbehind
      refine .bind (statements_tends hr hd) hcd ?_ fun ts hts => .bind fun _ => .node hts
      intro ts ts' e e' he hce hde hts
      refine .expect (fun _ _ => rfl) he hce ?_
      intro m m' k k' hm _ hk hck hdedent
      rcases hts with ⟨rfl, rfl⟩ | hrow
      · exact .agree (.node hk hck hm.start (Nat.le_trans hce.offset hm.start_ge)
          (.nil hdedent.start_le) trivial)
      · have hrow := hrow.reach hdedent.reaches
        cases hrow with
        | nil _ =>
            exact .agree (.node hk hck hm.start (Nat.le_trans hce.offset hm.start_ge)
              (.nil hdedent.start_le) trivial)
        | cons hle htwin hrest =>
            exact .agree (.node hk hck htwin.spans.start (Nat.le_trans hcd.offset hle)
              (.cons (Nat.le_refl _) htwin hrest) trivial)
    · exact line

end Longhand.Draft
