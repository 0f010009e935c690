import Longhand.Proofs.Grammar.Expression
import Longhand.Syntax.Grammar.Statement

/-!
# Simple statements of a draft

The statements of one line are read alike in the two texts of a draft.  A marked name is no keyword
of a statement, for an equals sign comes next.
-/

namespace Longhand.Draft

open Syntax Text

variable {g : Draft} {rules : Rules} {c c' : Cursor} {l l' : Lexeme}

/-! ## Words that are keywords in some places -/

/-- What comes behind a name that is spelled in two ways is an equals sign or layout. -/
theorem behind_of_barred (h : Barred l.next) (e : Expect) :
    l.behind e = .equals ∨ ∃ t, l.behind e = .layout t :=
  (h.read e).1

/-- A keyword of some places is one in both texts, if what comes behind it is no equals sign. -/
theorem keyword_iff (hl : g.Lexed l l') (e : Expect) (text : String) (follows : Token → Bool)
    (hnames : ∀ a b, follows (.name a) = follows (.name b)) (hequals : follows .equals = false)
    (hlayout : ∀ t, follows (.layout t) = false) :
    (l.token.isNamed text && follows (l.behind e)) =
      (l'.token.isNamed text && follows (l'.behind e)) := by
  rcases hl.named with heq | ⟨-, -, -, -, -, hbarred, hbarred'⟩
  · have hbehind : follows (l.behind e) = follows (l'.behind e) :=
      (hl.next.read e).same follows hnames
    rw [heq, hbehind]
  · have none : ∀ {m : Lexeme}, Barred m.next → follows (m.behind e) = false := by
      intro m hm
      rcases behind_of_barred hm e with h | ⟨t, h⟩
      · rw [h, hequals]
      · rw [h, hlayout]
    rw [none hbarred, none hbarred', Bool.and_false, Bool.and_false]

/-! ## Expressions and assignments -/

/-- One tree is itself, and several are a list. -/
theorem oneOrList_agrees {c₀ : Cursor} {start start' : Nat} (h : g.Linked c c')
    (hc : Reaches c₀ c) (hstart : g.Cut start start') (hlow : c₀.offset ≤ start)
    {ts ts' : List Tree} (hrow : g.Row start c.last ts ts') (trailing : Bool) :
    Agree g c₀ (g.Grown c₀) (oneOrList start ts trailing c) (oneOrList start' ts' trailing c') := by
  have several : Agree g c₀ (g.Grown c₀) (node .expressionList start ts c)
      (node .expressionList start' ts' c') := .node h hc hstart hlow hrow trivial
  unfold oneOrList
  rcases hrow.singles with ⟨t, t', rfl, rfl, -⟩ | hmany
  · cases trailing with
    | true => exact several
    | false => exact .pure h hc (hrow.grown hlow)
  · split
    · exact absurd rfl (hmany _).1
    split
    · exact absurd rfl (hmany _).2
    · exact several

theorem expressionOrList_agrees (hr : g.Lockstep rules) (f : Follow) (h : g.Linked c c') :
    Agree g c (g.Grown c) (expressionOrList rules f c) (expressionOrList rules f c') := by
  unfold expressionOrList
  refine .peek h (.refl c) ?_
  intro l l' hl hlinked hreach
  refine .bind (expressions_agrees hr f hlinked) hreach ?_
  rintro ⟨ts, trailing⟩ ⟨ts', trailing'⟩ d d' hd hcd _ ⟨hrow, rfl, -⟩
  exact oneOrList_agrees hd hcd hl.start hl.start_ge hrow trailing

theorem assignedValue_agrees (hr : g.Lockstep rules) (h : g.Linked c c') :
    Agree g c (fun ts ts' d => g.Row c.last d.last ts ts') (assignedValue? rules c)
      (assignedValue? rules c') := by
  unfold assignedValue?
  refine .optional (fun _ _ => rfl) h (.refl c) ?_ ?_
  · intro m m' _ _ hlinked hreach
    exact .pure hlinked hreach (.nil hreach.last)
  · intro m m' d d' _ _ hd hcd hequals
    refine .bind (hr.rule _ rfl _ _ hd) hcd ?_
    intro t t' e e' he hce _ ht
    exact .pure he hce ((ht.withRole .right).single (Nat.le_trans h.last_le hcd.offset))

theorem assignment_agrees (hr : g.Lockstep rules) {start start' : Nat} (h : g.Linked c c')
    (hstart : g.Cut start start') {ts ts' : List Tree} (hrow : g.Row start c.last ts ts')
    (trailing : Bool) :
    Agree g c (g.Extended start) (assignment? rules start ts trailing c)
      (assignment? rules start' ts' trailing c') := by
  unfold assignment?
  refine .lastEnd ?_ h
  intro o' hstop
  refine .peek h (.refl c) ?_
  intro l l' hl hlinked hreach
  -- Plain and augmented assignments differ in the kind of the node only.
  have assigned : ∀ kind : Kind, (∀ ts, g.Shaped kind ts) →
      Agree g c (g.Extended start)
        ((do
          let left ← target start c.last ts trailing
          accept l
          let right ← rules .assigned
          return some (← node kind start [left.withRole .left, right.withRole .right]) :
            Parser (Option Tree)) l.here)
        ((do
          let left ← target start' o' ts' trailing
          accept l'
          let right ← rules .assigned
          return some (← node kind start' [left.withRole .left, right.withRole .right]) :
            Parser (Option Tree)) l'.here) := by
    intro kind hshaped
    rcases target_cases hstart hstop hrow trailing with ⟨hleft, hright⟩ | ⟨t, t', hleft, hright, ht⟩
    · rw [hleft, hright]
      exact .error hlinked.furthest
    · rw [hleft, hright, pure_bind, pure_bind]
      refine .accept hl.toLexed hlinked hreach (Nat.le_refl _) ?_
      intro d d' hd hcd hbehind
      refine .bind (hr.rule _ rfl _ _ hd) hcd ?_
      intro u u' e e' he hce _ hu
      have ht := (ht.map_withRole .left).reach (hl.reaches.trans hbehind.reaches)
      refine .bind (.nodeRow he hce hstart (ht.snoc hd (hu.withRole .right)) (hshaped _))
        (.refl c) ?_
      intro v v' k k' hk hck _ hv
      exact .pure hk hck (.inr ⟨_, _, rfl, rfl, hv⟩)
  rcases hl.token with ⟨old, new, hold, hnew⟩ | ⟨w, hne, hw, hw'⟩
  · rw [hold, hnew]
    exact .pure hlinked hreach (.inl ⟨rfl, rfl⟩)
  · rw [hw, hw']
    split
    · exact assigned _ fun _ => trivial
    · exact assigned _ fun _ => trivial
    · rcases target_cases hstart hstop hrow trailing with ⟨hleft, hright⟩ |
        ⟨t, t', hleft, hright, ht⟩
      · rw [hleft, hright]
        exact .error hlinked.furthest
      · rw [hleft, hright, pure_bind, pure_bind]
        refine .accept hl.toLexed hlinked hreach (Nat.le_refl _) ?_
        intro d d' hd hcd hbehind
        have ht := (ht.map_withRole .left).reach (hl.reaches.trans hbehind.reaches)
        refine .bind (hr.rule _ rfl _ _ hd) hcd ?_
        intro u u' e e' he hce _ hu
        refine .bind (assignedValue_agrees hr he) hce ?_
        intro vs vs' k k' hk hck _ hvs
        refine .bind (.nodeRow hk hck hstart ((ht.snoc hd (hu.withRole .type)).append hvs) trivial)
          (.refl c) ?_
        intro v v' n n' hn hcn _ hv
        exact .pure hn hcn (.inr ⟨_, _, rfl, rfl, hv⟩)
    · exact .pure hlinked hreach (.inl ⟨rfl, rfl⟩)

/-- What is made of expressions that begin an assignment, and of others. -/
theorem assignmentOr_agrees {c₀ : Cursor} {start start' : Nat} (hr : g.Lockstep rules)
    (made made' : Tree → Parser Tree) (other other' : List Tree → Bool → Parser Tree)
    (h : g.Linked c c') (hc : Reaches c₀ c) (hstart : g.Cut start start') (hle : start ≤ c.offset)
    (hmade : ∀ {t t' : Tree} {d d' : Cursor}, g.Linked d d' → Reaches c₀ d →
      g.Row start d.last [t] [t'] → Agree g c₀ (g.Grown c₀) (made t d) (made' t' d'))
    (hother : ∀ {ts ts' : List Tree} (trailing : Bool) {d d' : Cursor}, g.Linked d d' →
      Reaches c₀ d → g.Row start d.last ts ts' →
      Agree g c₀ (g.Grown c₀) (other ts trailing d) (other' ts' trailing d')) :
    Agree g c₀ (g.Grown c₀)
      ((do
        let (items, trailing) ← expressions rules Follow.line
        match ← assignment? rules start items trailing with
        | some t => made t
        | none => other items trailing : Parser Tree) c)
      ((do
        let (items, trailing) ← expressions rules Follow.line
        match ← assignment? rules start' items trailing with
        | some t => made' t
        | none => other' items trailing : Parser Tree) c') := by
  refine .bind (expressions_agrees hr _ h) hc ?_
  rintro ⟨ts, trailing⟩ ⟨ts', trailing'⟩ d d' hd hcd _ ⟨hrow, rfl, -⟩
  have hrow := hrow.widen hle (Nat.le_refl _)
  refine .bind (assignment_agrees hr hd hstart hrow trailing) hcd ?_
  rintro o o' e e' he hce hde (⟨rfl, rfl⟩ | ⟨t, t', rfl, rfl, ht⟩)
  · exact hother trailing he hce (hrow.reach hde)
  · exact hmade he hce ht

theorem assigned_agrees (hr : g.Lockstep rules) (h : g.Linked c c') :
    Agree g c (g.Grown c) (assigned rules c) (assigned rules c') := by
  unfold assigned
  refine .peek h (.refl c) ?_
  intro l l' hl hlinked hreach
  have value := assignmentOr_agrees hr pure pure (oneOrList l.start) (oneOrList l'.start) hlinked
    hreach hl.start (Nat.le_refl _)
    (fun he hce ht => .pure he hce (ht.grown hl.start_ge))
    fun trailing _ _ he hce hrow => oneOrList_agrees he hce hl.start hl.start_ge hrow trailing
  rcases hl.token with ⟨old, new, hold, hnew⟩ | ⟨w, hne, hw, hw'⟩
  · rw [hold, hnew]
    exact value
  · rw [hw, hw']
    split
    · exact (hr.rule _ rfl _ _ hlinked).earlier hreach
    · exact value

theorem expressionStatement_agrees (hr : g.Lockstep rules) (h : g.Linked c c') :
    Agree g c (g.Grown c) (expressionStatement rules c) (expressionStatement rules c') := by
  unfold expressionStatement
  refine .peek h (.refl c) ?_
  intro l l' hl hlinked hreach
  have line := assignmentOr_agrees hr (fun t => node .expressionStatement l.start [t])
    (fun t => node .expressionStatement l'.start [t])
    (fun items _ => node .expressionStatement l.start items)
    (fun items _ => node .expressionStatement l'.start items)
    hlinked hreach hl.start (Nat.le_refl _)
    (fun he hce ht => .node he hce hl.start hl.start_ge ht trivial)
    fun _ _ _ he hce hrow => .node he hce hl.start hl.start_ge hrow trivial
  rcases hl.token with ⟨old, new, hold, hnew⟩ | ⟨w, hne, hw, hw'⟩
  · rw [hold, hnew]
    exact line
  · rw [hw, hw']
    split
    · refine .bind (hr.rule _ rfl _ _ hlinked) hreach ?_
      intro t t' d d' hd hcd _ ht
      exact .node hd hcd hl.start hl.start_ge (ht.single (Nat.le_refl _)) trivial
    · exact line

/-! ## Imports -/

theorem importItem_agrees (e : Expect) (h : g.Linked c c') :
    Agree g c (g.Grown c) (importItem e c) (importItem e c') := by
  unfold importItem
  refine .bind (dottedName_agrees e h) (.refl c) ?_
  intro t t' d d' hd hcd _ ⟨ht, _⟩
  have hrow := ht.single (Nat.le_refl _)
  refine .optional (fun _ _ => rfl) hd hcd ?_ ?_
  · intro m m' hm _ hlinked hreach
    refine .pure hlinked hreach (Grown.withRole ?_ .name)
    exact (hrow.reach hm.reaches).grown (Nat.le_refl _)
  · intro m m' k k' _ _ hk hck has
    refine .bind (name_agrees {} hk) hck ?_
    intro u u' n n' hn hcn _ ⟨hu, _⟩
    have hpath : g.Row t.span.start d.last [t.withRole .name] [t'.withRole .name] :=
      (Row.single ht.twin (Nat.le_refl _) ht.stop_le).map_withRole .name
    refine .bind (.node hn hcn ht.twin.spans.start ht.start_ge
      ((hpath.reach has.reaches).snoc hk (hu.withRole .alias)) trivial) (.refl c) ?_
    intro v v' p p' hp hcp _ hv
    exact .pure hp hcp (hv.withRole .name)

theorem importItems_agrees (f : Follow) (h : g.Linked c c') :
    Agree g c (fun ts ts' d => g.Row c.offset d.last ts ts') (importItems f c)
      (importItems f c') := by
  unfold importItems
  refine .bind (separated_agrees (fun _ _ => rfl) h fun e e' he _ _ => importItem_agrees _ he)
    (.refl c) ?_
  intro r r' d d' hd hcd _ ⟨hrow, _⟩
  exact .pure hd hcd hrow

theorem importList_agrees (h : g.Linked c c') :
    Agree g c (fun ts ts' d => g.Row c.offset d.last ts ts') (importList c) (importList c') := by
  unfold importList
  refine .optional (fun _ _ => rfl) h (.refl c) ?_ ?_
  · intro m m' _ _ hlinked hreach
    exact (importItems_agrees _ hlinked).imp hreach fun ts ts' d _ hrow =>
      hrow.widen hreach.offset (Nat.le_refl _)
  · intro m m' d d' _ _ hd hcd _
    refine .bind (importItems_agrees _ hd) hcd ?_
    intro ts ts' e e' he hce _ hrow
    refine .expect (fun _ _ => rfl) he hce ?_
    intro n n' k k' _ _ hk hck hclose
    exact .pure hk hck ((hrow.widen hcd.offset (Nat.le_refl _)).reach hclose.reaches)

theorem importStatement_agrees (h : g.Linked c c') (hl : g.Lexed l l')
    (hstart : c.offset = l.start) :
    Agree g c (g.Grown c) (importStatement l c) (importStatement l' c') := by
  unfold importStatement
  refine .accept hl h (.refl c) (Nat.le_of_eq hstart) ?_
  intro d d' hd hcd hbehind
  refine .bind (importItems_agrees _ hd) hcd ?_
  intro ts ts' e e' he hce _ hrow
  exact .node he hce hl.start (Nat.le_of_eq hstart)
    (hrow.widen (Nat.le_trans hbehind.start_le hd.last_le) (Nat.le_refl _)) trivial

theorem importedModule_agrees (h : g.Linked c c') :
    Agree g c (g.Grown c) (importedModule c) (importedModule c') := by
  unfold importedModule
  refine .peek h (.refl c) ?_
  intro l l' hl hlinked hreach
  refine .ite (by rw [hl.same Token.isDots fun _ _ => rfl]) (fun _ => ?_) fun _ => ?_
  · refine .accept hl.toLexed hlinked hreach (Nat.le_refl _) ?_
    intro d d' hd hcd hbehind
    refine .bind (Q := fun _ _ _ => True) (.loop hd (.refl d) trivial ?_) hcd ?_
    · intro _ _ e e' he hde _
      refine .optional (fun _ _ => rfl) he hde ?_ ?_
      · intro m m' _ _ hm hreach
        exact .pure hm hreach (.inl ⟨rfl, rfl, trivial⟩)
      · intro m m' k k' _ _ hk hdk _
        exact .pure hk hdk (.inr ⟨_, _, rfl, rfl, trivial⟩)
    · intro _ _ e e' he hce hde _
      refine .bind
        (.nodeRow he hce hl.start (.nil (Nat.le_trans hbehind.start_le hde.last)) trivial)
        (.refl c) ?_
      intro t t' k k' hk hck _ ht
      refine .peek hk hck ?_
      intro m m' hm hmlinked hmreach
      have ht := ht.reach hm.reaches
      refine .ite (by rw [hm.same Token.isName fun _ _ => rfl]) (fun _ => ?_) fun _ => ?_
      · refine .bind (dottedName_agrees {} hmlinked) hmreach ?_
        intro u u' n n' hn hcn _ ⟨hu, _⟩
        exact .node hn hcn hl.start hl.start_ge (ht.snoc hmlinked hu) trivial
      · exact .node hmlinked hmreach hl.start hl.start_ge ht trivial
  · exact (dottedName_agrees {} hlinked).imp hreach fun t t' d _ ht => ht.1.before hreach

theorem importFromStatement_agrees (h : g.Linked c c') (hl : g.Lexed l l')
    (hstart : c.offset = l.start) :
    Agree g c (g.Grown c) (importFromStatement l c) (importFromStatement l' c') := by
  have hle : c.offset ≤ l.start := Nat.le_of_eq hstart
  unfold importFromStatement
  refine .accept hl h (.refl c) hle ?_
  intro d d' hd hcd hbehind
  refine .peek hd hcd ?_
  intro m m' hm hlinked hreach
  have hinner : l.start ≤ m.here.offset :=
    Nat.le_trans hbehind.start_le (Nat.le_trans hd.last_le hm.start_ge)
  have hfuture := keyword_iff hm.toLexed {} "__future__" Token.followsModule (fun _ _ => rfl) rfl
    fun _ => rfl
  refine .ite (by rw [hfuture]) (fun _ => ?_) fun _ => ?_
  · refine .accept hm.toLexed hlinked hreach (Nat.le_refl _) ?_
    intro e e' he hce hnext
    refine .expect (fun _ _ => rfl) he hce ?_
    intro n n' k k' _ _ hk hck himport
    refine .bind (importList_agrees hk) hck ?_
    intro ts ts' p p' hp hcp _ hrow
    refine .node hp hcp hl.start hle (hrow.widen ?_ (Nat.le_refl _)) trivial
    exact Nat.le_trans hinner (hnext.reaches.trans himport.reaches).offset
  · refine .bind (importedModule_agrees hlinked) hreach ?_
    intro t t' e e' he hce _ ht
    have ht := (ht.withRole .moduleName).single hinner
    refine .expect (fun _ _ => rfl) he hce ?_
    intro n n' k k' _ _ hk hck himport
    have ht := ht.reach himport.reaches
    refine .optional (fun _ _ => rfl) hk hck ?_ ?_
    · intro q q' hq _ hqlinked hqreach
      refine .bind (importList_agrees hqlinked) hqreach ?_
      intro ts ts' p p' hp hcp _ hrow
      exact .node hp hcp hl.start hle
        ((ht.reach hq.reaches).append (hrow.widen hqlinked.last_le (Nat.le_refl _))) trivial
    · intro q q' p p' hq _ hp hcp hstar
      have hleaf := Row.leaf .wildcardImport hq.toLexed hstar fun hkind => nomatch hkind
      exact .node hp hcp hl.start hle
        (ht.append (hleaf.widen (Nat.le_trans hk.last_le hq.start_ge) (Nat.le_refl _))) trivial

/-! ## Statements of old -/

theorem printStatement_agrees (hr : g.Lockstep rules) (h : g.Linked c c') (hl : g.Lexed l l')
    (hstart : c.offset = l.start) :
    Agree g c (g.Grown c) (printStatement rules l c) (printStatement rules l' c') := by
  have hle : c.offset ≤ l.start := Nat.le_of_eq hstart
  unfold printStatement
  refine .accept hl h (.refl c) hle ?_
  intro d d' hd hcd hbehind
  refine .peek hd hcd ?_
  intro m m' hm hlinked hreach
  have hinner : l.start ≤ m.here.offset :=
    Nat.le_trans hbehind.start_le (Nat.le_trans hd.last_le hm.start_ge)
  have plain : Agree g c (g.Grown c)
      ((do node .printStatement l.start (← expressions rules Follow.line).1 : Parser Tree) m.here)
      ((do node .printStatement l'.start (← expressions rules Follow.line).1 : Parser Tree)
        m'.here) := by
    refine .bind (expressions_agrees hr _ hlinked) hreach ?_
    intro r r' e e' he hce _ ⟨hrow, _⟩
    exact .node he hce hl.start hle (hrow.widen hinner (Nat.le_refl _)) trivial
  rcases hm.token with ⟨old, new, hold, hnew⟩ | ⟨w, hne, hw, hw'⟩
  · rw [hold, hnew]
    exact plain
  · rw [hw, hw']
    split
    · refine .accept hm.toLexed hlinked hreach (Nat.le_refl _) ?_
      intro e e' he hce harrows
      refine .bind (hr.rule _ rfl _ _ he) hce ?_
      intro t t' k k' hk hck hek ht
      refine .bind (.node hk (harrows.reaches.trans hek) hm.start (Nat.le_refl _)
        (ht.single harrows.reaches.offset) trivial) hreach ?_
      intro u u' n n' hn hcn _ hu
      refine .bind (furtherItems_agrees (fun _ _ => rfl) hn fun p p' hp _ _ =>
        hr.rule _ rfl _ _ hp) hcn ?_
      rintro ⟨ts, trailing⟩ ⟨ts', trailing'⟩ p p' hp hcp hnp ⟨hrow, -⟩
      exact .node hp hcp hl.start hle ((hu.single hinner).append (hrow.row hnp hn)) trivial
    · exact plain

theorem execCode_agrees (hr : g.Lockstep rules) (h : g.Linked c c') :
    Agree g c (g.Grown c) (execCode rules c) (execCode rules c') := by
  unfold execCode
  refine .peek h (.refl c) ?_
  intro l l' hl hlinked hreach
  rcases hl.token with ⟨old, new, hold, hnew⟩ | ⟨w, hne, hw, hw'⟩
  · rw [hold, hnew]
    exact .leaf hl.toLexed hlinked hreach rfl fun _ => .inl (by rw [hold]; rfl)
  · rw [hw, hw']
    split
    · exact (stringLiteral_agrees hr hlinked hl.toLexed rfl (hl.quote _ hw)).earlier hreach
    · exact absurd rfl (hne _)
    · exact .error hlinked.furthest

theorem execStatement_agrees (hr : g.Lockstep rules) (h : g.Linked c c') (hl : g.Lexed l l')
    (hstart : c.offset = l.start) :
    Agree g c (g.Grown c) (execStatement rules l c) (execStatement rules l' c') := by
  have hle : c.offset ≤ l.start := Nat.le_of_eq hstart
  unfold execStatement
  refine .accept hl h (.refl c) hle ?_
  intro d d' hd hcd hbehind
  refine .bind (execCode_agrees hr hd) hcd ?_
  intro t t' e e' he hce _ ht
  have ht := ht.single (Nat.le_trans hbehind.start_le hd.last_le)
  refine .optional (fun _ _ => rfl) he hce ?_ ?_
  · intro m m' hm _ hlinked hreach
    exact .node hlinked hreach hl.start hle (ht.reach hm.reaches) trivial
  · intro m m' k k' _ _ hk hck hin
    have ht := ht.reach hin.reaches
    refine .bind (expressions_agrees hr _ hk) hck ?_
    rintro ⟨ts, trailing⟩ ⟨ts', trailing'⟩ n n' hn hcn _ ⟨hrow, rfl, -⟩
    refine .ite Iff.rfl (fun _ => .error hn.furthest) fun _ => ?_
    exact .node hn hcn hl.start hle (ht.append (hrow.widen hk.last_le (Nat.le_refl _))) trivial

theorem typeAliasStatement_agrees (hr : g.Lockstep rules) (h : g.Linked c c')
    (hl : g.Lexed l l') (hstart : c.offset = l.start) :
    Agree g c (g.Grown c) (typeAliasStatement rules l c) (typeAliasStatement rules l' c') := by
  unfold typeAliasStatement
  refine .accept hl h (.refl c) (Nat.le_of_eq hstart) ?_
  intro d d' hd hcd hbehind
  refine .bind (hr.rule _ rfl _ _ hd) hcd ?_
  intro t t' e e' he hce _ ht
  refine .expect (fun _ _ => rfl) he hce ?_
  intro m m' k k' _ _ hk hck hequals
  refine .bind (hr.rule _ rfl _ _ hk) hck ?_
  intro u u' n n' hn hcn _ hu
  have ht := ht.single (Nat.le_trans hbehind.start_le hd.last_le)
  exact .node hn hcn hl.start (Nat.le_of_eq hstart) ((ht.reach hequals.reaches).snoc hk hu) trivial

/-! ## Statements of one word -/

theorem optionalExpressionOrList_agrees (hr : g.Lockstep rules) (h : g.Linked c c') :
    Agree g c (fun ts ts' d => g.Row c.last d.last ts ts') (expressionOrList? rules c)
      (expressionOrList? rules c') := by
  unfold expressionOrList?
  refine .peek h (.refl c) ?_
  intro l l' hl hlinked hreach
  refine .ite (by rw [hl.same Token.startsExpression fun _ _ => rfl]) (fun _ => ?_) fun _ => ?_
  · refine .bind (expressionOrList_agrees hr _ hlinked) hreach ?_
    intro t t' d d' hd hcd _ ht
    exact .pure hd hcd (ht.single (Nat.le_trans h.last_le hreach.offset))
  · exact .pure hlinked hreach (.nil hreach.last)

theorem wordStatement_agrees (hr : g.Lockstep rules) (kind : Kind) (h : g.Linked c c')
    (hl : g.Lexed l l') (hstart : c.offset = l.start) (hshaped : ∀ ts, g.Shaped kind ts) :
    Agree g c (g.Grown c) (wordStatement rules kind l c) (wordStatement rules kind l' c') := by
  unfold wordStatement
  refine .accept hl h (.refl c) (Nat.le_of_eq hstart) ?_
  intro d d' hd hcd hbehind
  refine .bind (optionalExpressionOrList_agrees hr hd) hcd ?_
  intro ts ts' e e' he hce _ hrow
  exact .node he hce hl.start (Nat.le_of_eq hstart)
    (hrow.widen hbehind.start_le (Nat.le_refl _)) (hshaped _)

theorem raiseStatement_agrees (hr : g.Lockstep rules) (h : g.Linked c c') (hl : g.Lexed l l')
    (hstart : c.offset = l.start) :
    Agree g c (g.Grown c) (raiseStatement rules l c) (raiseStatement rules l' c') := by
  have hle : c.offset ≤ l.start := Nat.le_of_eq hstart
  unfold raiseStatement
  refine .accept hl h (.refl c) hle ?_
  intro d d' hd hcd hbehind
  refine .bind (optionalExpressionOrList_agrees hr hd) hcd ?_
  intro ts ts' e e' he hce _ hrow
  have hrow := hrow.widen hbehind.start_le (Nat.le_refl _)
  refine .optional (fun _ _ => rfl) he hce ?_ ?_
  · intro m m' hm _ hlinked hreach
    exact .node hlinked hreach hl.start hle (hrow.reach hm.reaches) trivial
  · intro m m' k k' _ _ hk hck hfrom
    refine .bind (hr.rule _ rfl _ _ hk) hck ?_
    intro t t' n n' hn hcn _ ht
    exact .node hn hcn hl.start hle ((hrow.reach hfrom.reaches).snoc hk ht) trivial

theorem scopeStatement_agrees (kind : Kind) (h : g.Linked c c') (hl : g.Lexed l l')
    (hstart : c.offset = l.start) (hshaped : ∀ ts, g.Shaped kind ts) :
    Agree g c (g.Grown c) (scopeStatement kind l c) (scopeStatement kind l' c') := by
  unfold scopeStatement
  refine .accept hl h (.refl c) (Nat.le_of_eq hstart) ?_
  intro d d' hd hcd hbehind
  refine .bind (separated_agrees (fun _ _ => rfl) hd fun e e' he _ _ =>
    (name_agrees {} he).imp (.refl e) fun t t' k _ ht => ht.1) hcd ?_
  rintro ⟨ts, trailing⟩ ⟨ts', trailing'⟩ e e' he hce _ ⟨hrow, rfl, -⟩
  refine .ite Iff.rfl (fun _ => .error he.furthest) fun _ => ?_
  exact .node he hce hl.start (Nat.le_of_eq hstart)
    (hrow.widen (Nat.le_trans hbehind.start_le hd.last_le) (Nat.le_refl _)) (hshaped _)

/-! ## Statements that begin with a name -/

theorem wholeStatement_agrees (hr : g.Lockstep rules) (h : g.Linked c c') :
    Agree g c (g.Grown c) (wholeStatement rules c) (wholeStatement rules c') := by
  unfold wholeStatement
  refine .bind (expressionStatement_agrees hr h) (.refl c) ?_
  intro t t' d d' hd hcd _ ht
  refine .peek hd hcd ?_
  intro m m' hm hlinked hreach
  refine .ite (by rw [hm.same Token.endsStatement fun _ _ => rfl]) (fun _ => ?_)
    fun _ => .error hlinked.furthest
  exact .pure hlinked hreach (((ht.single (Nat.le_refl _)).reach hm.reaches).grown (Nat.le_refl _))

/-- A line that is no expression may be a statement of old. -/
theorem wholeOr_agrees (hr : g.Lockstep rules) {p p' : Parser Tree} (h : g.Linked c c')
    (hstart : c.offset = l.start)
    (hp : ∀ d d', g.Linked d d' → d.offset = l.start → Agree g d (g.Grown d) (p d) (p' d')) :
    Agree g c (g.Grown c) (firstOf (wholeStatement rules) p c)
      (firstOf (wholeStatement rules) p' c') := by
  refine .firstOf (wholeStatement_agrees hr h) h ?_
  intro d d' hd hoffset hlast
  exact (hp d d' hd (hoffset.trans hstart)).earlier
    ⟨Nat.le_of_eq hoffset.symm, Nat.le_of_eq hlast.symm⟩

theorem nameStatement_agrees (hr : g.Lockstep rules) (h : g.Linked c c') (hl : g.Lexed l l')
    (hstart : c.offset = l.start) :
    Agree g c (g.Grown c) (nameStatement rules l c) (nameStatement rules l' c') := by
  have hkeyword := keyword_iff hl Follow.line.optionalOperand
  unfold nameStatement
  refine .ite (by
    rw [hkeyword "print" (Token.isOperator .shiftRight) (fun _ _ => rfl) rfl fun _ => rfl])
    (fun _ => printStatement_agrees hr h hl hstart) fun _ => ?_
  refine .ite (by rw [hkeyword "print" Token.startsExpression (fun _ _ => rfl) rfl fun _ => rfl])
    (fun _ => ?_) fun _ => ?_
  · exact wholeOr_agrees hr h hstart fun d d' hd hoffset => printStatement_agrees hr hd hl hoffset
  refine .ite (by rw [hkeyword "exec" Token.startsExpression (fun _ _ => rfl) rfl fun _ => rfl])
    (fun _ => ?_) fun _ => ?_
  · exact wholeOr_agrees hr h hstart fun d d' hd hoffset => execStatement_agrees hr hd hl hoffset
  refine .ite (by
    rw [hkeyword "type" (fun t => t.startsExpression || t.isOperator .power) (fun _ _ => rfl) rfl
      fun _ => rfl]) (fun _ => ?_) fun _ => ?_
  · exact wholeOr_agrees hr h hstart fun d d' hd hoffset =>
      typeAliasStatement_agrees hr hd hl hoffset
  · exact wholeStatement_agrees hr h

/-! ## One line -/

theorem simpleStatement_agrees (hr : g.Lockstep rules) (h : g.Linked c c') :
    Agree g c (g.Grown c) (simpleStatement rules c) (simpleStatement rules c') := by
  unfold simpleStatement
  refine .peek h (.refl c) ?_
  intro l l' hl hlinked hreach
  rcases hl.token with ⟨old, new, hold, hnew⟩ | ⟨w, hne, hw, hw'⟩
  · rw [hold, hnew]
    exact (nameStatement_agrees hr hlinked hl.toLexed rfl).earlier hreach
  · have word : ∀ kind : Kind, (∀ ts, g.Shaped kind ts) →
        Agree g c (g.Grown c) (wordStatement rules kind l l.here)
          (wordStatement rules kind l' l'.here) := fun kind hshaped =>
      (wordStatement_agrees hr kind hlinked hl.toLexed rfl hshaped).earlier hreach
    have scope : ∀ kind : Kind, (∀ ts, g.Shaped kind ts) →
        Agree g c (g.Grown c) (scopeStatement kind l l.here)
          (scopeStatement kind l' l'.here) := fun kind hshaped =>
      (scopeStatement_agrees kind hlinked hl.toLexed rfl hshaped).earlier hreach
    rw [hw, hw']
    split
    · exact (importStatement_agrees hlinked hl.toLexed rfl).earlier hreach
    · exact (importFromStatement_agrees hlinked hl.toLexed rfl).earlier hreach
    · refine .accept hl.toLexed hlinked hreach (Nat.le_refl _) ?_
      intro d d' hd hcd hbehind
      refine .bind (expressions_agrees hr _ hd) hcd ?_
      rintro ⟨ts, trailing⟩ ⟨ts', trailing'⟩ e e' he hce _ ⟨hrow, rfl, -⟩
      refine .ite Iff.rfl (fun _ => .error he.furthest) fun _ => ?_
      exact .node he hce hl.start hl.start_ge
        (hrow.widen (Nat.le_trans hbehind.start_le hd.last_le) (Nat.le_refl _)) trivial
    · exact word _ fun _ => trivial
    · refine .accept hl.toLexed hlinked hreach (Nat.le_refl _) ?_
      intro d d' hd hcd hbehind
      refine .bind (expressionOrList_agrees hr _ hd) hcd ?_
      intro t t' e e' he hce _ ht
      exact .node he hce hl.start hl.start_ge
        (ht.single (Nat.le_trans hbehind.start_le hd.last_le)) trivial
    · exact (raiseStatement_agrees hr hlinked hl.toLexed rfl).earlier hreach
    · exact .leaf hl.toLexed hlinked hreach rfl fun hkind => nomatch hkind
    · exact .leaf hl.toLexed hlinked hreach rfl fun hkind => nomatch hkind
    · exact .leaf hl.toLexed hlinked hreach rfl fun hkind => nomatch hkind
    · exact scope _ fun _ => trivial
    · exact scope _ fun _ => trivial
    · exact absurd rfl (hne _)
    · exact (expressionStatement_agrees hr hlinked).earlier hreach

theorem simpleLine_agrees (hr : g.Lockstep rules) (h : g.Linked c c') :
    Agree g c (fun ts ts' d => g.Row c.offset d.last ts ts') (simpleLine rules c)
      (simpleLine rules c') := by
  unfold simpleLine
  refine .bind (simpleStatement_agrees hr h) (.refl c) ?_
  intro t t' d d' hd hcd _ ht
  refine .bind (Q := g.Opened c.offset) ?_ hcd ?_
  · refine .loop hd (.refl d) ⟨ht.single (Nat.le_refl _), rfl⟩ ?_
    rintro ⟨us, ended⟩ ⟨us', ended'⟩ e e' he hde ⟨hrow, rfl⟩
    dsimp only at hrow ⊢
    refine .ite Iff.rfl (fun _ => .pure he hde (.inl ⟨rfl, rfl, hrow, rfl⟩)) fun _ => ?_
    refine .peek he hde ?_
    intro l l' hl hlinked hreach
    have hrow := hrow.reach hl.reaches
    rcases hl.token with ⟨old, new, hold, hnew⟩ | ⟨w, hne, hw, hw'⟩
    · rw [hold, hnew]
      exact .error hlinked.furthest
    · rw [hw, hw']
      split
      · refine .accept hl.toLexed hlinked hreach (Nat.le_refl _) ?_
        intro k k' hk hdk hbehind
        exact .pure hk hdk (.inr ⟨_, _, rfl, rfl, hrow.reach hbehind.reaches, rfl⟩)
      · refine .accept hl.toLexed hlinked hreach (Nat.le_refl _) ?_
        intro k k' hk hdk hbehind
        refine .peek hk hdk ?_
        intro m m' hm hmlinked hmreach
        have hrow := hrow.reach (hbehind.reaches.trans hm.reaches)
        refine .ite (by rw [hm.same Token.isNewline fun _ _ => rfl]) (fun _ => ?_) fun _ => ?_
        · exact .pure hmlinked hmreach (.inr ⟨_, _, rfl, rfl, hrow, rfl⟩)
        · refine .bind (simpleStatement_agrees hr hmlinked) hmreach ?_
          intro u u' n n' hn hdn _ hu
          exact .pure hn hdn (.inr ⟨_, _, rfl, rfl, hrow.grow hmlinked hu, rfl⟩)
      · exact .error hlinked.furthest
  · rintro ⟨us, ended⟩ ⟨us', ended'⟩ e e' he hce _ ⟨hrow, rfl⟩
    dsimp only at hrow ⊢
    exact .ite Iff.rfl (fun _ => .pure he hce hrow) fun _ => .error he.furthest

end Longhand.Draft
