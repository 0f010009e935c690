import Longhand.Proofs.Agree

/-!
# Agreement of the common readings

The rules of the grammar are taken to agree on the two texts of a draft; nodes, lists and names
read by means of them agree then.
-/

namespace Longhand.Draft

open Syntax Text

variable {g : Draft} {c₀ c c' : Cursor}

/-- Whether two trees are twins that were read behind a place. -/
structure Grown (g : Draft) (c : Cursor) (t t' : Tree) (d : Cursor) : Prop where
  twin : g.Twin t t'
  start_ge : c.offset ≤ t.span.start
  stop_le : t.span.stop ≤ d.last

/-- Whether two lists of trees are twins in order that were read behind a place, if any were. -/
def Listed (g : Draft) (c : Cursor) (ts ts' : List Tree) (d : Cursor) : Prop :=
  (ts = [] ∧ ts' = []) ∨ g.Row c.offset d.last ts ts'

theorem Listed.row {d : Cursor} {ts ts' : List Tree} (h : g.Listed c ts ts' d) (hc : Reaches c d)
    (hl : g.Linked c c') : g.Row c.last d.last ts ts' := by
  rcases h with ⟨rfl, rfl⟩ | hrow
  · exact .nil hc.last
  · exact hrow.widen hl.last_le (Nat.le_refl _)

theorem Listed.from {d e : Cursor} {ts ts' : List Tree} {low : Nat} (h : g.Listed c ts ts' d)
    (hde : Reaches d e) (hlow : low ≤ c.offset) (hle : low ≤ e.last) :
    g.Row low e.last ts ts' := by
  rcases h with ⟨rfl, rfl⟩ | hrow
  · exact .nil hle
  · exact hrow.widen hlow hde.last

/-- The rules that yield expressions and their parts and begin with a token. -/
def isExpressionRule : Rule → Bool
  | .braced | .casePattern _ | .simplePattern _ | .suite => false
  | _ => true

/-- Whether the rules for expressions agree on the two texts of a draft. -/
structure Lockstep (g : Draft) (rules : Rules) : Prop where
  rule : ∀ r, isExpressionRule r = true → ∀ c c', g.Linked c c' →
    Agree g c (g.Grown c) (rules r c) (rules r c')
  braced : ∀ c c', g.Linked c c' → c.rest.head? = some '\x7b' →
    Agree g c (g.Grown c) (rules .braced c) (rules .braced c')

/-! ## Nodes -/

theorem Twin.ofLexed {l l' : Lexeme} (hl : g.Lexed l l') {kind : Kind}
    (hkind : kind = .identifier → l.token.isName = true ∨ ∃ w, l.token = .word w) :
    g.Twin (Syntax.leaf kind l) (Syntax.leaf kind l') := by
  obtain ⟨done, mid, todo, hat, hat', htext, htext'⟩ := hl.text
  refine .leaf ⟨hl.start, hl.next.cut, hl.start_le⟩ ⟨done, mid, todo, hat.parts, hat.offset,
    hat'.offset, by rw [htext], by rw [htext']⟩ fun hidentifier => hl.start_lt (hkind hidentifier)

theorem Twin.ofRow {kind : Kind} {start start' stop stop' : Nat} {role : Option Role}
    {children children' : List Tree}
    (hstart : g.Cut start start') (hstop : g.Cut stop stop') (hshaped : g.Shaped kind children)
    (hrow : g.Row start stop children children') :
    g.Twin (.node kind role ⟨start, stop⟩ "" children)
      (.node kind role ⟨start', stop'⟩ "" children') :=
  .inner ⟨hstart, hstop, hrow.le⟩ hshaped hrow

/-- A node around a row that begins where the node does, wherever that is. -/
theorem Agree.nodeRow {kind : Kind} {start start' : Nat} {children children' : List Tree}
    (h : g.Linked c c') (hc : Reaches c₀ c) (hstart : g.Cut start start')
    (hrow : g.Row start c.last children children')
    (hshaped : g.Shaped kind children) :
    Agree g c₀ (fun t t' d => g.Row start d.last [t] [t']) (Syntax.node kind start children c)
      (Syntax.node kind start' children' c') :=
  .ok h hc (.single (.ofRow hstart h.last hshaped hrow) (Nat.le_refl _) (Nat.le_refl _))

/-- A node around a row that begins where the node does. -/
theorem Agree.node {kind : Kind} {start start' : Nat} {children children' : List Tree}
    (h : g.Linked c c') (hc : Reaches c₀ c) (hstart : g.Cut start start')
    (hlow : c₀.offset ≤ start) (hrow : g.Row start c.last children children')
    (hshaped : g.Shaped kind children) :
    Agree g c₀ (g.Grown c₀) (Syntax.node kind start children c)
      (Syntax.node kind start' children' c') :=
  .ok h hc ⟨.ofRow hstart h.last hshaped hrow, hlow, Nat.le_refl _⟩

/-- A tree that was read on top of a reversed row. -/
theorem Row.push {low mid high : Nat} {ts ts' : List Tree} {t t' : Tree}
    (h : g.Row low mid ts.reverse ts'.reverse) (htwin : g.Twin t t') (hlow : mid ≤ t.span.start)
    (hhigh : t.span.stop ≤ high) : g.Row low high (t :: ts).reverse (t' :: ts').reverse := by
  rw [List.reverse_cons, List.reverse_cons]
  exact h.append (.single htwin hlow hhigh)

theorem Grown.withRole {t t' : Tree} {d : Cursor} (h : g.Grown c t t' d) (r : Role) :
    g.Grown c (t.withRole r) (t'.withRole r) d where
  twin := h.twin.withRole r
  start_ge := by
    rw [withRole_span]
    exact h.start_ge
  stop_le := by
    rw [withRole_span]
    exact h.stop_le

/-- What was read behind a place was read behind an earlier one. -/
theorem Grown.before {t t' : Tree} {d : Cursor} (h : g.Grown c t t' d) (hc : Reaches c₀ c) :
    g.Grown c₀ t t' d :=
  ⟨h.twin, Nat.le_trans hc.offset h.start_ge, h.stop_le⟩

theorem Grown.single {t t' : Tree} {d : Cursor} (h : g.Grown c t t' d) {low : Nat}
    (hlow : low ≤ c.offset) : g.Row low d.last [t] [t'] :=
  .single h.twin (Nat.le_trans hlow h.start_ge) h.stop_le

/-- A node around the expression behind a token. -/
theorem Agree.marked {rules : Rules} (hr : g.Lockstep rules) {r : Rule}
    (hrule : isExpressionRule r = true) {kind : Kind} (hshaped : ∀ ts, g.Shaped kind ts)
    {l l' : Lexeme} (hl : g.Peeked c l l') (h : g.Linked l.here l'.here) (hc : Reaches c l.here) :
    Agree g c (g.Grown c)
      ((do Syntax.accept l; Syntax.node kind l.start [← rules r] : Parser Tree) l.here)
      ((do Syntax.accept l'; Syntax.node kind l'.start [← rules r] : Parser Tree) l'.here) := by
  refine .accept hl.toLexed h hc (Nat.le_refl _) ?_
  intro d d' hd hcd hbehind
  refine .bind (hr.rule _ hrule _ _ hd) hcd ?_
  intro t t' e e' he hce _ ht
  exact .node he hce h.cut hl.start_ge (ht.single hbehind.reaches.offset) (hshaped _)

theorem Row.grown {t t' : Tree} {d : Cursor} {low : Nat} (h : g.Row low d.last [t] [t'])
    (hlow : c.offset ≤ low) : g.Grown c t t' d := by
  cases h with
  | cons hle htwin hrest => exact ⟨htwin, Nat.le_trans hlow hle, hrest.le⟩

section Rows

variable {low : Nat} {ts ts' : List Tree} {t t' : Tree} {d : Cursor}

/-- A row reaches up to every later place. -/
theorem Row.reach (hrow : g.Row low c.last ts ts') (hc : Reaches c d) :
    g.Row low d.last ts ts' :=
  hrow.widen (Nat.le_refl _) hc.last

/-- A tree that was read behind a row goes at the end of it. -/
theorem Row.snoc (hrow : g.Row low c.last ts ts') (h : g.Linked c c') (ht : g.Grown c t t' d) :
    g.Row low d.last (ts ++ [t]) (ts' ++ [t']) :=
  hrow.append (.single ht.twin (Nat.le_trans h.last_le ht.start_ge) ht.stop_le)

/-- A tree that was read behind a reversed row goes on top of it. -/
theorem Row.grow {low : Nat} {ts ts' : List Tree} {t t' : Tree} {d : Cursor}
    (hrow : g.Row low c.last ts.reverse ts'.reverse) (h : g.Linked c c')
    (ht : g.Grown c t t' d) : g.Row low d.last (t :: ts).reverse (t' :: ts').reverse :=
  Row.push hrow ht.twin (Nat.le_trans h.last_le ht.start_ge) ht.stop_le

/-- The leaf of a token is a row up to what is behind the token. -/
theorem Row.leaf (kind : Kind) {l l' : Lexeme} (hl : g.Lexed l l') (hd : Behind c l d)
    (hkind : kind = .identifier → l.token.isName = true ∨ ∃ w, l.token = .word w) :
    g.Row l.start d.last [Syntax.leaf kind l] [Syntax.leaf kind l'] := by
  refine .single (.ofLexed hl hkind) (Nat.le_refl _) ?_
  rw [hd.last, hl.ends]
  exact Nat.le_refl _

end Rows

/-- A token that is read as a leaf. -/
theorem Agree.leaf {l l' : Lexeme} (hl : g.Lexed l l') (h : g.Linked c c') (hc : Reaches c₀ c)
    (hstart : c.offset = l.start) {kind : Kind}
    (hkind : kind = .identifier → l.token.isName = true ∨ ∃ w, l.token = .word w) :
    Agree g c₀ (g.Grown c₀)
      ((do Syntax.accept l; Pure.pure (Syntax.leaf kind l) : Parser Tree) c)
      ((do Syntax.accept l'; Pure.pure (Syntax.leaf kind l') : Parser Tree) c') := by
  refine .accept hl h hc (Nat.le_of_eq hstart) ?_
  intro d d' hd hcd hbehind
  refine .pure hd hcd ⟨.ofLexed hl hkind, ?_, ?_⟩
  · exact Nat.le_trans hc.offset (Nat.le_of_eq hstart)
  · rw [hbehind.last, hl.ends]
    exact Nat.le_refl _

/-- What agrees from a place on agrees from an earlier one. -/
theorem Agree.earlier {r r' : Except Nat (Tree × Cursor)} (h : Agree g c (g.Grown c) r r')
    (hc : Reaches c₀ c) : Agree g c₀ (g.Grown c₀) r r' :=
  h.imp hc fun _ _ _ _ ht => ht.before hc

/-! ## Lists -/

/-- What a list read so far and the flag beside it amount to. -/
def Stacked (g : Draft) (low : Nat) (s s' : List Tree × Bool) (d : Cursor) : Prop :=
  g.Row low d.last s.1.reverse s'.1.reverse ∧ s.2 = s'.2 ∧ s.1 ≠ []

theorem separated_agrees {item item' : Parser Tree} {comma next : Expect} {more : Token → Bool}
    (hmore : ∀ a b, more (.name a) = more (.name b)) (h : g.Linked c c')
    (hitem : ∀ e e', g.Linked e e' → Reaches c e → (g.AtOpening c → g.AtOpening e) →
      Agree g e (g.Grown e) (item e) (item' e')) :
    Agree g c (fun r r' d => g.Row c.offset d.last r.1 r'.1 ∧ r.2 = r'.2 ∧ r.1 ≠ [])
      (separated item comma next more c) (separated item' comma next more c') := by
  unfold separated
  refine .bind (hitem c c' h (.refl c) id) (.refl c) ?_
  rintro first first' d d' hd hcd - ⟨htwin, hstart, hstop⟩
  refine .bind (Q := g.Stacked c.offset) ?_ hcd ?_
  · refine .loop hd (.refl d) ⟨.single htwin hstart hstop, rfl, by simp⟩ ?_
    rintro ⟨items, trailing⟩ ⟨items', trailing'⟩ e e' he hde ⟨hrow, rfl, hne⟩
    dsimp only [furtherItem?] at hrow hne ⊢
    split
    · exact .pure he hde (.inl ⟨rfl, rfl, hrow, rfl, hne⟩)
    · refine .optional (fun _ _ => rfl) he hde ?_ ?_
      · rintro l l' hl - hlinked hreach
        refine .pure hlinked hreach (.inl ⟨rfl, rfl, ?_, rfl, hne⟩)
        rw [hl.last_eq]
        exact hrow
      · -- A name may be marked behind the comma, in front of the next item.
        intro l l' f f' hl hcomma hf hdf hstands
        have hopening : g.AtOpening f := by
          rw [hstands.atOpening]
          refine hl.opening (.inr ?_)
          cases htoken : l.token <;> rw [htoken] at hcomma <;> first | rfl | cases hcomma
        have hlast : e.last ≤ f.last := by
          have := he.last_le
          have := hl.start_ge
          have := hl.start_le
          have := hl.ends
          have := hstands.last
          omega
        refine .peek hf hdf ?_
        intro m m' hm hlinked hreach
        rw [← hm.same more hmore]
        split
        · refine .bind (hitem _ _ hlinked (hcd.trans hreach) fun _ => hm.opens_of hopening)
            hreach ?_
          rintro t t' k k' hk hdk - ⟨ht, hlow, hhigh⟩
          refine .pure hk hdk (.inr ⟨_, _, rfl, rfl, ?_, rfl, by simp⟩)
          refine Row.push hrow ht ?_ hhigh
          have := hf.last_le
          have := hm.start_ge
          show e.last ≤ _
          have : m.start ≤ t.span.start := hlow
          omega
        · refine .pure hlinked hreach (.inr ⟨_, _, rfl, rfl, ?_, rfl, hne⟩)
          refine hrow.widen (Nat.le_refl _) ?_
          rw [hm.last_eq]
          exact hlast
  · rintro ⟨items, trailing⟩ ⟨items', trailing'⟩ e e' he hce - ⟨hrow, hflag, hne⟩
    exact .pure he hce ⟨hrow, hflag, by simpa using hne⟩

theorem furtherItems_agrees {item item' : Parser Tree} {f : Follow} {more : Token → Bool}
    (hmore : ∀ a b, more (.name a) = more (.name b)) (h : g.Linked c c')
    (hitem : ∀ e e', g.Linked e e' → Reaches c e → g.AtOpening e →
      Agree g e (g.Grown e) (item e) (item' e')) :
    Agree g c (fun r r' d => g.Listed c r.1 r'.1 d ∧ r.2 = r'.2)
      (furtherItems item f more c) (furtherItems item' f more c') := by
  unfold furtherItems
  refine .optional (fun _ _ => rfl) h (.refl c) ?_ ?_
  · rintro l l' - - hlinked hreach
    exact .pure hlinked hreach ⟨.inl ⟨rfl, rfl⟩, rfl⟩
  · intro l l' d d' hl hcomma hd hcd hstands
    have hopening : g.AtOpening d := by
      rw [hstands.atOpening]
      refine hl.opening (.inr ?_)
      cases htoken : l.token <;> rw [htoken] at hcomma <;> first | rfl | cases hcomma
    refine .peek hd hcd ?_
    intro m m' hm hlinked hreach
    rw [← hm.same more hmore]
    split
    · refine .bind (separated_agrees hmore hlinked ?_) hreach ?_
      · intro e e' he hme hopen
        exact hitem e e' he (hreach.trans hme) (hopen (hm.opens_of hopening))
      · rintro ⟨ts, b⟩ ⟨ts', b'⟩ e e' he hce - ⟨hrow, -, -⟩
        exact .pure he hce ⟨.inr (hrow.widen hreach.offset (Nat.le_refl _)), rfl⟩
    · exact .pure hlinked hreach ⟨.inl ⟨rfl, rfl⟩, rfl⟩

theorem expressions_agrees {rules : Rules} (hr : g.Lockstep rules) (f : Follow)
    (h : g.Linked c c') :
    Agree g c (fun r r' d => g.Row c.offset d.last r.1 r'.1 ∧ r.2 = r'.2 ∧ r.1 ≠ [])
      (expressions rules f c) (expressions rules f c') :=
  separated_agrees (fun _ _ => rfl) h fun e e' he _ _ => hr.rule _ rfl e e' he

/-! ## Names -/

/-- Whether two trees are names that were read behind a place. -/
def Named (g : Draft) (c : Cursor) (t t' : Tree) (d : Cursor) : Prop :=
  g.Grown c t t' d ∧ ∃ l, t = leaf .identifier l

theorem name_agrees (e : Expect) (h : g.Linked c c') :
    Agree g c (g.Named c) (name e c) (name e c') := by
  unfold name
  refine .expect (fun _ _ => rfl) h (.refl c) ?_
  intro l l' d d' hl hname hd hcd hstands
  refine .pure hd hcd ⟨⟨.ofLexed hl.toLexed fun _ => .inl hname, hl.start_ge, ?_⟩, l, rfl⟩
  rw [hstands.last, hl.ends]
  exact Nat.le_refl _

/-- The text up to an offset is that of the stretch up to there. -/
theorem textUpTo_of_cut {done todo : List Part} (hat : g.At done todo c c') {o o' : Nat}
    (ho : g.Cut o o') (hle : c.offset ≤ o) :
    ∃ mid rest, g.parts = done ++ (mid ++ rest) ∧ o = byteSize (before (done ++ mid)) ∧
      c.textUpTo o = before mid ∧ c'.textUpTo o' = after mid := by
  obtain ⟨done', rest, hparts, rfl, rfl⟩ := ho
  rcases exists_between hat.parts hparts with ⟨mid, rfl, rfl⟩ | ⟨mid, hne, rfl, rfl⟩
  · refine ⟨mid, rest, hat.parts, rfl, ?_, ?_⟩
    · have hcut : splitAt? c.rest (byteSize (before (done ++ mid)) - c.offset) =
          some (before mid, before rest) := by
        rw [splitAt?_eq_some_iff, hat.rest, hat.offset, before_append, before_append,
          byteSize_append]
        exact ⟨rfl, by omega⟩
      rw [Cursor.textUpTo, hcut]
    · have hcut : splitAt? c'.rest (byteSize (after (done ++ mid)) - c'.offset) =
          some (after mid, after rest) := by
        rw [splitAt?_eq_some_iff, hat.rest', hat.offset', after_append, after_append,
          byteSize_append]
        exact ⟨rfl, by omega⟩
      rw [Cursor.textUpTo, hcut]
  · have := (g.sizes_pos_of_mid hparts hne).1
    rw [hat.offset, before_append, byteSize_append] at hle
    omega

/-- What the names of a dotted name read so far amount to. -/
def Joined (g : Draft) (start : Nat) (ids ids' : List Tree) (d : Cursor) : Prop :=
  ∃ z rest z' rest', ids = z :: rest ∧ ids' = z' :: rest' ∧ g.Twin z z' ∧
    g.Row start z.span.stop ids.reverse ids'.reverse ∧ z.span.stop ≤ d.last ∧
    ∀ id ∈ ids, id.kind = .identifier ∧ id.role = none ∧ id.children = []

theorem dottedName_agrees (e : Expect) (h : g.Linked c c') :
    Agree g c (fun t t' d => g.Grown c t t' d ∧ t.kind = .dottedName)
      (dottedName e c) (dottedName e c') := by
  unfold dottedName
  refine .expect (fun _ _ => rfl) h (.refl c) ?_
  intro l l' d d' hl hname hd hcd hstands
  have hfirst : g.Twin (leaf .identifier l) (leaf .identifier l') :=
    .ofLexed hl.toLexed fun _ => .inl hname
  -- The loop keeps the names so far in reverse, the last one in front.
  refine .bind (Q := g.Joined l.start) ?_ hcd ?_
  · refine .loop hd (.refl d) ⟨_, [], _, [], rfl, rfl, hfirst, ?_, ?_, ?_⟩ ?_
    · exact .single hfirst (Nat.le_refl _) (Nat.le_refl _)
    · rw [hstands.last, hl.ends]
      exact Nat.le_refl _
    · simp [leaf, Tree.kind, Tree.role, Tree.children]
    · rintro ids ids' k k' hk hdk ⟨z, rest, z', rest', rfl, rfl, hz, hrow, hstop, hall⟩
      refine .optional (fun _ _ => rfl) hk hdk ?_ ?_
      · rintro m m' hm - hlinked hreach
        refine .pure hlinked hreach (.inl ⟨rfl, rfl, ?_⟩)
        refine ⟨z, rest, z', rest', rfl, rfl, hz, hrow, ?_, hall⟩
        rw [hm.last_eq]
        exact hstop
      · rintro m m' n n' hm - hn hdn hstands'
        refine .bind (name_agrees {} hn) hdn ?_
        rintro t t' p p' hp hdp hnp ⟨⟨ht, hlow, hhigh⟩, x, rfl⟩
        refine .pure hp hdp (.inr ⟨_, _, rfl, rfl, ?_⟩)
        refine ⟨_, _, _, _, rfl, rfl, ht, ?_, hhigh, ?_⟩
        · refine Row.push hrow ht ?_ (Nat.le_refl _)
          have := hk.last_le
          have := hm.start_ge
          have := hm.start_le
          have := hstands'.offset
          omega
        · intro id hid
          rcases List.mem_cons.1 hid with rfl | hid
          · exact ⟨rfl, rfl, rfl⟩
          · exact hall id hid
  · rintro ids ids' k k' hk hck - ⟨z, rest, z', rest', rfl, rfl, hz, hrow, hstop, hall⟩
    obtain ⟨done, mid, todo, hat, -⟩ := hl.text
    obtain ⟨mid', todo', hparts, ho, htext, htext'⟩ :=
      textUpTo_of_cut hat hz.spans.stop hrow.le
    refine .pure hk hck ⟨⟨.dotted ⟨hl.start, hz.spans.stop, hrow.le⟩ ?_ ?_ hrow,
      hl.start_ge, hstop⟩, rfl⟩
    · exact ⟨done, mid', todo', hparts, hat.offset, ho, by rw [htext], by rw [htext']⟩
    · intro id hid
      exact hall id (List.mem_reverse.1 hid)

end Longhand.Draft
