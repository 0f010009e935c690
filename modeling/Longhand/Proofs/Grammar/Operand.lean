import Longhand.Proofs.Grammar.Display

/-!
# Operands of a draft

Calls, subscripts, attributes and what they are applied to are read alike in the two texts of a
draft.  The name of a keyword argument stands where a name may be marked.
-/

namespace Longhand.Draft

open Syntax Text

variable {g : Draft} {rules : Rules} {c c' : Cursor} {l l' : Lexeme}

/-! ## Arguments -/

theorem isNameLike_cases {t : Token} (h : t.isNameLike = true) :
    t.isName = true ∨ ∃ w, t = .word w := by
  cases t with
  | name n => exact .inl rfl
  | word w => exact .inr ⟨w, rfl⟩
  | _ => cases h

/-- A name before an equals sign in a call is the name of a keyword argument. -/
theorem keywordName_of_peeked {d d' : Cursor} (hl : g.Peeked c l l') (hopen : g.AtOpening c)
    (hname : l.token.isNameLike = true) (hd : g.Linked d d') (hbehind : Behind l.here l d)
    (hequals : Barred d) : g.KeywordName ((leaf .identifier l).withRole .name) := by
  obtain ⟨done, mid, todo, hat, hat', htext, -⟩ := hl.text
  have hplain : isPlainName (before mid) = true ∨ (words.lookup (before mid)).isSome = true := by
    rw [← htext]
    cases htoken : l.token with
    | name n =>
        obtain ⟨hn, hplain⟩ := hl.name n htoken
        left
        rwa [hn]
    | word w =>
        right
        rw [hl.word w htoken]
        rfl
    | _ =>
        rw [htoken] at hname
        cases hname
  refine ⟨⟨l.start, l.next.offset⟩, done, mid, todo, ?_, hat.parts, hat.offset, hat'.offset, ?_,
    hplain, ?_⟩
  · rw [← htext]
    rfl
  · rcases hat.atOpening_iff.1 (hl.opens_of hopen) with h | h
    · exact h
    · obtain ⟨x, xs, hx, hstart⟩ : ∃ x xs, before mid = x :: xs ∧ isIdentifierStart x = true := by
        rcases hplain with hplain | hword
        · obtain ⟨x, xs, hx, hstart, -⟩ := exists_of_isPlainName hplain
          exact ⟨x, xs, hx, hstart⟩
        · obtain ⟨w, hw⟩ := Option.isSome_iff_exists.1 hword
          exact isIdentifierStart_of_word hw
      rw [h x (xs ++ before todo) (by rw [before_append, hx]; rfl)] at hstart
      cases hstart
  · have hplace := hd.at_of hat' hbehind.offset
    rw [Barred, hplace.rest, hd.size] at hequals
    exact hequals

theorem argument_agrees (hr : g.Lockstep rules) (h : g.Linked c c') (hopen : g.AtOpening c) :
    Agree g c (g.Grown c) (argument rules c) (argument rules c') := by
  unfold argument
  refine .peek h (.refl c) ?_
  intro l l' hl hlinked hreach
  -- A name before an equals sign is the name of a keyword argument; otherwise it is read anew as
  -- the beginning of an expression.
  have named : l.token.isNameLike = true →
      Agree g c (g.Grown c) (nameArgument rules l l.here) (nameArgument rules l' l'.here) := by
    intro hname
    unfold nameArgument
    refine .accept hl.toLexed hlinked hreach (Nat.le_refl _) ?_
    intro d d' hd hcd hbehind
    refine .optional (fun _ _ => rfl) hd hcd ?_ ?_
    · intro m m' _ _ hmlinked hmreach
      refine .returnTo hmlinked hlinked hreach ?_
      intro e e' he hce _
      exact (hr.rule _ rfl _ _ he).earlier hce
    · intro m m' e e' hm hequals he hce hbehind'
      refine .bind (hr.rule _ rfl _ _ he) hce ?_
      intro t t' k k' hk hck _ ht
      have hbarred : Barred d := by
        refine hm.barred_equals ?_
        cases htoken : m.token <;> rw [htoken] at hequals <;> first | rfl | cases hequals
      have hkeyword := keywordName_of_peeked hl hopen hname hd hbehind hbarred
      have hleaf := (Row.leaf .identifier hl.toLexed hbehind fun _ =>
        isNameLike_cases hname).map_withRole .name
      exact .node hk hck hlinked.cut hl.start_ge
        ((hleaf.reach hbehind'.reaches).snoc he (ht.withRole .value))
        ⟨_, _, rfl, hkeyword, withRole_role _ _⟩
  rcases hl.token with ⟨old, new, hold, hnew⟩ | ⟨w, hne, hw, hw'⟩
  · rw [hold, hnew]
    exact named (by rw [hold]; rfl)
  · rw [hw, hw']
    split
    · exact .marked hr rfl (fun _ => by trivial) hl hlinked hreach
    · exact .marked hr rfl (fun _ => by trivial) hl hlinked hreach
    · refine .ite Iff.rfl (fun hname => ?_) fun _ => (hr.rule _ rfl _ _ hlinked).earlier hreach
      exact named (by rw [hw]; exact hname)

theorem generatorBody_agrees (hr : g.Lockstep rules) {b b' : Cursor} (hb : g.Linked b b')
    (h : g.Linked c c') (hbc : Reaches b c) {t t' : Tree} (ht : g.Grown b t t' c) :
    Agree g b (g.Grown b) (generatorBody rules b t c) (generatorBody rules b' t' c') := by
  unfold generatorBody
  rw [← ht.twin.kind]
  generalize t.kind = kind
  split
  · exact .error h.furthest
  · exact .error h.furthest
  · have := hr.rule (.expression Follow.inside) rfl _ _ (hb.withFurthest h.furthest)
    exact this.earlier ⟨Nat.le_refl _, Nat.le_refl _⟩
  · exact .pure h hbc ht

theorem arguments_agrees (hr : g.Lockstep rules) (h : g.Linked c c') (hl : g.Lexed l l')
    (hstart : c.offset = l.start) (hopen : l.token = .openParen) :
    Agree g c (g.Grown c) (arguments rules l c) (arguments rules l' c') := by
  have hle : c.offset ≤ l.start := Nat.le_of_eq hstart
  unfold arguments
  refine .accept hl h (.refl c) hle ?_
  intro d d' hd hcd hbehind
  have hopening : g.AtOpening d := hbehind.atOpening.2 (hl.opening (.inl hopen))
  refine .peek hd hcd ?_
  intro m m' hm hlinked hreach
  have hinner : l.start ≤ m.here.offset :=
    Nat.le_trans hbehind.start_le (Nat.le_trans hd.last_le hm.start_ge)
  refine .ite (by rw [hm.same Token.startsArgument fun _ _ => rfl]) (fun _ => ?_) fun _ => ?_
  · refine .get ?_
    refine .bind (argument_agrees hr hlinked (hm.opens_of hopening)) hreach ?_
    intro t t' e e' he hce hme ht
    refine .peek he hce ?_
    intro n n' hn hnlinked hnreach
    have ht : g.Grown m.here t t' n.here :=
      ((ht.single (Nat.le_refl _)).reach hn.reaches).grown (Nat.le_refl _)
    refine .ite (by rw [hn.same Token.startsClause fun _ _ => rfl]) (fun _ => ?_) fun _ => ?_
    · refine .bind (generatorBody_agrees hr hlinked hnlinked (hme.trans hn.reaches) ht) hreach ?_
      intro u u' k k' hk hck _ hu
      refine .bind (clauses_agrees hr hk) hck ?_
      intro ts ts' p p' hp hcp _ hrow
      refine .expect (fun _ _ => rfl) hp hcp ?_
      intro q q' x x' _ _ hx hcx hclose
      exact .node hx hcx hl.start hle (((hu.single hinner).append
        (hrow.widen hk.last_le (Nat.le_refl _))).reach hclose.reaches) trivial
    · refine .bind (furtherItems_agrees (fun _ _ => rfl) hnlinked fun k k' hk _ hopen =>
        argument_agrees hr hk hopen) hnreach ?_
      rintro ⟨ts, trailing⟩ ⟨ts', trailing'⟩ p p' hp hcp hnp ⟨hrow, -⟩
      refine .expect (fun _ _ => rfl) hp hcp ?_
      intro q q' x x' _ _ hx hcx hclose
      exact .node hx hcx hl.start hle
        (((ht.single hinner).append (hrow.row hnp hnlinked)).reach hclose.reaches) trivial
  · refine .bind (.passed (fun _ _ => rfl) hlinked) hreach ?_
    intro _ _ e e' he hce hme _
    refine .expect (fun _ _ => rfl) he hce ?_
    intro q q' x x' _ _ hx hcx hclose
    refine .node hx hcx hl.start hle (.nil ?_) trivial
    exact Nat.le_trans hbehind.start_le ((hm.reaches.trans hme).trans hclose.reaches).last

/-! ## Subscripts -/

theorem slicePart_agrees (hr : g.Lockstep rules) (h : g.Linked c c') :
    Agree g c (g.Listed c) (slicePart? rules c) (slicePart? rules c') := by
  unfold slicePart?
  refine .peek h (.refl c) ?_
  intro l l' hl hlinked hreach
  refine .ite (by rw [hl.same Token.startsExpression fun _ _ => rfl]) (fun _ => ?_) fun _ => ?_
  · refine .bind (hr.rule _ rfl _ _ hlinked) hreach ?_
    intro t t' d d' hd hcd _ ht
    exact .pure hd hcd (.inr (ht.single hreach.offset))
  · exact .pure hlinked hreach (.inl ⟨rfl, rfl⟩)

theorem sliceStep_agrees (hr : g.Lockstep rules) (h : g.Linked c c') :
    Agree g c (g.Listed c) (sliceStep? rules c) (sliceStep? rules c') := by
  unfold sliceStep?
  refine .optional (fun _ _ => rfl) h (.refl c) ?_ ?_
  · intro m m' _ _ hlinked hreach
    exact .pure hlinked hreach (.inl ⟨rfl, rfl⟩)
  · intro m m' d d' _ _ hd hcd _
    exact (slicePart_agrees hr hd).imp hcd fun ts ts' e _ hlisted =>
      hlisted.imp_right fun hrow => hrow.widen hcd.offset (Nat.le_refl _)

theorem subscriptItem_agrees (hr : g.Lockstep rules) (h : g.Linked c c') :
    Agree g c (g.Grown c) (subscriptItem rules c) (subscriptItem rules c') := by
  unfold subscriptItem
  refine .peek h (.refl c) ?_
  intro l l' hl hlinked hreach
  refine .bind (slicePart_agrees hr hlinked) hreach ?_
  intro ts ts' d d' hd hcd hld hts
  refine .optional (fun _ _ => rfl) hd hcd ?_ ?_
  · intro m m' hm _ hmlinked hmreach
    dsimp only
    rcases hts with ⟨rfl, rfl⟩ | hrow
    · exact .error hmlinked.furthest
    rcases hrow.singles with ⟨t, t', rfl, rfl, -, -, -⟩ | hmany
    · exact .pure hmlinked hmreach ((hrow.reach hm.reaches).grown hreach.offset)
    · split
      · exact absurd rfl (hmany _).1
      split
      · exact absurd rfl (hmany _).2
      · exact .error hmlinked.furthest
  · intro m m' e e' hm _ he hce hcolon
    refine .bind (slicePart_agrees hr he) hce ?_
    intro us us' k k' hk hck hek hus
    refine .bind (sliceStep_agrees hr hk) hck ?_
    intro vs vs' n n' hn hcn hkn hvs
    refine .node hn hcn hlinked.cut hl.start_ge ?_ trivial
    have hle : l.start ≤ e.last :=
      Nat.le_trans hld.offset (Nat.le_trans hm.start_ge hcolon.start_le)
    have hfirst := hts.from hcolon.reaches (Nat.le_refl l.start) hle
    exact (hfirst.append (hus.row hek he)).append (hvs.row hkn hk)

theorem subscripts_agrees (hr : g.Lockstep rules) (h : g.Linked c c') (hl : g.Lexed l l')
    (hstart : c.offset = l.start) :
    Agree g c (fun ts ts' d => g.Row c.offset d.last ts ts') (subscripts rules l c)
      (subscripts rules l' c') := by
  unfold subscripts
  refine .accept hl h (.refl c) (Nat.le_of_eq hstart) ?_
  intro d d' hd hcd hbehind
  refine .peek hd hcd ?_
  intro m m' hm hlinked hreach
  refine .ite (by rw [hm.same (fun t => t.startsExpression || t.isColon) fun _ _ => rfl])
    (fun _ => ?_) fun _ => .error hlinked.furthest
  refine .bind (separated_agrees (fun _ _ => rfl) hlinked fun e e' he _ _ =>
    subscriptItem_agrees hr he) hreach ?_
  rintro ⟨ts, trailing⟩ ⟨ts', trailing'⟩ e e' he hce _ ⟨hrow, -, -⟩
  refine .expect (fun _ _ => rfl) he hce ?_
  intro n n' k k' _ _ hk hck hclose
  exact .pure hk hck ((hrow.widen hreach.offset (Nat.le_refl _)).reach hclose.reaches)

/-! ## Operands -/

theorem atom_agrees (hr : g.Lockstep rules) (f : Follow) (h : g.Linked c c') (hl : g.Lexed l l')
    (hstart : c.offset = l.start) :
    Agree g c (g.Grown c) (atom rules f l c) (atom rules f l' c') := by
  unfold atom
  rcases hl.token with ⟨old, new, hold, hnew⟩ | ⟨w, hne, hw, hw'⟩
  · rw [hold, hnew]
    exact .leaf hl h (.refl c) hstart fun _ => .inl (by rw [hold]; rfl)
  · rw [hw, hw']
    split
    · exact absurd rfl (hne _)
    · exact .leaf hl h (.refl c) hstart fun _ => .inr ⟨_, hw⟩
    · exact .leaf hl h (.refl c) hstart fun _ => .inr ⟨_, hw⟩
    · exact .leaf hl h (.refl c) hstart fun hkind => nomatch hkind
    · exact .leaf hl h (.refl c) hstart fun hkind => nomatch hkind
    · exact .leaf hl h (.refl c) hstart fun hkind => nomatch hkind
    · exact .leaf hl h (.refl c) hstart fun hkind => nomatch hkind
    · exact .leaf hl h (.refl c) hstart fun hkind => nomatch hkind
    · exact .leaf hl h (.refl c) hstart fun hkind => nomatch hkind
    · exact strings_agrees hr f h hl hstart (hl.quote _ hw)
    · exact bracketed_agrees hr h hl hstart
    · exact listDisplay_agrees hr h hl hstart
    · exact braceDisplay_agrees hr h hl hstart
    · exact .error h.furthest

/-- Whether two results are none, or twins of which a row is made that begins at an offset. -/
def Extended (g : Draft) (start : Nat) (o o' : Option Tree) (d : Cursor) : Prop :=
  (o = none ∧ o' = none) ∨ ∃ u u', o = some u ∧ o' = some u' ∧ g.Row start d.last [u] [u']

theorem trailer_agrees (hr : g.Lockstep rules) (f : Follow) {start start' : Nat}
    (h : g.Linked c c') (hstart : g.Cut start start') {t t' : Tree}
    (ht : g.Row start c.last [t] [t']) :
    Agree g c (g.Extended start) (trailer? rules f start t c) (trailer? rules f start' t' c') := by
  unfold trailer?
  refine .peek h (.refl c) ?_
  intro l l' hl hlinked hreach
  have ht : ∀ r : Role, g.Row start l.here.last [t.withRole r] [t'.withRole r] := fun r =>
    (ht.reach hl.reaches).map_withRole r
  rcases hl.token with ⟨old, new, hold, hnew⟩ | ⟨w, hne, hw, hw'⟩
  · rw [hold, hnew]
    exact .pure hlinked hreach (.inl ⟨rfl, rfl⟩)
  · rw [hw, hw']
    split
    · refine .accept hl.toLexed hlinked hreach (Nat.le_refl _) ?_
      intro d d' hd hcd hbehind
      refine .bind (name_agrees {} hd) hcd ?_
      rintro u u' e e' he hce hde ⟨hu, m, rfl⟩
      refine .bind (.nodeRow he hce hstart
        (((ht .object).reach hbehind.reaches).snoc hd (hu.withRole .attribute))
        ⟨_, _, rfl, withRole_role _ _, withRole_role _ _, rfl⟩) (.refl c) ?_
      intro v v' k k' hk hck _ hv
      exact .pure hk hck (.inr ⟨_, _, rfl, rfl, hv⟩)
    · refine .bind (subscripts_agrees hr hlinked hl.toLexed rfl) hreach ?_
      intro us us' d d' hd hcd _ hus
      refine .bind (.nodeRow hd hcd hstart
        ((ht .value).append (hus.widen hlinked.last_le (Nat.le_refl _))) trivial) (.refl c) ?_
      intro v v' k k' hk hck _ hv
      exact .pure hk hck (.inr ⟨_, _, rfl, rfl, hv⟩)
    · refine .bind (arguments_agrees hr hlinked hl.toLexed rfl hw) hreach ?_
      intro u u' d d' hd hcd _ hu
      refine .bind (.nodeRow hd hcd hstart ((ht .callee).snoc hlinked (hu.withRole .arguments))
        ⟨_, _, rfl, withRole_role _ _, withRole_role _ _⟩) (.refl c) ?_
      intro v v' k k' hk hck _ hv
      exact .pure hk hck (.inr ⟨_, _, rfl, rfl, hv⟩)
    · exact .pure hlinked hreach (.inl ⟨rfl, rfl⟩)

theorem trailed_agrees (hr : g.Lockstep rules) (f : Follow) {start start' : Nat}
    (h : g.Linked c c') (hstart : g.Cut start start') {t t' : Tree}
    (ht : g.Row start c.last [t] [t']) :
    Agree g c (fun u u' d => g.Row start d.last [u] [u']) (trailed rules f start t c)
      (trailed rules f start' t' c') := by
  unfold trailed
  refine .loop h (.refl c) ht ?_
  intro u u' d d' hd hcd hu
  refine (trailer_agrees hr f hd hstart hu).imp hcd ?_
  rintro o o' e hde (⟨rfl, rfl⟩ | ⟨v, v', rfl, rfl, hv⟩)
  · exact .inl ⟨rfl, rfl, hu.reach hde⟩
  · exact .inr ⟨v, v', rfl, rfl, hv⟩

/-- Whether two trees that were read so far, with the places behind them, belong together. -/
def Held (g : Draft) (c : Cursor) (start : Nat) (o o' : Option (Tree × Cursor)) : Prop :=
  (o = none ∧ o' = none) ∨ ∃ t t' k k', o = some (t, k) ∧ o' = some (t', k') ∧ g.Linked k k' ∧
    Reaches c k ∧ g.Row start k.last [t] [t']

theorem splatTo_agrees {c₀ : Cursor} {start start' : Nat} (h : g.Linked c c') (hc : Reaches c₀ c)
    (hstart : g.Cut start start') {t t' : Tree} (ht : g.Row start c.last [t] [t']) :
    Agree g c (fun o o' _ => g.Held c₀ start o o') (splatTo start t c) (splatTo start' t' c') := by
  unfold splatTo
  refine .bind (.nodeRow h (.refl c) hstart ht trivial) (.refl c) ?_
  intro u u' d d' hd hcd _ hu
  refine .get ?_
  exact .pure hd hcd (.inr ⟨_, _, _, _, rfl, rfl, hd, hc.trans hcd, hu⟩)

theorem splatName_agrees {c₀ : Cursor} {start start' : Nat} (h : g.Linked c c')
    (hc : Reaches c₀ c) (hstart : g.Cut start start') {t t' : Tree}
    (ht : g.Row start c.last [t] [t']) (hkind : t.kind = t'.kind) :
    Agree g c (fun o o' _ => g.Held c₀ start o o') (splatName start t c)
      (splatName start' t' c') := by
  unfold splatName
  refine .ite (by rw [hkind]) (fun _ => ?_) fun _ => .pure h (.refl c) (.inl ⟨rfl, rfl⟩)
  exact splatTo_agrees h hc hstart ht

theorem starred_agrees (hr : g.Lockstep rules) (f : Follow) (h : g.Linked c c')
    (hl : g.Lexed l l') (hstart : c.offset = l.start) :
    Agree g c (g.Grown c) (starred rules f l c) (starred rules f l' c') := by
  unfold starred
  refine .accept hl h (.refl c) (Nat.le_of_eq hstart) ?_
  intro d d' hd hcd hbehind
  refine .peek hd hcd ?_
  intro m m' hm hlinked hreach
  have hinner : l.start ≤ m.start :=
    Nat.le_trans hbehind.start_le (Nat.le_trans hd.last_le hm.start_ge)
  refine .bind (atom_agrees hr f hlinked hm.toLexed rfl) hreach ?_
  intro t t' e e' he hce _ ht
  have hbase : g.Row m.start e.last [t] [t'] := ht.single (Nat.le_refl _)
  refine .bind (splatName_agrees he hce hl.start (hbase.widen hinner (Nat.le_refl _))
    ht.twin.kind) hce ?_
  intro o o' k k' hk hck hek ho
  refine .bind (Q := fun (s s' : Tree × Option (Tree × Cursor)) x =>
    g.Row m.start x.last [s.1] [s'.1] ∧ g.Held c l.start s.2 s'.2) ?_ hck ?_
  · refine .loop hk (.refl k) ⟨hbase.reach hek, ho⟩ ?_
    rintro ⟨u, p⟩ ⟨u', p'⟩ x x' hx hkx ⟨hu, hp⟩
    refine .bind (trailer_agrees hr f hx hm.start hu) hkx ?_
    rintro q q' y y' hy hky hxy (⟨rfl, rfl⟩ | ⟨v, v', rfl, rfl, hv⟩)
    · exact .pure hy hky (.inl ⟨rfl, rfl, hu.reach hxy, hp⟩)
    · have hkind : v.kind = v'.kind := (hv.grown (c := m.here) (Nat.le_refl _)).twin.kind
      refine .ite (by rw [hkind]) (fun _ => ?_) fun _ => ?_
      · exact .pure hy hky (.inr ⟨_, _, rfl, rfl, hv, hp⟩)
      · refine .bind (splatTo_agrees hy (hck.trans hky) hl.start
          (hv.widen hinner (Nat.le_refl _))) hky ?_
        intro r r' z z' hz hkz hyz hr'
        exact .pure hz hkz (.inr ⟨_, _, rfl, rfl, hv.reach hyz, hr'⟩)
  · rintro ⟨u, p⟩ ⟨u', p'⟩ x x' hx hcx _ ⟨hu, ⟨rfl, rfl⟩ | ⟨v, v', y, y', rfl, rfl, hy, hcy, hv⟩⟩
    · exact .error hx.furthest
    · refine .returnTo hx hy hcy ?_
      intro z z' hz hcz hstands
      refine (trailed_agrees hr f hz hl.start ?_).imp hcz ?_
      · rw [hstands.last]
        exact hv
      · intro w w' n _ hw
        exact hw.grown (Nat.le_of_eq hstart)

theorem primary_agrees (hr : g.Lockstep rules) (f : Follow) (h : g.Linked c c')
    (hl : g.Lexed l l') (hstart : c.offset = l.start) :
    Agree g c (g.Grown c) (primary rules f l c) (primary rules f l' c') := by
  have plain : Agree g c (g.Grown c)
      ((do trailed rules f l.start (← atom rules f l) : Parser Tree) c)
      ((do trailed rules f l'.start (← atom rules f l') : Parser Tree) c') := by
    refine .bind (atom_agrees hr f h hl hstart) (.refl c) ?_
    intro t t' d d' hd hcd _ ht
    refine (trailed_agrees hr f hd hl.start (ht.single (Nat.le_of_eq hstart.symm))).imp hcd ?_
    intro u u' e _ hu
    exact hu.grown (Nat.le_of_eq hstart)
  unfold primary
  rcases hl.token with ⟨old, new, hold, hnew⟩ | ⟨w, hne, hw, hw'⟩
  · rw [hold, hnew]
    exact plain
  · rw [hw, hw']
    split
    · exact starred_agrees hr f h hl hstart
    · exact plain

theorem powered_agrees (hr : g.Lockstep rules) (f : Follow) (powers : Bool) (h : g.Linked c c')
    (hl : g.Lexed l l') (hstart : c.offset = l.start) :
    Agree g c (g.Grown c) (powered rules f powers l c) (powered rules f powers l' c') := by
  unfold powered
  refine .bind (primary_agrees hr f h hl hstart) (.refl c) ?_
  intro t t' d d' hd hcd _ ht
  refine .ite Iff.rfl (fun _ => ?_) fun _ => .pure hd hcd ht
  have hrow := ht.single (Nat.le_of_eq hstart.symm)
  refine .optional (fun _ _ => rfl) hd hcd ?_ ?_
  · intro m m' hm _ hlinked hreach
    exact .pure hlinked hreach ((hrow.reach hm.reaches).grown (Nat.le_of_eq hstart))
  · intro m m' e e' _ _ he hce hpower
    refine .bind (hr.rule _ rfl _ _ he) hce ?_
    intro u u' k k' hk hck _ hu
    exact .node hk hck hl.start (Nat.le_of_eq hstart) ((hrow.reach hpower.reaches).snoc he hu)
      trivial

theorem prefixed_agrees (hr : g.Lockstep rules) (f : Follow) (kind : Kind) (h : g.Linked c c')
    (hl : g.Lexed l l') (hstart : c.offset = l.start) (hshaped : ∀ ts, g.Shaped kind ts) :
    Agree g c (g.Grown c) (prefixed rules f kind l c) (prefixed rules f kind l' c') := by
  unfold prefixed
  refine .accept hl h (.refl c) (Nat.le_of_eq hstart) ?_
  intro d d' hd hcd hbehind
  refine .bind (hr.rule _ rfl _ _ hd) hcd ?_
  intro t t' e e' he hce _ ht
  exact .node he hce hl.start (Nat.le_of_eq hstart)
    (ht.single (Nat.le_trans hbehind.start_le hd.last_le)) (hshaped _)

theorem awaited_agrees (hr : g.Lockstep rules) (f : Follow) (h : g.Linked c c')
    (hl : g.Lexed l l') (hstands : Stands c l.here) :
    Agree g c (g.Grown c) (awaited rules f l c) (awaited rules f l' c') := by
  unfold awaited
  refine .accept hl h (.refl c) (Nat.le_of_eq hstands.offset) ?_
  intro d d' hd hcd hbehind
  refine .peek hd hcd ?_
  intro m m' hm hlinked hreach
  refine .returnTo hlinked hl.here hstands.reaches ?_
  intro e e' he hce hstands'
  have hsame := hm.same
    (fun t => t.startsExpression && !t.isWord .not_ && !t.isWord .lambda_) fun _ _ => rfl
  refine .ite (by rw [hsame]) (fun _ => ?_) fun _ => ?_
  · exact (prefixed_agrees hr f .await he hl hstands'.offset fun _ => trivial).earlier hce
  · exact (powered_agrees hr f true he hl hstands'.offset).earlier hce

theorem unary_agrees (hr : g.Lockstep rules) (f : Follow) (powers : Bool) (h : g.Linked c c') :
    Agree g c (g.Grown c) (unary rules f powers c) (unary rules f powers c') := by
  unfold unary
  refine .peek h (.refl c) ?_
  intro l l' hl hlinked hreach
  refine .ite Iff.rfl (fun _ => ?_) fun _ => ?_
  · have plain := (powered_agrees hr f true hlinked hl.toLexed rfl).earlier hreach
    rcases hl.token with ⟨old, new, hold, hnew⟩ | ⟨w, hne, hw, hw'⟩
    · rw [hold, hnew]
      exact plain
    · have sign := (prefixed_agrees hr f .unaryOperator hlinked hl.toLexed rfl
        fun _ => trivial).earlier hreach
      rw [hw, hw']
      split
      · exact sign
      · exact sign
      · exact sign
      · exact (awaited_agrees hr f hlinked hl.toLexed (.refl _)).earlier hreach
      · exact plain
  · exact (powered_agrees hr f false hlinked hl.toLexed rfl).earlier hreach

end Longhand.Draft
