import Longhand.Proofs.Stray
import Longhand.Syntax.Grammar.CasePattern

/-!
# Patterns of a draft

Patterns tend to be read alike in the two texts of a draft.  A marked name in a pattern is a leaf
astray.
-/

namespace Longhand.Draft

open Syntax Text

variable {g : Draft} {rules : Rules} {α β : Type} {c c' : Cursor} {l l' : Lexeme}

/-! ## Reading at a marked name -/

/-- Whether a marked name begins at a cursor. -/
def AtMark (g : Draft) (c : Cursor) (old new : List Char) : Prop :=
  ∃ done todo, g.parts = done ++ .renamed old new :: todo ∧ c.offset = byteSize (before done) ∧
    c.rest = old ++ before todo

theorem AtMark.plain {old new : List Char} (h : g.AtMark c old new) :
    isPlainName old = true := by
  obtain ⟨done, todo, hparts, -⟩ := h
  exact (g.sound_right hparts).2.1

theorem AtMark.marked {old new : List Char} (h : g.AtMark c old new) :
    g.Marked ⟨c.offset, c.offset + byteSize old⟩ old new := by
  obtain ⟨done, todo, hparts, hoffset, -⟩ := h
  exact ⟨done, todo, hparts, hoffset, by rw [hoffset]⟩

theorem AtMark.stands {old new : List Char} {d : Cursor} (h : g.AtMark c old new)
    (hd : Stands d c) : g.AtMark d old new := by
  rw [hd]
  exact h

/-- Whether a token is a marked name. -/
structure ReadsMark (g : Draft) (l : Lexeme) (old new : List Char) : Prop where
  token : l.token = .name old
  marked : g.Marked ⟨l.here.offset, l.next.offset⟩ old new
  atMark : g.AtMark l.here old new

/-- A token is a given name in both texts or in none, unless it is a name that is marked so. -/
theorem SameToken.mark_or_same (h : g.SameToken l l') {text : String}
    (htext : text = "_" ∨ text = "case") :
    (¬ g.Regular ∧ ∃ old new, g.ReadsMark l old new ∧
        ((old = text.toList ∧ Barred l.next) ∨ old ≠ text.toList)) ∨
      l.token.isNamed text = l'.token.isNamed text := by
  rcases h.named with heq | ⟨old, new, hold, hnew, hmarked, hbarred, -⟩
  · exact .inr (by rw [heq])
  have hmark : g.ReadsMark l old new := by
    refine ⟨hold, hmarked, ?_⟩
    obtain ⟨done, todo, hparts, hstart, -⟩ := hmarked
    obtain ⟨done', todo', hat⟩ := h.here.place
    obtain ⟨rfl, rfl⟩ := place_unique hat.parts hparts (hat.offset.symm.trans hstart)
    exact ⟨done', todo, hparts, hstart, hat.rest⟩
  have odd : (text.toList = old ∨ text.toList = new) → ¬ g.Regular := by
    intro hone hregular
    have hplain := hregular _ _ _ hmarked text.toList hone
    rcases htext with rfl | rfl
    · exact hplain.1 rfl
    · exact hplain.2 rfl
  by_cases hone : old = text.toList
  · exact .inl ⟨odd (.inl hone.symm), old, new, hmark, .inl ⟨hone, hbarred⟩⟩
  by_cases htwo : new = text.toList
  · exact .inl ⟨odd (.inr htwo.symm), old, new, hmark, .inr hone⟩
  · right
    rw [hold, hnew]
    simp [Token.isNamed, hone, htwo]

/-- At a name the reading does not move, unless a line may end there. -/
theorem settle_name {e : Expect} (he : e.newline = false) {x : Char} {xs : List Char}
    (hrest : c.rest = x :: xs) (hx : isNameChar x = true) (fuel : Nat) :
    c.settle e fuel = (none, c) := by
  have hgap : ¬ isGap x = true := by
    rw [isGap_eq_false_of_isNameChar hx]
    exact Bool.false_ne_true
  have hskip : skipGaps c = c := by
    rw [skipGaps, hrest, List.takeWhile_cons_of_neg hgap]
    rfl
  have hhash : x ≠ '#' := ne_of_isNameChar hx (by decide)
  have hslash : x ≠ '\\' := ne_of_isNameChar hx (by decide)
  have hpass : pass? c = none := by
    simp [pass?, hrest, hhash, hslash]
  have hlayout : c.layout? e = none := by
    have hblanks := readBlanks_of_ne (e.newline || e.indent || e.dedent) xs {} (c := x)
      (ne_of_isNameChar hx (by decide)) (ne_of_isNameChar hx (by decide))
      (ne_of_isNameChar hx (by decide)) (ne_of_isNameChar hx (by decide))
      (ne_of_isNameChar hx (by decide)) hslash hhash
    rw [Cursor.layout?, hrest, hblanks]
    simp [Cursor.endsHere, he]
  cases fuel with
  | zero => rfl
  | succ fuel => rw [settle_succ, hlayout, hskip, hpass]

/-- The token at a marked name is that name. -/
theorem AtMark.read {old new : List Char} (h : g.AtMark c old new) {e : Expect}
    (he : e.newline = false) : g.ReadsMark (c.read e) old new ∧ (c.read e).here = c := by
  have hmark := h
  have hmarked := h.marked
  obtain ⟨done, todo, hparts, hoffset, hrest⟩ := h
  obtain ⟨-, hold, -, hahead, -⟩ := g.sound_right hparts
  obtain ⟨x, xs, hcons, hx, -⟩ := exists_of_isPlainName hold
  have hfirst : c.rest = x :: (xs ++ before todo) := by
    rw [hrest, hcons]
    rfl
  have htoken := token_name e.quote hold hahead
  rw [read_of_none (settle_name he hfirst (isNameChar_of_start hx) _)]
  refine ⟨⟨?_, ?_, hmark⟩, rfl⟩
  · show (Syntax.token e.quote c.rest).1 = _
    rw [hrest, htoken]
  · show g.Marked ⟨c.offset, c.offset + byteSize (tokenText e c)⟩ old new
    rwa [tokenText, hrest, htoken, List.take_left]

/-- A dotted name that begins with a marked name has a leaf astray. -/
theorem dottedName_gives {old new : List Char} (h : g.AtMark c old new) (e : Expect) :
    Gives (dottedName e c) g.Stray := by
  have hmarked : g.Marked (leaf .identifier (c.read {})).span old new := (h.read rfl).1.marked
  unfold dottedName
  refine .expect fun _ => ?_
  refine .next (S := fun ids => leaf .identifier (c.read {}) ∈ ids) (.loop (by simp) ?_) ?_
  · intro ids hids
    refine .bind fun o => ?_
    cases o with
    | none => exact .pure fun b hb => nomatch hb
    | some m =>
        refine .bind fun u => .pure ?_
        rintro b ⟨⟩
        exact List.mem_cons_of_mem _ hids
  · intro ids hids
    cases ids with
    | nil => cases hids
    | cons z rest => exact .pure (.name (List.mem_reverse.2 hids) rfl rfl hmarked)

/-! ## The rules for patterns and blocks -/

/-- The rules that yield patterns. -/
def isPatternRule : Rule → Bool
  | .casePattern _ | .simplePattern _ => true
  | _ => false

/-- Whether all rules agree on the two texts of a draft, as far as no leaf is astray.  A pattern at
a marked name is astray, and none begins before an equals sign. -/
structure Locked (g : Draft) (rules : Rules) : Prop extends g.Lockstep rules where
  tends : ∀ r, r ≠ .braced → ∀ c c', g.Linked c c' →
    Tends g c (g.Grown c) g.Stray (rules r c) (rules r c')
  marked : ∀ r, isPatternRule r = true → ∀ c old new, g.AtMark c old new →
    Gives (rules r c) g.Stray
  barred : ∀ r, isPatternRule r = true → ∀ c, Barred c → Gives (rules r c) fun _ => False

/-! ## Lists of patterns -/

section Lists

variable {item item' : Parser Tree} {starts : Token → Bool}

theorem furtherItem_yields {comma next : Expect} {more : Token → Bool} (s : List Tree × Bool)
    (hs : g.StrayIn s.1) :
    Yields (furtherItem? item comma next more s) fun o => ∀ t, o = some t → g.StrayIn t.1 := by
  obtain ⟨items, trailing⟩ := s
  refine .ite (.pure fun b hb => nomatch hb) (.bind fun o => ?_)
  cases o with
  | none => exact .pure fun b hb => nomatch hb
  | some m =>
      refine .bind fun n => .ite (.bind fun t => .pure ?_) (.pure ?_)
      · rintro b ⟨⟩
        exact .tail hs
      · rintro b ⟨⟩
        exact hs

/-- Items that tend to agree make lists that do. -/
theorem separated_tends {comma next : Expect} {more : Token → Bool}
    (hmore : ∀ a b, more (.name a) = more (.name b)) (h : g.Linked c c')
    (hitem : ∀ e e', g.Linked e e' → Reaches c e →
      Tends g e (g.Grown e) g.Stray (item e) (item' e')) :
    Tends g c (fun r r' d => g.Row c.offset d.last r.1 r'.1) (fun r => g.StrayIn r.1)
      (separated item comma next more c) (separated item' comma next more c') := by
  have finish : ∀ s : List Tree × Bool, g.StrayIn s.1 →
      Yields (pure (s.1.reverse, s.2) : Parser (List Tree × Bool)) fun r => g.StrayIn r.1 :=
    fun s hs => .pure hs.reverse
  unfold separated
  refine .bind (hitem c c' h (.refl c)) (.refl c) ?_ fun t ht =>
    .next (.loop (.head ht) furtherItem_yields) finish
  intro first first' d d' hd hcd _ ht
  refine .bind (Q := fun s s' e => g.Row c.offset e.last s.1.reverse s'.1.reverse ∧ s.2 = s'.2)
    (.loop hd (.refl d) ⟨ht.single (Nat.le_refl _), rfl⟩ ?_ furtherItem_yields) hcd ?_ finish
  · rintro ⟨items, trailing⟩ ⟨items', trailing'⟩ e e' he hde ⟨hrow, rfl⟩
    dsimp only [furtherItem?] at hrow ⊢
    refine .ite Iff.rfl (fun _ => .pure he hde (.inl ⟨rfl, rfl, hrow, rfl⟩)) fun _ => ?_
    refine .optional (fun _ _ => rfl) he hde ?_ ?_
    · intro l l' hl _ hlinked hreach
      exact .pure hlinked hreach (.inl ⟨rfl, rfl, hrow.reach hl.reaches, rfl⟩)
    · intro l l' k k' _ _ hk hdk hbehind
      refine .peek hk hdk ?_
      intro m m' hm hlinked hreach
      have hrow := hrow.reach (hbehind.reaches.trans hm.reaches)
      refine .ite (by rw [hm.same more hmore]) (fun _ => ?_) fun _ => ?_
      · refine .bind (hitem _ _ hlinked (hcd.trans hreach)) hreach ?_ ?_
        · intro t t' n n' hn hdn _ ht
          exact .pure hn hdn (.inr ⟨_, _, rfl, rfl, hrow.grow hlinked ht, rfl⟩)
        · exact fun t ht => .pure ⟨_, rfl, .head ht⟩
      · exact .pure hlinked hreach (.inr ⟨_, _, rfl, rfl, hrow, rfl⟩)
  · rintro ⟨items, trailing⟩ ⟨items', trailing'⟩ e e' he hce _ ⟨hrow, -⟩
    exact .pure he hce hrow

theorem patterns_tends (hstarts : ∀ a b, starts (.name a) = starts (.name b)) (h : g.Linked c c')
    (hitem : ∀ e e', g.Linked e e' → Reaches c e →
      Tends g e (g.Grown e) g.Stray (item e) (item' e')) :
    Tends g c (g.Listed c) g.StrayIn (patterns? item starts c) (patterns? item' starts c') := by
  unfold patterns?
  refine .peek h (.refl c) ?_
  intro l l' hl hlinked hreach
  refine .ite (by rw [hl.same starts hstarts]) (fun _ => ?_)
    fun _ => .pure hlinked hreach (.inl ⟨rfl, rfl⟩)
  refine .bind (separated_tends hstarts hlinked fun e e' he hle => hitem e e' he (hreach.trans hle))
    hreach ?_ fun r hr => .pure hr
  intro r r' d d' hd hcd _ hrow
  exact .pure hd hcd (.inr (hrow.widen hreach.offset (Nat.le_refl _)))

theorem bracketedPatterns_tends {close : Token → Bool}
    (hstarts : ∀ a b, starts (.name a) = starts (.name b))
    (hclose : ∀ a b, close (.name a) = close (.name b)) (h : g.Linked c c')
    (hitem : ∀ e e', g.Linked e e' → Reaches c e →
      Tends g e (g.Grown e) g.Stray (item e) (item' e')) :
    Tends g c (fun ts ts' d => g.Row c.last d.last ts ts') g.StrayIn
      (bracketedPatterns item starts close c) (bracketedPatterns item' starts close c') := by
  unfold bracketedPatterns
  refine .bind (patterns_tends hstarts h hitem) (.refl c) ?_ fun ts hts => .bind fun _ => .pure hts
  intro ts ts' d d' hd hcd _ hrow
  refine .expect hclose hd hcd ?_
  intro m m' e e' _ _ he hce hbehind
  exact .pure he hce ((hrow.row hcd h).reach hbehind.reaches)

end Lists

/-! ## Patterns -/

theorem numberLeaf_agrees {d : Cursor} (hl : g.Lexed l l') (hd : Behind c l d) :
    g.Row l.start d.last [numberLeaf l] [numberLeaf l'] := by
  unfold numberLeaf
  rcases hl.token with ⟨old, new, hold, hnew⟩ | ⟨w, -, hw, hw'⟩
  · rw [hold, hnew]
    exact .leaf _ hl hd fun hkind => nomatch hkind
  · rw [hw, hw']
    refine .leaf _ hl hd fun hkind => ?_
    split at hkind
    · cases hkind
    · cases hkind

theorem numberPattern_agrees (f : Follow) (h : g.Linked c c') :
    Agree g c (g.Grown c) (numberPattern f c) (numberPattern f c') := by
  unfold numberPattern
  refine .peek h (.refl c) ?_
  intro l l' hl hlinked hreach
  refine .bind (.passed (fun _ _ => rfl) hlinked) hreach ?_
  intro _ _ d d' hd hcd hld _
  refine .expect (fun _ _ => rfl) hd hcd ?_
  intro m m' e e' hm _ he hce hnumber
  have hleaf : g.Row l.start e.last [numberLeaf m] [numberLeaf m'] :=
    (numberLeaf_agrees hm.toLexed hnumber).widen (Nat.le_trans hld.offset hm.start_ge)
      (Nat.le_refl _)
  refine .optional (fun _ _ => rfl) he hce ?_ ?_
  · intro n n' hn _ hnlinked hnreach
    exact .node hnlinked hnreach hl.start hl.start_ge (hleaf.reach hn.reaches) trivial
  · intro n n' k k' _ _ hk hck hsign
    refine .expect (fun _ _ => rfl) hk hck ?_
    intro q q' p p' hq _ hp hcp hnumber'
    refine .node hp hcp hl.start hl.start_ge ?_ trivial
    refine (hleaf.reach hsign.reaches).append ?_
    refine (numberLeaf_agrees hq.toLexed hnumber').widen ?_ (Nat.le_refl _)
    exact Nat.le_trans hk.last_le hq.start_ge

theorem patternEntry_tends (hr : g.Locked rules) (h : g.Linked c c') :
    Tends g c (g.Grown c) g.Stray (patternEntry rules c) (patternEntry rules c') := by
  unfold patternEntry
  refine .peek h (.refl c) ?_
  intro l l' hl hlinked hreach
  refine .bind (hr.tends _ (by simp) _ _ hlinked) hreach ?_ ?_
  · intro t t' d d' hd hcd _ ht
    refine .ite (by rw [ht.twin.kind]) (fun _ => .pure hd hcd (ht.before hreach)) fun _ => ?_
    refine .expect (fun _ _ => rfl) hd hcd ?_
    intro m m' e e' _ _ he hce hcolon
    refine .bind (hr.tends _ (by simp) _ _ he) hce ?_ ?_
    · intro u u' k k' hk hck _ hu
      have ht := (ht.single (Nat.le_refl _)).reach hcolon.reaches
      exact .agree (.node hk hck hl.start hl.start_ge (ht.snoc he hu) trivial)
    · exact fun u hu => .node (.tail (.head hu))
  · intro t ht
    exact .ite (.pure ht) (.bind fun _ => .bind fun u => .node (.head ht))

/-- A closed pattern at a marked name is astray. -/
theorem closedPattern_gives {old new : List Char} (h : g.ReadsMark (c.read operand) old new)
    (f : Follow) : Gives (closedPattern rules f c) g.Stray := by
  unfold closedPattern
  refine .peek ?_
  rw [h.token]
  refine .ite (fun _ => ?_) fun _ => ?_
  · exact Yields.bind (fun _ => .pure (.pattern h.marked)) _
  · refine .bind (dottedName_gives h.atMark _) fun t ht => .bind fun o => ?_
    cases o with
    | none => exact .pure ht
    | some m => exact .bind fun ts => .node (.head ht)

/-- A bracket and the patterns in it. -/
theorem bracketedItems_tends {item item' : Parser Tree} {close : Token → Bool} {kind : Kind}
    (hclose : ∀ a b, close (.name a) = close (.name b)) (hkind : ∀ ts, g.Shaped kind ts)
    (h : g.Linked c c') (hl : g.Lexed l l') (hstart : c.offset = l.start)
    (hitem : ∀ e e', g.Linked e e' → Tends g e (g.Grown e) g.Stray (item e) (item' e')) :
    Tends g c (g.Grown c) g.Stray
      ((do
        accept l
        let items ← bracketedPatterns item Token.startsPattern close
        node kind l.start items : Parser Tree) c)
      ((do
        accept l'
        let items ← bracketedPatterns item' Token.startsPattern close
        node kind l'.start items : Parser Tree) c') := by
  refine .accept hl h (.refl c) (Nat.le_of_eq hstart) ?_
  intro d d' hd hcd hbehind
  refine .bind (bracketedPatterns_tends (fun _ _ => rfl) hclose hd fun e e' he _ => hitem e e' he)
    hcd ?_ fun ts hts => .node hts
  intro ts ts' e e' he hce _ hrow
  exact .agree (.node he hce hl.start (Nat.le_of_eq hstart)
    (hrow.widen hbehind.start_le (Nat.le_refl _)) (hkind _))

theorem closedPattern_tends (hr : g.Locked rules) (f : Follow) (h : g.Linked c c') :
    Tends g c (g.Grown c) g.Stray (closedPattern rules f c) (closedPattern rules f c') := by
  have hl := h.peeked operand
  -- A marked name that a pattern takes for another token is read astray.
  rcases hl.mark_or_same (.inl rfl) with ⟨hodd, old, new, hmark, -⟩ | hsame
  · exact .astray hodd (closedPattern_gives hmark f)
  unfold closedPattern
  refine .read ?_
  generalize c.read operand = l at hl hsame
  generalize c'.read operand = l' at hl hsame
  have hlinked := hl.here
  have hreach := hl.reaches
  -- All brackets are read alike, whatever stands between them.
  have items : ∀ {kind : Kind} {item : Parser Tree} {close : Token → Bool},
      (∀ a b, close (.name a) = close (.name b)) → (∀ ts, g.Shaped kind ts) →
      (∀ e e', g.Linked e e' → Tends g e (g.Grown e) g.Stray (item e) (item e')) →
      Tends g c (g.Grown c) g.Stray
        ((do
          accept l
          let items ← bracketedPatterns item Token.startsPattern close
          node kind l.start items : Parser Tree) l.here)
        ((do
          accept l'
          let items ← bracketedPatterns item Token.startsPattern close
          node kind l'.start items : Parser Tree) l'.here) := fun hclose hkind hitem =>
    (bracketedItems_tends hclose hkind hlinked hl.toLexed rfl hitem).earlier hreach
  have splat : Tends g c (g.Grown c) g.Stray
      ((do accept l; node .splatPattern l.start [← name {}] : Parser Tree) l.here)
      ((do accept l'; node .splatPattern l'.start [← name {}] : Parser Tree) l'.here) := by
    refine .agree (.accept hl.toLexed hlinked hreach (Nat.le_refl _) ?_)
    intro d d' hd hcd hbehind
    refine .bind (name_agrees {} hd) hcd ?_
    intro t t' e e' he hce _ ht
    exact .node he hce hl.start hl.start_ge
      (ht.1.single (Nat.le_trans hbehind.start_le hd.last_le)) trivial
  have pattern : ∀ e e', g.Linked e e' → Tends g e (g.Grown e) g.Stray
      (rules (.casePattern Follow.inside) e) (rules (.casePattern Follow.inside) e') :=
    hr.tends _ (by simp)
  rcases hl.token with ⟨old, new, hold, hnew⟩ | ⟨w, hne, hw, hw'⟩
  · rw [hold, hnew] at hsame ⊢
    refine .ite (by rw [hsame]) (fun _ => ?_) fun _ => ?_
    · exact .agree (.leaf hl.toLexed hlinked hreach rfl fun hkind => nomatch hkind)
    · refine .after (dottedName_agrees _ hlinked) hreach ?_
      intro t t' d d' hd hcd _ ht
      have ht := ht.1
      refine .optional (fun _ _ => rfl) hd hcd ?_ ?_
      · intro m m' hm _ hmlinked hmreach
        refine .pure hmlinked hmreach ?_
        exact (((ht.single (Nat.le_refl _)).reach hm.reaches).grown (Nat.le_refl _)).before hreach
      · intro m m' e e' _ _ he hce hopen
        refine .bind (bracketedPatterns_tends (fun _ _ => rfl) (fun _ _ => rfl) he
          fun e e' he _ => pattern e e' he) hce ?_ fun ts hts => .node (.tail hts)
        intro ts ts' k k' hk hck hek hrow
        have hfirst := ((ht.single (Nat.le_refl _)).reach hopen.reaches)
        exact .agree (.node hk hck hl.start hl.start_ge (hfirst.append hrow) trivial)
  · rw [hw, hw']
    split
    · exact .agree ((numberPattern_agrees f hlinked).earlier hreach)
    · exact .agree ((numberPattern_agrees f hlinked).earlier hreach)
    · exact .agree ((numberPattern_agrees f hlinked).earlier hreach)
    · exact .agree (.leaf hl.toLexed hlinked hreach rfl fun hkind => nomatch hkind)
    · exact .agree (.leaf hl.toLexed hlinked hreach rfl fun hkind => nomatch hkind)
    · exact .agree (.leaf hl.toLexed hlinked hreach rfl fun hkind => nomatch hkind)
    · exact .agree ((strings_agrees hr.toLockstep f hlinked hl.toLexed rfl
        (hl.quote _ hw)).earlier hreach)
    · exact splat
    · exact splat
    · exact absurd rfl (hne _)
    · exact items (fun _ _ => rfl) (fun _ => trivial) pattern
    · exact items (fun _ _ => rfl) (fun _ => trivial) pattern
    · exact items (fun _ _ => rfl) (fun _ => trivial) fun e e' he => patternEntry_tends hr he
    · exact .agree (.error hlinked.furthest)

/-! ## Patterns as a whole -/

theorem oneOf_yields {start : Nat} {ts : List Tree} (h : g.StrayIn ts) :
    Yields (oneOf start ts) g.Stray := by
  unfold oneOf
  split
  · obtain ⟨t, ht, hstray⟩ := h
    rw [List.mem_singleton.1 ht] at hstray
    exact .pure hstray
  · exact .node h.reverse

theorem alternative_yields (f : Follow) (ts : List Tree) (h : g.StrayIn ts) :
    Yields (alternative? rules f ts) fun o => ∀ us, o = some us → g.StrayIn us := by
  refine .bind fun o => ?_
  cases o with
  | none => exact .pure fun b hb => nomatch hb
  | some m =>
      refine .bind fun t => .pure ?_
      rintro b ⟨⟩
      exact .tail h

theorem simplePattern_tends (hr : g.Locked rules) (f : Follow) (h : g.Linked c c') :
    Tends g c (g.Grown c) g.Stray (simplePattern rules f c) (simplePattern rules f c') := by
  unfold simplePattern
  refine .peek h (.refl c) ?_
  intro l l' hl hlinked hreach
  refine .bind (closedPattern_tends hr f hlinked) hreach ?_ fun t ht =>
    .next (.loop (.head ht) (alternative_yields f)) fun ts hts => oneOf_yields hts
  intro t t' d d' hd hcd _ ht
  have hfirst : g.Row l.start d.last [t].reverse [t'].reverse := ht.single (Nat.le_refl _)
  refine .bind (Q := fun ts ts' e => g.Row l.start e.last ts.reverse ts'.reverse)
    (.loop hd (.refl d) hfirst ?_ (alternative_yields f)) hcd ?_
    fun ts hts => oneOf_yields hts
  · intro ts ts' e e' he hde hrow
    refine .optional (fun _ _ => rfl) he hde ?_ ?_
    · intro m m' hm _ hmlinked hmreach
      exact .pure hmlinked hmreach (.inl ⟨rfl, rfl, hrow.reach hm.reaches⟩)
    · intro m m' k k' _ _ hk hdk hbehind
      refine .bind (closedPattern_tends hr f hk) hdk ?_ fun u hu => .pure ⟨_, rfl, .head hu⟩
      intro u u' n n' hn hdn _ hu
      exact .pure hn hdn (.inr ⟨_, _, rfl, rfl, (hrow.reach hbehind.reaches).grow hk hu⟩)
  · intro ts ts' e e' he hce _ hrow
    unfold oneOf
    rcases hrow.singles with ⟨u, u', hu, hu', -⟩ | hmany
    · rw [List.reverse_eq_iff] at hu hu'
      subst hu hu'
      exact .pure he hce (hrow.grown hl.start_ge)
    · split
      · exact absurd rfl (hmany _).1
      split
      · exact absurd rfl (hmany _).2
      · exact .agree (.node he hce hl.start hl.start_ge hrow trivial)

theorem simplePattern_gives {old new : List Char} (h : g.AtMark c old new) (f : Follow) :
    Gives (simplePattern rules f c) g.Stray := by
  obtain ⟨hmark, hhere⟩ := h.read (e := operand) rfl
  unfold simplePattern
  refine .peek ?_
  rw [hhere]
  exact .bind (closedPattern_gives hmark f) fun t ht =>
    .next (.loop (.head ht) (alternative_yields f)) fun ts hts => oneOf_yields hts

/-- No pattern begins before an equals sign. -/
theorem simplePattern_barred (h : Barred c) (f : Follow) :
    Gives (simplePattern rules f c) fun _ => False := by
  unfold simplePattern
  refine .peek (.bind (S := fun _ => False) ?_ fun _ hfalse => hfalse.elim)
  unfold closedPattern
  refine .peek ?_
  rcases ((h.read operand).2.read operand).1 with htoken | ⟨t, htoken⟩
  · rw [htoken]
    exact .error
  · rw [htoken]
    exact .error

/-! ## Patterns with names -/

theorem isKeywordAhead_agrees (f : Follow) (hl : g.Lexed l l')
    (hsame : l.token.isNamed "_" = l'.token.isNamed "_") :
    Agree g l.here (fun b b' d => b = b' ∧ (b = true → l.token.isName = true) ∧
      d.offset = l.start) (isKeywordAhead f l l.here) (isKeywordAhead f l' l'.here) := by
  unfold isKeywordAhead
  refine .ite (by rw [hl.same Token.isName fun _ _ => rfl, hsame]) (fun hname => ?_)
    fun _ => .pure hl.here (.refl _) ⟨rfl, fun hfalse => (nomatch hfalse), rfl⟩
  refine .accept hl hl.here (.refl _) (Nat.le_refl _) ?_
  intro d d' hd hcd _
  refine .peek hd hcd ?_
  intro m m' hm hlinked hreach
  refine .returnTo hlinked hl.here (.refl _) ?_
  intro e e' he hce hstands
  refine .pure he hce ⟨hm.same Token.isEquals fun _ _ => rfl, fun _ => ?_, hstands.offset⟩
  rw [Bool.and_eq_true] at hname
  exact hname.1

theorem keywordPattern_tends (hr : g.Locked rules) (f : Follow) (h : g.Linked c c')
    (hl : g.Lexed l l') (hstart : c.offset = l.start) (hname : l.token.isName = true) :
    Tends g c (g.Grown c) g.Stray (keywordPattern rules f l c) (keywordPattern rules f l' c') := by
  have hle : c.offset ≤ l.start := Nat.le_of_eq hstart
  unfold keywordPattern
  refine .accept hl h (.refl c) hle ?_
  intro d d' hd hcd hbehind
  refine .expect (fun _ _ => rfl) hd hcd ?_
  intro m m' e e' _ _ he hce hequals
  refine .bind (hr.tends _ (by simp) _ _ he) hce ?_ fun t ht => .node (.tail (.head ht))
  intro t t' k k' hk hck _ ht
  have hleaf := (Row.leaf .identifier hl hbehind fun _ => .inl hname).reach hequals.reaches
  exact .agree (.node hk hck hl.start hle (hleaf.snoc he ht) trivial)

theorem argumentPattern_gives (hr : g.Locked rules) {old new : List Char}
    (h : g.ReadsMark l old new) (f : Follow) :
    Gives (argumentPattern rules f l l.here) g.Stray := by
  unfold argumentPattern
  refine .step fun b d hok => .ite (fun _ => ?_) fun _ => hr.marked _ rfl _ old new ?_
  · unfold keywordPattern
    refine Yields.bind (fun _ => .bind fun _ => .bind fun t => ?_) d
    intro k u n hnode
    cases hnode
    exact .name List.mem_cons_self rfl rfl h.marked
  · unfold isKeywordAhead at hok
    split at hok
    · cases hok
      exact h.atMark
    · cases hok
      exact h.atMark

theorem argumentPattern_tends (hr : g.Locked rules) (f : Follow) (hl : g.Lexed l l') :
    Tends g l.here (g.Grown l.here) g.Stray (argumentPattern rules f l l.here)
      (argumentPattern rules f l' l'.here) := by
  rcases hl.mark_or_same (.inl rfl) with ⟨hodd, old, new, hmark, -⟩ | hsame
  · exact .astray hodd (argumentPattern_gives hr hmark f)
  unfold argumentPattern
  refine .after (isKeywordAhead_agrees f hl hsame) (.refl _) ?_
  rintro b b' d d' hd hcd _ ⟨rfl, hname, hstart⟩
  refine .ite Iff.rfl (fun hb => ?_) fun _ => ?_
  · exact (keywordPattern_tends hr f hd hl hstart (hname hb)).earlier hcd
  · exact (hr.tends _ (by simp) _ _ hd).earlier hcd

theorem boundPattern_yields (f : Follow) (start : Nat) (t : Tree) (h : g.Stray t) :
    Yields (boundPattern? f start t) fun o => ∀ u, o = some u → g.Stray u := by
  refine .bind fun o => ?_
  cases o with
  | none => exact .pure fun b hb => nomatch hb
  | some m =>
      refine .bind fun u => .next (.node (.head h)) fun v hv => .pure ?_
      rintro b ⟨⟩
      exact hv

theorem casePattern_tends (hr : g.Locked rules) (f : Follow) (h : g.Linked c c') :
    Tends g c (g.Grown c) g.Stray (casePattern rules f c) (casePattern rules f c') := by
  unfold casePattern
  refine .peek h (.refl c) ?_
  intro l l' hl hlinked hreach
  refine .bind (argumentPattern_tends hr f hl.toLexed) hreach ?_ fun t ht =>
    .next (.loop ht (boundPattern_yields f _)) fun u hu => .node (.head hu)
  intro t t' d d' hd hcd _ ht
  refine .bind (Q := fun t t' e => g.Row l.start e.last [t] [t'])
    (.loop hd (.refl d) (ht.single (Nat.le_refl _)) ?_ (boundPattern_yields f _)) hcd ?_
    fun u hu => .node (.head hu)
  · intro u u' e e' he hde hrow
    refine .optional (fun _ _ => rfl) he hde ?_ ?_
    · intro m m' hm _ hmlinked hmreach
      exact .pure hmlinked hmreach (.inl ⟨rfl, rfl, hrow.reach hm.reaches⟩)
    · intro m m' k k' _ _ hk hdk has
      refine .after (name_agrees {} hk) hdk ?_
      intro v v' n n' hn hdn _ hv
      refine .after (.nodeRow hn hdn hl.start ((hrow.reach has.reaches).snoc hk hv.1) trivial)
        (.refl d) ?_
      intro w w' p p' hp hdp _ hw
      exact .pure hp hdp (.inr ⟨_, _, rfl, rfl, hw⟩)
  · intro u u' e e' he hce _ hrow
    exact .agree (.node he hce hl.start hl.start_ge hrow trivial)

theorem casePattern_gives (hr : g.Locked rules) {old new : List Char} (h : g.AtMark c old new)
    (f : Follow) : Gives (casePattern rules f c) g.Stray := by
  unfold casePattern
  exact .peek (.bind (argumentPattern_gives hr (h.read rfl).1 f) fun t ht =>
    .next (.loop ht (boundPattern_yields f _)) fun u hu => .node (.head hu))

theorem casePattern_barred (hr : g.Locked rules) (h : Barred c) (f : Follow) :
    Gives (casePattern rules f c) fun _ => False := by
  unfold casePattern
  refine .peek (.bind (S := fun _ => False) ?_ fun _ hfalse => hfalse.elim)
  have hbarred := h.read operand
  have hname : (c.read operand).token.isName = false := by
    rcases hbarred.1 with htoken | ⟨t, htoken⟩
    · rw [htoken]
      rfl
    · rw [htoken]
      rfl
  unfold argumentPattern isKeywordAhead
  rw [hname]
  exact hr.barred _ rfl _ hbarred.2

end Longhand.Draft
