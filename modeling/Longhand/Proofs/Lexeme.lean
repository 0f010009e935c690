import Longhand.Proofs.Token
import Longhand.Syntax.Grammar.Basic

/-!
# The next token of a draft

Linked cursors read tokens that differ at most in a marked name, and move on to linked places.
-/

namespace Longhand.Draft

open Syntax Text

variable {g : Draft} {c c' : Cursor}

/-- Whether two lexemes are those of one place of a draft, as far as the token goes. -/
structure SameToken (g : Draft) (l l' : Lexeme) : Prop where
  here : g.Linked l.here l'.here
  next : g.Linked l.next l'.next
  /-- The stretch of the draft that the token covers. -/
  text : ∃ done mid todo, g.At done (mid ++ todo) l.here l'.here ∧
    g.At (done ++ mid) todo l.next l'.next ∧ l.text = before mid ∧ l'.text = after mid
  token : (∃ old new, l.token = .name old ∧ l'.token = .name new) ∨
    ∃ t, (∀ n, t ≠ .name n) ∧ l.token = t ∧ l'.token = t
  /-- Only a marked name, which stands before an equals sign, is spelled in two ways. -/
  named : l.token = l'.token ∨ ∃ old new, l.token = .name old ∧ l'.token = .name new ∧
    g.Marked ⟨l.here.offset, l.next.offset⟩ old new ∧ Barred l.next ∧ Barred l'.next

namespace SameToken

variable {l l' : Lexeme}

/-- What does not depend on the spelling of names is the same for both tokens. -/
theorem same {α : Type} (h : g.SameToken l l') (f : Token → α)
    (hf : ∀ a b, f (.name a) = f (.name b)) : f l.token = f l'.token := by
  rcases h.token with ⟨old, new, hl, hl'⟩ | ⟨t, -, hl, hl'⟩
  · rw [hl, hl']
    exact hf old new
  · rw [hl, hl']

end SameToken

/-! ## What a reading does to a cursor -/

/-- The open indentations behind a token of the layout. -/
def indentsAfter (t : LayoutToken) (indents : List Nat) : List Nat :=
  match t with
  | .newline => indents
  | .indent width => width :: indents
  | .dedent => indents.tail

theorem read_of_layout {e : Expect} {t : LayoutToken} {d : Cursor}
    (h : c.settle e (c.size + 1) = (some t, d)) :
    c.read e =
      { token := .layout t, text := [], here := d
        next := { d with indents := indentsAfter t d.indents, last := d.offset } } := by
  rw [Cursor.read, h]
  cases t <;> rfl

/-- The text of the token at a cursor. -/
def tokenText (e : Expect) (c : Cursor) : List Char :=
  c.rest.take (Syntax.token e.quote c.rest).2

theorem read_of_none {e : Expect} {d : Cursor} (h : c.settle e (c.size + 1) = (none, d)) :
    c.read e =
      { token := (Syntax.token e.quote d.rest).1, text := tokenText e d, here := d
        next := { d.skip (tokenText e d) with last := (d.skip (tokenText e d)).offset } } := by
  rw [Cursor.read, h]
  rfl

/-- A reading settles on a place, and the token ends there or further on. -/
theorem read_spec (c : Cursor) (e : Expect) :
    (c.read e).here = (c.settle e (c.size + 1)).2 ∧ Onward c (c.read e).here ∧
      (c.read e).next.last = (c.read e).next.offset ∧
      (c.read e).here.offset ≤ (c.read e).next.offset ∧
      (c.read e).next.furthest = c.furthest := by
  have hon := onward_settle e (c.size + 1) c
  cases h : c.settle e (c.size + 1) with
  | mk o d =>
      rw [h] at hon
      cases o with
      | some t =>
          rw [read_of_layout h]
          exact ⟨rfl, hon, rfl, Nat.le_refl _, hon.furthest⟩
      | none =>
          rw [read_of_none h]
          exact ⟨rfl, hon, rfl, Nat.le_add_right _ _, hon.furthest⟩

/-! ## Reading a token on both sides -/

/-- Cursors that come to the end of their tokens at one place stay linked. -/
theorem Linked.endToken (h : g.Linked c c') {i i' : List Nat} (hindents : i = i') :
    g.Linked { c with indents := i, last := c.offset }
      { c' with indents := i', last := c'.offset } where
  size := h.size
  size' := h.size'
  place := by
    obtain ⟨done, todo, hat⟩ := h.place
    exact ⟨done, todo, hat.parts, hat.rest, hat.rest', hat.offset, hat.offset'⟩
  last := h.cut
  last_le := Nat.le_refl _
  indents := hindents
  inFormat := h.inFormat
  supplied := h.supplied
  furthest := h.furthest

/-- An equals sign comes next in both texts or in none. -/
theorem Linked.stands (h : g.Linked c c')
    (hc : ∃ rest, c.rest = '=' :: rest ∧ rest.head? ≠ some '=') :
    ∃ rest, c'.rest = '=' :: rest ∧ rest.head? ≠ some '=' := by
  obtain ⟨done, todo, hat⟩ := h.place
  obtain ⟨rest, hrest, hhead⟩ := hc
  have hsound := hat.sound
  have hbefore := hat.rest
  have hafter := hat.rest'
  have name : ∀ {old : List Char} {more cs : List Char}, isPlainName old = true →
      old ++ more = '=' :: cs → False := by
    intro old more cs hold heq
    obtain ⟨y, ys, rfl, hy, -⟩ := exists_of_isPlainName hold
    have hne : y ≠ '=' := ne_of_isNameChar (isNameChar_of_start hy) (by decide)
    exact hne (List.cons.inj heq).1
  cases todo with
  | nil =>
      rw [hrest] at hbefore
      cases hbefore
  | cons p todo =>
      cases p with
      | renamed old new =>
          rw [hrest] at hbefore
          exact (name hsound.2.1 hbefore.symm).elim
      | kept x =>
          rw [hrest, before_kept, List.cons.injEq] at hbefore
          obtain ⟨rfl, rfl⟩ := hbefore
          refine ⟨after todo, hafter, ?_⟩
          cases todo with
          | nil => exact fun hnone => nomatch hnone
          | cons q todo =>
              cases q with
              | kept y => exact hhead
              | renamed old new => cases hsound.1

theorem Linked.equalsAhead (h : g.Linked c c') {fuel : Nat} (hc : EqualsAhead fuel c.rest) :
    EqualsAhead fuel c'.rest := by
  induction fuel generalizing c c' with
  | zero => exact h.stands hc
  | succ fuel ih =>
      obtain ⟨rest, hrest, hhead⟩ := hc
      rw [trivia_succ] at hrest
      rw [EqualsAhead, trivia_succ]
      rcases h.skipGaps.pass? with ⟨d, d', hd, hd', hlinked, -⟩ | ⟨hd, hd'⟩
      · rw [hd] at hrest
        rw [hd']
        exact ih hlinked ⟨rest, hrest, hhead⟩
      · rw [hd] at hrest
        rw [hd']
        exact h.skipGaps.stands ⟨rest, hrest, hhead⟩

/-- A token that ends before the next marked name is spelled by characters that both texts keep. -/
theorem At.token_kept {quote : Bool} {done more : List Part} {cs : List Char}
    (hat : g.At done (cs.map .kept ++ more) c c')
    (htoken : Syntax.token quote c.rest = Syntax.token quote cs)
    (htoken' : Syntax.token quote c'.rest = Syntax.token quote cs) :
    ∃ mid todo, g.At done (mid ++ todo) c c' ∧
      c.rest.take (Syntax.token quote c.rest).2 = before mid ∧
      c'.rest.take (Syntax.token quote c'.rest).2 = after mid := by
  have hrest := hat.rest
  have hrest' := hat.rest'
  have hsize := token_size_le quote cs
  generalize Syntax.token quote cs = t at *
  refine ⟨(cs.take t.2).map Part.kept, (cs.drop t.2).map Part.kept ++ more, ?_, ?_, ?_⟩
  · rw [← List.append_assoc, ← List.map_append, List.take_append_drop]
    exact hat
  · rw [htoken, hrest, before_append, before_map_kept, before_map_kept,
      List.take_append_of_le_length hsize]
  · rw [htoken', hrest', after_append, after_map_kept, after_map_kept,
      List.take_append_of_le_length hsize]

/-- Linked cursors that stand on a token of the text read the same one, or a marked name. -/
theorem Linked.token (h : g.Linked c c') (quote : Bool) :
    ∃ done mid todo, g.At done (mid ++ todo) c c' ∧
      c.rest.take (Syntax.token quote c.rest).2 = before mid ∧
      c'.rest.take (Syntax.token quote c'.rest).2 = after mid ∧
      ((Syntax.token quote c.rest).1 = (Syntax.token quote c'.rest).1 ∨
        ∃ old new, (Syntax.token quote c.rest).1 = .name old ∧
          (Syntax.token quote c'.rest).1 = .name new ∧ mid = [.renamed old new]) := by
  obtain ⟨done, todo, hat⟩ := h.place
  have hsound := hat.sound
  have hrest := hat.rest
  have hrest' := hat.rest'
  obtain ⟨cs, more, rfl, hmore⟩ := exists_run hsound
  -- No marked name follows, or one begins here, or there is a break before the next one, which no
  -- token goes beyond.
  rcases hmore with rfl | ⟨old, new, rest, rfl, rfl | ⟨pre, b, rfl, hb⟩⟩
  · rw [before_append, before_map_kept, before_nil, List.append_nil] at hrest
    rw [after_append, after_map_kept, after_nil, List.append_nil] at hrest'
    obtain ⟨mid, todo, hat, hmid, hmid'⟩ :=
      hat.token_kept (congrArg _ hrest) (congrArg _ hrest')
    exact ⟨done, mid, todo, hat, hmid, hmid', .inl (by rw [hrest, hrest'])⟩
  · obtain ⟨-, hold, hnew, hahead, -⟩ := hsound
    have hat₁ : g.At done ([.renamed old new] ++ rest) c c' := hat
    have hat' := hat₁.skip
    have hahead' : EqualsAhead (g.size + 1) (after rest) := by
      rw [← hat'.rest']
      refine (h.skip hat₁).equalsAhead ?_
      rw [hat'.rest]
      exact hahead
    rw [List.map_nil, List.nil_append, before_renamed] at hrest
    rw [List.map_nil, List.nil_append, after_renamed] at hrest'
    have htoken := token_name quote hold hahead
    have htoken' := token_name quote hnew hahead'
    refine ⟨done, [.renamed old new], rest, hat, ?_, ?_, .inr ⟨old, new, ?_, ?_, rfl⟩⟩
    · rw [hrest, htoken, List.take_left]
      simp
    · rw [hrest', htoken', List.take_left]
      simp
    · rw [hrest, htoken]
    · rw [hrest', htoken']
  · rw [before_append, before_map_kept, before_renamed, List.append_assoc] at hrest
    rw [after_append, after_map_kept, after_renamed, List.append_assoc] at hrest'
    have htoken : Syntax.token quote c.rest = Syntax.token quote (pre ++ [b]) := by
      rw [hrest]
      exact token_append quote pre hb
    have htoken' : Syntax.token quote c'.rest = Syntax.token quote (pre ++ [b]) := by
      rw [hrest']
      exact token_append quote pre hb
    obtain ⟨mid, todo, hat, hmid, hmid'⟩ := hat.token_kept htoken htoken'
    exact ⟨done, mid, todo, hat, hmid, hmid', .inl (by rw [htoken, htoken'])⟩

theorem barred_of_equalsAhead {c : Cursor} (hsize : c.size = g.size)
    (h : EqualsAhead (g.size + 1) c.rest) : Barred c := by
  rw [Barred, hsize]
  exact h

/-- Linked cursors read the same token, or a marked name. -/
theorem Linked.read (h : g.Linked c c') (e : Expect) : g.SameToken (c.read e) (c'.read e) := by
  have hsettle := h.settle e (c.size + 1)
  have hsize : c'.size = c.size := h.size'.trans h.size.symm
  cases hc : c.settle e (c.size + 1) with
  | mk o d =>
      cases hc' : c'.settle e (c.size + 1) with
      | mk o' d' =>
          rw [hc, hc'] at hsettle
          obtain ⟨heq, hlinked⟩ := hsettle
          have heq : o = o' := heq
          subst heq
          rw [← hsize] at hc'
          -- Either both stand before layout, which is no part of the text, or both before a token.
          cases o with
          | some t =>
              rw [read_of_layout hc, read_of_layout hc']
              obtain ⟨done, todo, hat⟩ := hlinked.place
              have hindents : indentsAfter t d.indents = indentsAfter t d'.indents := by
                rw [hlinked.indents]
              refine ⟨hlinked, hlinked.endToken hindents, ⟨done, [], todo, hat, ?_, rfl, rfl⟩,
                .inr ⟨.layout t, by simp, rfl, rfl⟩, .inl rfl⟩
              rw [List.append_nil]
              exact ⟨hat.parts, hat.rest, hat.rest', hat.offset, hat.offset'⟩
          | none =>
              rw [read_of_none hc, read_of_none hc']
              obtain ⟨done, mid, todo, hat, htext, htext', htoken⟩ := hlinked.token e.quote
              have hskip := hlinked.skip hat
              have hat' := hat.skip
              have hsound := hat.sound
              rw [← htext, ← htext'] at hskip hat'
              have hnext := hskip.endToken hskip.indents
              refine ⟨hlinked, hnext, ⟨done, mid, todo, hat, ?_, htext, htext'⟩, ?_, ?_⟩
              · exact ⟨hat'.parts, hat'.rest, hat'.rest', hat'.offset, hat'.offset'⟩
              · rcases htoken with heq | ⟨old, new, hold, hnew, -⟩
                · by_cases hname : ∃ n, (Syntax.token e.quote d.rest).1 = .name n
                  · obtain ⟨n, hn⟩ := hname
                    exact .inl ⟨n, n, hn, heq ▸ hn⟩
                  · exact .inr ⟨_, fun n hn => hname ⟨n, hn⟩, rfl, heq.symm⟩
                · exact .inl ⟨old, new, hold, hnew⟩
              · rcases htoken with heq | ⟨old, new, hold, hnew, rfl⟩
                · exact .inl heq
                · right
                  have hmarked : g.Marked
                      ⟨d.offset, (d.skip (tokenText e d)).offset⟩ old new := by
                    refine ⟨done, todo, hat.parts, hat.offset, hat'.offset.trans ?_⟩
                    rw [before_append, byteSize_append, before_renamed, before_nil, List.append_nil]
                  have hahead : EqualsAhead (g.size + 1) (before todo) := hsound.2.2.2.1
                  rw [← hat'.rest] at hahead
                  exact ⟨old, new, hold, hnew, hmarked, barred_of_equalsAhead hnext.size hahead,
                    barred_of_equalsAhead hnext.size' (hskip.equalsAhead hahead)⟩

/-! ## What a token says of the text around it -/

/-- An equals sign that no other one follows is a mark of its own. -/
theorem find_equals {rest : List Char} (h : rest.head? ≠ some '=') :
    (marks.find? fun (spelling, _) => spelling.isPrefixOf ('=' :: rest)) =
      some (['='], .equals) := by
  cases rest with
  | nil => rfl
  | cons c rest =>
      have hc : ¬ '=' = c := by
        rintro rfl
        exact h rfl
      simp [marks, List.isPrefixOf, hc]

theorem token_equals (quote : Bool) {rest : List Char} (h : rest.head? ≠ some '=') :
    (Syntax.token quote ('=' :: rest)).1 = .equals := by
  have hstart : isIdentifierStart '=' = false := isIdentifierStart_of_mem_separators _ (by decide)
  have hopening : (if quote then opening? { mark := '=', size := 0 } ('=' :: rest)
      else none) = none := by
    split
    · simp [opening?]
    · rfl
  have hnumber : number? ('=' :: rest) = none := by
    simp [number?, digitsSize]
  simp only [Syntax.token, hopening, hstart, hnumber, find_equals h, Bool.false_eq_true, if_false]

/-- Before an equals sign a reading finds it or layout. -/
theorem Barred.read (h : Barred c) (e : Expect) :
    ((c.read e).token = .equals ∨ ∃ t, (c.read e).token = .layout t) ∧ Barred (c.read e).here := by
  have hsettle := EqualsAhead.settle e h
  have hon := onward_settle e (c.size + 1) c
  cases hc : c.settle e (c.size + 1) with
  | mk o d =>
      rw [hc] at hsettle hon
      have hd : Barred d := by
        rw [Barred, hon.size]
        exact hsettle.1
      cases o with
      | some t =>
          rw [read_of_layout hc]
          exact ⟨.inr ⟨t, rfl⟩, hd⟩
      | none =>
          rw [read_of_none hc]
          obtain ⟨rest, hrest, hhead⟩ := hsettle.2 rfl
          refine ⟨.inl ?_, hd⟩
          show (Syntax.token e.quote d.rest).1 = _
          have hrest : d.rest = '=' :: rest := hrest
          rw [hrest, token_equals _ hhead]

theorem trivia_of_settle {e : Expect} {fuel : Nat} {d : Cursor}
    (h : c.settle e fuel = (none, d)) : trivia fuel c.rest = d.rest := by
  induction fuel generalizing c with
  | zero =>
      cases h
      rfl
  | succ fuel ih =>
      rw [settle_succ] at h
      rw [trivia_succ]
      split at h
      · cases h
      · split at h
        · exact ih h
        · cases h
          rfl

/-- The possible tokens, by the way they are read. -/
theorem token_cases (quote : Bool) (cs : List Char) :
    (cs = [] ∧ Syntax.token quote cs = (.endOfText, 0)) ∨
    (∃ c rest s, cs = c :: rest ∧ opening? { mark := c, size := 0 } cs = some s ∧
      Syntax.token quote cs = (.quote s, s.size)) ∨
    (∃ c rest, cs = c :: rest ∧ isIdentifierStart c = true ∧
      ((∃ w, words.lookup (c :: rest.takeWhile isIdentifierPart) = some w ∧
          Syntax.token quote cs = (.word w, (c :: rest.takeWhile isIdentifierPart).length)) ∨
        words.lookup (c :: rest.takeWhile isIdentifierPart) = none ∧
          Syntax.token quote cs = (.name (c :: rest.takeWhile isIdentifierPart),
            (c :: rest.takeWhile isIdentifierPart).length))) ∨
    (∃ t n, number? cs = some (t, n) ∧ Syntax.token quote cs = (t, n)) ∨
    (∃ m, mark? cs = some m ∧ Syntax.token quote cs = (m.2, m.1.length)) ∨
    Syntax.token quote cs = (.unknown, 0) := by
  cases cs with
  | nil => exact .inl ⟨rfl, rfl⟩
  | cons c rest =>
      right
      rw [Syntax.token]
      split
      · rename_i s hs
        cases quote with
        | false => cases hs
        | true => exact .inl ⟨c, rest, s, rfl, hs, rfl⟩
      · right
        split
        · rename_i hstart
          refine .inl ⟨c, rest, rfl, hstart, ?_⟩
          dsimp only
          split
          · rename_i w hw
            exact .inl ⟨w, hw, rfl⟩
          · rename_i hw
            exact .inr ⟨hw, rfl⟩
        · right
          split
          · rename_i t n hnumber
            exact .inl ⟨t, n, hnumber, rfl⟩
          · right
            split
            · rename_i spelling t hmark
              exact .inl ⟨(spelling, t), hmark, rfl⟩
            · exact .inr rfl

theorem number?_token {cs : List Char} {t : Token} {n : Nat} (h : number? cs = some (t, n)) :
    t = .integer ∨ t = .float := by
  simp only [number?] at h
  split at h
  · split at h
    · cases h
    · cases h
      exact .inr rfl
  · split at h
    · cases h
    · split at h
      · cases h
        exact .inr rfl
      · split at h
        · cases h
          exact .inl rfl
        · cases h
          exact .inl rfl

theorem opening?_mark {s t : StringOpening} {cs : List Char} (h : opening? s cs = some t) :
    t.mark = '"' ∨ t.mark = '\'' ∨ t.mark = '\x60' := by
  induction cs generalizing s with
  | nil => cases h
  | cons c cs ih =>
      simp only [opening?] at h
      split at h
      · exact ih h
      · split at h
        · exact ih h
        · split at h
          · exact ih h
          · split at h
            · exact ih h
            · split at h
              · rename_i hback
                cases h
                exact .inr (.inr hback)
              · split at h
                · rename_i hquote
                  have hmark : c = '"' ∨ c = '\'' ∨ c = '\x60' := by
                    simp only [Bool.or_eq_true, decide_eq_true_eq] at hquote
                    rcases hquote with hc | hc
                    · exact .inr (.inl hc)
                    · exact .inl hc
                  split at h
                  · split at h
                    · cases h
                      exact hmark
                    · cases h
                      exact hmark
                  · cases h
                    exact hmark
                · cases h

/-- The spelling of a mark is that of its token. -/
theorem mark?_spelling {cs : List Char} {m : List Char × Token} (h : mark? cs = some m) :
    m ∈ marks ∧ ∃ rest, cs = m.1 ++ rest := by
  have hprefix := List.find?_some h
  obtain ⟨rest, hrest⟩ := List.isPrefixOf_iff_prefix.1 hprefix
  exact ⟨List.mem_of_find?_eq_some h, rest, hrest.symm⟩

/-- The spelling of a token of one mark. -/
def spelling? (t : Token) : Option (List Char) :=
  match t with
  | .openParen => some ['(']
  | .comma => some [',']
  | .equals => some ['=']
  | _ => none

theorem token_spelling {quote : Bool} {cs spelling : List Char}
    (h : spelling? (Syntax.token quote cs).1 = some spelling) :
    cs.take (Syntax.token quote cs).2 = spelling ∧ ∃ rest, cs = spelling ++ rest := by
  rcases token_cases quote cs with ⟨-, ht⟩ | ⟨c, rest, s, -, -, ht⟩ | ⟨c, rest, -, -, ht⟩ |
    ⟨t, n, hnumber, ht⟩ | ⟨m, hm, ht⟩ | ht
  · rw [ht] at h
    cases h
  · rw [ht] at h
    cases h
  · rcases ht with ⟨w, -, ht⟩ | ⟨-, ht⟩
    · rw [ht] at h
      cases h
    · rw [ht] at h
      cases h
  · rw [ht] at h
    rcases number?_token hnumber with rfl | rfl
    · cases h
    · cases h
  · obtain ⟨hmem, rest, hrest⟩ := mark?_spelling hm
    rw [ht] at h ⊢
    have hall : ∀ m ∈ marks, ∀ s ∈ spelling? m.2, m.1 = s := by decide
    have hsame := hall m hmem spelling h
    rw [hrest]
    exact ⟨by rw [List.take_left, hsame], rest, by rw [hsame]⟩
  · rw [ht] at h
    cases h

theorem find_comparison (rest : List Char) :
    (marks.find? fun (spelling, _) => spelling.isPrefixOf ('=' :: '=' :: rest)) =
      some (['=', '='], .comparison) := by
  simp [marks, List.isPrefixOf]

theorem token_comparison (quote : Bool) (rest : List Char) :
    (Syntax.token quote ('=' :: '=' :: rest)).1 = .comparison := by
  have hstart : isIdentifierStart '=' = false := isIdentifierStart_of_mem_separators _ (by decide)
  have hopening : (if quote then opening? { mark := '=', size := 0 } ('=' :: '=' :: rest)
      else none) = none := by
    split
    · simp [opening?]
    · rfl
  have hnumber : number? ('=' :: '=' :: rest) = none := by
    simp [number?, digitsSize]
  simp only [Syntax.token, hopening, hstart, hnumber, find_comparison, Bool.false_eq_true,
    if_false]

/-- A token that is none of the layout is the one at the place that the reading settles on. -/
theorem read_token {e : Expect} (h : ∀ t, (c.read e).token ≠ .layout t) :
    c.settle e (c.size + 1) = (none, (c.read e).here) ∧
      (c.read e).token = (Syntax.token e.quote (c.read e).here.rest).1 ∧
      (c.read e).text = tokenText e (c.read e).here := by
  cases hc : c.settle e (c.size + 1) with
  | mk o d =>
      cases o with
      | some t =>
          rw [read_of_layout hc] at h
          exact absurd rfl (h t)
      | none =>
          rw [read_of_none hc]
          exact ⟨rfl, rfl, rfl⟩

theorem barred_of_read {e : Expect} (h : (c.read e).token = .equals) : Barred c := by
  obtain ⟨hsettle, htoken, -⟩ := read_token (c := c) (e := e) (by rw [h]; simp)
  rw [h] at htoken
  have hspelling : spelling? (Syntax.token e.quote (c.read e).here.rest).1 = some ['='] := by
    rw [← htoken]
    rfl
  obtain ⟨-, rest, hrest⟩ := token_spelling hspelling
  refine ⟨rest, ?_, ?_⟩
  · rw [trivia_of_settle hsettle, hrest]
    rfl
  · intro hhead
    cases rest with
    | nil => cases hhead
    | cons x rest =>
        cases hhead
        rw [hrest, List.singleton_append, token_comparison] at htoken
        cases htoken

theorem take_name (c : Char) (rest : List Char) :
    (c :: rest).take (c :: rest.takeWhile isIdentifierPart).length =
      c :: rest.takeWhile isIdentifierPart := by
  rw [List.length_cons, List.take_succ_cons]
  congr 1
  exact (List.prefix_iff_eq_take.1 (List.takeWhile_prefix _)).symm

/-- A string begins with its quotation mark, and a name or a word goes on as long as it can.  No
number and no other mark is one of these tokens. -/
theorem token_spelled {quote : Bool} {cs : List Char} {t : Token} (h : t = (Syntax.token quote cs).1)
    (ht : (∃ s, t = .quote s) ∨ (∃ w, t = .word w) ∨ ∃ name, t = .name name) :
    (∃ first s, opening? first cs = some s ∧ t = .quote s) ∨
      ∃ x rest, cs = x :: rest ∧ isIdentifierStart x = true ∧
        cs.take (Syntax.token quote cs).2 = x :: rest.takeWhile isIdentifierPart ∧
        ((∃ w, words.lookup (x :: rest.takeWhile isIdentifierPart) = some w ∧ t = .word w) ∨
          words.lookup (x :: rest.takeWhile isIdentifierPart) = none ∧
            t = .name (x :: rest.takeWhile isIdentifierPart)) := by
  rcases token_cases quote cs with ⟨-, htoken⟩ | ⟨c, rest, s, -, hs, htoken⟩ |
    ⟨x, rest, rfl, hstart, ⟨w, hword, htoken⟩ | ⟨hword, htoken⟩⟩ | ⟨u, n, hnumber, htoken⟩ |
    ⟨m, hm, htoken⟩ | htoken
  all_goals rw [htoken] at h
  · subst h
    simp at ht
  · exact .inl ⟨_, s, hs, h⟩
  · refine .inr ⟨x, rest, rfl, hstart, ?_, .inl ⟨w, hword, h⟩⟩
    rw [htoken]
    exact take_name x rest
  · refine .inr ⟨x, rest, rfl, hstart, ?_, .inr ⟨hword, h⟩⟩
    rw [htoken]
    exact take_name x rest
  · subst h
    rcases number?_token hnumber with rfl | rfl <;> simp at ht
  · have hall : ∀ m ∈ marks, ¬ ((∃ s, m.2 = .quote s) ∨ (∃ w, m.2 = .word w) ∨
        ∃ name, m.2 = .name name) := by
      simp [marks]
    rw [h] at ht
    exact absurd ht (hall m (mark?_spelling hm).1)
  · subst h
    simp at ht

/-- A name is written as it is read, and it is a plain one. -/
theorem read_name {e : Expect} {name : List Char} (h : (c.read e).token = .name name) :
    (c.read e).text = name ∧ isPlainName name = true := by
  obtain ⟨-, htoken, htext⟩ := read_token (c := c) (e := e) (by rw [h]; simp)
  rw [h] at htoken
  rcases token_spelled htoken (.inr (.inr ⟨name, rfl⟩)) with
    ⟨-, s, -, hs⟩ | ⟨x, rest, -, hstart, hsize, ⟨w, -, hw⟩ | ⟨hword, hname⟩⟩
  · cases hs
  · cases hw
  · cases hname
    rw [htext, tokenText, hsize]
    exact ⟨rfl, by simp [isPlainName, hstart, hword]⟩

theorem read_word {e : Expect} {w : Word} (h : (c.read e).token = .word w) :
    words.lookup (c.read e).text = some w := by
  obtain ⟨-, htoken, htext⟩ := read_token (c := c) (e := e) (by rw [h]; simp)
  rw [h] at htoken
  rcases token_spelled htoken (.inr (.inl ⟨w, rfl⟩)) with
    ⟨-, s, -, hs⟩ | ⟨x, rest, -, -, hsize, ⟨w', hword, hw⟩ | ⟨-, hname⟩⟩
  · cases hs
  · cases hw
    rw [htext, tokenText, hsize]
    exact hword
  · cases hname

theorem read_quote {e : Expect} {s : StringOpening} (h : (c.read e).token = .quote s) :
    s.mark = '"' ∨ s.mark = '\'' ∨ s.mark = '\x60' := by
  obtain ⟨-, htoken, -⟩ := read_token (c := c) (e := e) (by rw [h]; simp)
  rw [h] at htoken
  rcases token_spelled htoken (.inl ⟨s, rfl⟩) with
    ⟨_, s', hopening, heq⟩ | ⟨x, rest, -, -, -, ⟨w, -, hw⟩ | ⟨-, hname⟩⟩
  · cases heq
    exact opening?_mark hopening
  · cases hw
  · cases hname

theorem AtOpening.read (h : g.AtOpening c) (hl : g.Linked c c') (e : Expect) :
    g.AtOpening (c.read e).here := by
  rw [(read_spec c e).1]
  exact h.settle hl e _

/-- Behind an opening bracket or a comma a name may be marked. -/
theorem atOpening_next (hl : g.Linked c c') {e : Expect}
    (h : (c.read e).token = .openParen ∨ (c.read e).token = .comma) :
    g.AtOpening (c.read e).next := by
  obtain ⟨-, htoken, htext⟩ := read_token (c := c) (e := e) (by rcases h with h | h <;> simp [h])
  -- The token is one character that breaks names, so it is kept and no name reaches into it.
  obtain ⟨b, hb, hspelling⟩ : ∃ b, isBreak b = true ∧
      spelling? (Syntax.token e.quote (c.read e).here.rest).1 = some [b] := by
    rw [← htoken]
    rcases h with h | h
    · exact ⟨'(', by decide, by rw [h]; rfl⟩
    · exact ⟨',', by decide, by rw [h]; rfl⟩
  obtain ⟨htake, -⟩ := token_spelling hspelling
  obtain ⟨done, mid, todo, hat, hat', hmid, -⟩ := (hl.read e).text
  rw [hat'.atOpening_iff]
  left
  rw [htext, tokenText, htake] at hmid
  cases mid with
  | nil => cases hmid
  | cons p mid =>
      cases p with
      | renamed old new =>
          have hold := hat.sound.2.1
          obtain ⟨y, ys, rfl, hy, -⟩ := exists_of_isPlainName hold
          rw [before_renamed, List.cons_append, List.cons.injEq] at hmid
          have := isNameChar_eq_false_of_isBreak hb
          rw [hmid.1, isNameChar_of_start hy] at this
          cases this
      | kept x =>
          rw [before_kept, List.cons.injEq] at hmid
          obtain ⟨rfl, hrest⟩ := hmid
          cases mid with
          | nil =>
              rw [opens_append]
              exact hb
          | cons q mid =>
              have hparts : g.parts = (done ++ [.kept b]) ++ ((q :: mid) ++ todo) := by
                rw [hat.parts]
                simp
              have := (g.sizes_pos_of_mid hparts (by simp)).1
              rw [← hrest] at this
              simp at this

/-! ## Lexemes of a draft -/

/-- Whether two lexemes are read at one place of a draft. -/
structure Lexed (g : Draft) (l l' : Lexeme) : Prop extends g.SameToken l l' where
  here_le : l.here.offset ≤ l.next.offset
  ends : l.next.last = l.next.offset
  name : ∀ n, l.token = .name n → l.text = n ∧ isPlainName n = true
  word : ∀ w, l.token = .word w → words.lookup l.text = some w
  quote : ∀ s, l.token = .quote s → s.mark = '"' ∨ s.mark = '\'' ∨ s.mark = '\x60'
  opening : l.token = .openParen ∨ l.token = .comma → g.AtOpening l.next

theorem Linked.lexed (h : g.Linked c c') (e : Expect) : g.Lexed (c.read e) (c'.read e) where
  toSameToken := h.read e
  here_le := (read_spec c e).2.2.2.1
  ends := (read_spec c e).2.2.1
  name _ hn := read_name hn
  word _ hw := read_word hw
  quote _ hs := read_quote hs
  opening hopen := atOpening_next h hopen

namespace Lexed

variable {l l' : Lexeme}

theorem start (h : g.Lexed l l') : g.Cut l.start l'.start :=
  h.here.cut

theorem start_le (h : g.Lexed l l') : l.start ≤ l.next.offset :=
  h.here_le

/-- A name or a word takes up room. -/
theorem start_lt (h : g.Lexed l l') (hname : l.token.isName = true ∨ ∃ w, l.token = .word w) :
    l.start < l.next.offset := by
  obtain ⟨done, mid, todo, hat, hat', htext, -⟩ := h.text
  have hne : mid ≠ [] := by
    rintro rfl
    rcases hname with hname | ⟨w, hw⟩
    · cases htoken : l.token with
      | name n =>
          obtain ⟨hn, hplain⟩ := h.name n htoken
          rw [htext] at hn
          subst hn
          cases hplain
      | _ =>
          rw [htoken] at hname
          cases hname
    · have hlookup := h.word w hw
      rw [htext] at hlookup
      cases hlookup
  have := (g.sizes_pos_of_mid hat.parts hne).1
  show l.here.offset < l.next.offset
  rw [hat.offset, hat'.offset, before_append, byteSize_append]
  omega

end Lexed

end Longhand.Draft
