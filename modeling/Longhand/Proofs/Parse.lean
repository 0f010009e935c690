import Longhand.Proofs.Grammar.Statement
import Longhand.Syntax.Fault

/-!
# Texts of a draft

All rules of the grammar agree on the two texts of a draft, save for leaves astray.  So a text is
read like the other one of its draft, line by line and with line ends supplied at the same places.
-/

namespace Longhand.Draft

open Syntax Text

variable {g : Draft}

/-! ## The rules -/

theorem rulesTo_locked (g : Draft) (depth : Nat) : g.Locked (rulesTo depth) := by
  -- By induction on the depth: the rules of one depth read by means of those of the depth below.
  induction depth with
  | zero =>
      refine ⟨⟨fun r _ c c' h => .error h.furthest, fun c c' h _ => .error h.furthest⟩,
        fun r _ c c' h => .agree (.error h.furthest), fun r _ c old new _ => .error,
        fun r _ c _ => .error⟩
  | succ depth ih =>
      have hr := ih.toLockstep
      have strict : ∀ r, isExpressionRule r = true → ∀ c c', g.Linked c c' →
          Agree g c (g.Grown c) (rulesTo (depth + 1) r c) (rulesTo (depth + 1) r c') := by
        intro r hstrict c c' h
        cases r with
        | expression f => exact expression_agrees hr f h
        | level f n => exact levelExpression_agrees hr f n h
        | yield f => exact yieldExpression_agrees hr f h
        | type f => exact typeAnnotation_agrees hr f h
        | assigned => exact assigned_agrees hr h
        | braced => cases hstrict
        | casePattern f => cases hstrict
        | simplePattern f => cases hstrict
        | suite => cases hstrict
      refine ⟨⟨strict, fun c c' h hhead => braced_agrees hr h hhead⟩, ?_, ?_, ?_⟩
      · intro r hne c c' h
        cases r with
        | casePattern f => exact casePattern_tends ih f h
        | simplePattern f => exact simplePattern_tends ih f h
        | suite => exact suite_tends ih h
        | braced => exact absurd rfl hne
        | _ => exact .agree (strict _ rfl c c' h)
      · intro r hpattern c old new h
        cases r with
        | casePattern f => exact casePattern_gives ih h f
        | simplePattern f => exact simplePattern_gives h f
        | _ => cases hpattern
      · intro r hpattern c h
        cases r with
        | casePattern f => exact casePattern_barred ih h f
        | simplePattern f => exact simplePattern_barred h f
        | _ => cases hpattern

/-! ## The bound on the tokens -/

theorem tokenBound_name {name : List Char} (h : isPlainName name = true) (rest : List Char) :
    tokenBound false (name ++ rest) = tokenBound true rest + 1 := by
  obtain ⟨c, cs, rfl, hstart, hrest, -⟩ := exists_of_isPlainName h
  have hparts : tokenBound true (cs ++ rest) = tokenBound true rest := by
    clear h
    induction cs with
    | nil => rfl
    | cons d cs ih =>
        have hd : isIdentifierPart d = true := hrest d (by simp)
        rw [List.cons_append, tokenBound, hd]
        exact ih fun x hx => hrest x (by simp [hx])
  simp [tokenBound, hstart, hparts]

/-- The two texts of a draft have the same bound. -/
theorem tokenBound_before_after {fuel : Nat} {free inName : Bool} {todo : List Part}
    (h : Sound fuel free todo) (hfree : free = true → inName = false) :
    tokenBound inName (before todo) = tokenBound inName (after todo) := by
  induction todo generalizing free inName with
  | nil => rfl
  | cons p todo ih =>
      cases p with
      | kept c =>
          have hbreak : isBreak c = true → isIdentifierStart c = false := by
            intro hc
            have hname := isNameChar_eq_false_of_isBreak hc
            rw [isNameChar, Bool.or_eq_false_iff] at hname
            exact hname.1
          have hpart : isBreak c = true → isIdentifierPart c = false := by
            intro hc
            have hname := isNameChar_eq_false_of_isBreak hc
            rw [isNameChar, Bool.or_eq_false_iff] at hname
            exact hname.2
          rw [before_kept, after_kept, tokenBound, tokenBound]
          split
          · rename_i hin
            refine ih h fun hc => ?_
            rw [hpart hc, Bool.and_false] at hin
            cases hin
          · rw [ih h hbreak]
      | renamed old new =>
          obtain ⟨hopen, hold, hnew, -, hrest⟩ := h
          rw [hfree hopen, before_renamed, after_renamed, tokenBound_name hold,
            tokenBound_name hnew, ih hrest fun hfalse => absurd hfalse Bool.false_ne_true]

theorem tokenBound_after (g : Draft) : tokenBound false (after g.parts) = g.size :=
  (tokenBound_before_after g.sound fun hfalse => nomatch hfalse).symm

/-! ## Whole texts -/

/-- Whether line ends are supplied at the same places of the two texts. -/
def Supplied (g : Draft) (s s' : List Nat) : Prop :=
  ∀ o o', g.Cut o o' → (o ∈ s ↔ o' ∈ s')

theorem Supplied.nil : g.Supplied [] [] :=
  fun _ _ _ => ⟨fun h => (nomatch h), fun h => nomatch h⟩

theorem Supplied.cons {s s' : List Nat} (h : g.Supplied s s') {o o' : Nat} (ho : g.Cut o o') :
    g.Supplied (o :: s) (o' :: s') := by
  intro n n' hn
  rw [List.mem_cons, List.mem_cons, hn.eq_iff ho, h n n' hn]

theorem linked_ofText {s s' : List Nat} (h : g.Supplied s s') :
    g.Linked (Cursor.ofText (before g.parts) s) (Cursor.ofText (after g.parts) s') where
  size := rfl
  size' := g.tokenBound_after
  place := ⟨[], g.parts, rfl, rfl, rfl, rfl, rfl⟩
  last := .zero g
  last_le := Nat.le_refl _
  indents := rfl
  inFormat := rfl
  supplied := h
  furthest := .zero g

/-- Whether two readings of whole texts both fail at one place or yield a row. -/
inductive Alike (g : Draft) : Except Nat (List Tree) → Except Nat (List Tree) → Prop
  | ok {ts ts' : List Tree} :
      g.Row 0 (byteSize (before g.parts)) ts ts' → Alike g (.ok ts) (.ok ts')
  | error {e e' : Nat} : g.Cut e e' → Alike g (.error e) (.error e')

theorem wholeText_tends {rules : Rules} (hr : g.Locked rules) {c c' : Cursor}
    (h : g.Linked c c') :
    Tends g c (fun ts ts' _ => g.Row 0 (byteSize (before g.parts)) ts ts') g.StrayIn
      (wholeText rules c) (wholeText rules c') := by
  unfold wholeText
  refine .bind (statements_tends hr h) (.refl c) ?_ fun ts hts => .bind fun _ => .pure hts
  intro ts ts' d d' hd hcd _ hts
  refine .expect (fun _ _ => rfl) hd hcd ?_
  intro l l' e e' _ _ he hce hbehind
  have hle : e.last ≤ byteSize (before g.parts) := by
    obtain ⟨done, todo, hat⟩ := he.place
    have hlast := he.last_le
    rw [hat.offset] at hlast
    rw [hat.parts, before_append, byteSize_append]
    omega
  have hrow := hts.from hbehind.reaches (Nat.zero_le _) (Nat.zero_le _)
  exact .pure he hce (hrow.widen (Nat.le_refl _) hle)

/-- The readings of the two texts are alike, unless a leaf is astray. -/
theorem moduleItems_alike {s s' : List Nat} (h : g.Supplied s s') :
    g.Alike (moduleItems (before g.parts) s) (moduleItems (after g.parts) s') ∨
      ¬ g.Regular ∧ ∀ ts, moduleItems (before g.parts) s = .ok ts → g.StrayIn ts := by
  have hsize : tokenBound false (after g.parts) = tokenBound false (before g.parts) :=
    g.tokenBound_after
  have htends := wholeText_tends (rulesTo_locked g (4 * tokenBound false (before g.parts) + 16))
    (linked_ofText h)
  unfold moduleItems
  rw [hsize]
  generalize wholeText _ (Cursor.ofText (before g.parts) s) = r at htends
  generalize wholeText _ (Cursor.ofText (after g.parts) s') = r' at htends
  cases htends with
  | agree hagree =>
      left
      cases hagree with
      | ok _ _ hrow => exact .ok hrow
      | error hcut => exact .error hcut
  | astray hodd hstray =>
      refine .inr ⟨hodd, ?_⟩
      intro ts hok
      cases r with
      | error e => cases hok
      | ok q =>
          cases hok
          exact hstray q.1 q.2 rfl

/-! ## Supplied line ends -/

theorem supplyEnds_next {source : List Char} {bound furthest : Nat} {s : List Nat}
    {ts : List Tree} (h : supplyEnds source (bound + 1) s (.error furthest) = some ts) :
    supplyEnds source bound (furthest :: s) (moduleItems source (furthest :: s)) = some ts := by
  rw [supplyEnds] at h
  exact (Option.ite_none_right_eq_some.1 h).2

/-- Two texts that are both read in the end, with line ends supplied, yield a row. -/
theorem supplyEnds_row (hregular : g.Regular) {bound : Nat} {s s' : List Nat}
    (hs : g.Supplied s s') {r r' : Except Nat (List Tree)} (hr : g.Alike r r') {ts ts' : List Tree}
    (h : supplyEnds (before g.parts) bound s r = some ts)
    (h' : supplyEnds (after g.parts) bound s' r' = some ts') :
    g.Row 0 (byteSize (before g.parts)) ts ts' := by
  induction bound generalizing s s' r r' with
  | zero =>
      cases hr with
      | ok hrow =>
          cases h
          cases h'
          exact hrow
      | error => cases h
  | succ bound ih =>
      cases hr with
      | ok hrow =>
          cases h
          cases h'
          exact hrow
      | error hcut =>
          have hs := hs.cons hcut
          rcases moduleItems_alike hs with halike | ⟨hodd, -⟩
          · exact ih hs halike (supplyEnds_next h) (supplyEnds_next h')
          · exact absurd hregular hodd

/-! ## Trees of texts -/

theorem Cut.end (g : Draft) :
    g.Cut (byteSize (before g.parts)) (byteSize (after g.parts)) :=
  ⟨g.parts, [], by simp, rfl, rfl⟩

theorem twin_module {ts ts' : List Tree}
    (h : g.Row 0 (byteSize (before g.parts)) ts ts') :
    g.Twin (.node .module none ⟨0, byteSize (before g.parts)⟩ "" ts)
      (.node .module none ⟨0, byteSize (after g.parts)⟩ "" ts') :=
  .ofRow (.zero g) (.end g) trivial h

end Longhand.Draft

namespace Longhand.Syntax

/-- Whether a text is read as it stands, without supplied line ends. -/
def ReadsAsIs (source : List Char) : Prop :=
  ∃ ts, moduleItems source [] = .ok ts

/-- Whether a text is read at all. -/
def Reads (source : List Char) : Prop :=
  ∃ ts, supplyEnds source (tokenBound false source) [] (moduleItems source []) = some ts

theorem parse_of_supplyEnds {source : List Char} {ts : List Tree}
    (h : supplyEnds source (tokenBound false source) [] (moduleItems source []) = some ts) :
    parse source = .node .module none ⟨0, Text.byteSize source⟩ "" ts := by
  rw [parse, h]

theorem supplyEnds_of_moduleItems {source : List Char} {ts : List Tree}
    (h : moduleItems source [] = .ok ts) :
    supplyEnds source (tokenBound false source) [] (moduleItems source []) = some ts := by
  rw [h]
  cases tokenBound false source <;> rfl

theorem ReadsAsIs.reads {source : List Char} (h : ReadsAsIs source) : Reads source := by
  obtain ⟨ts, hts⟩ := h
  exact ⟨ts, supplyEnds_of_moduleItems hts⟩

/-- The tree of a text that cannot be read is one error over all of it. -/
theorem parse_of_not_reads {source : List Char} (h : ¬ Reads source) :
    parse source = .node .module none ⟨0, Text.byteSize source⟩ ""
      [.node .error none ⟨0, Text.byteSize source⟩ "" []] := by
  cases hs : supplyEnds source (tokenBound false source) [] (moduleItems source []) with
  | none => rw [parse, hs]
  | some items => exact absurd ⟨items, hs⟩ h

theorem parse_span (source : List Char) : (parse source).span = ⟨0, Text.byteSize source⟩ := by
  unfold parse
  dsimp only
  split <;> rfl

/-- An accepted text is one that is read. -/
theorem reads_of_parseChecked {source : List Char} {t : Tree} (h : parseChecked source = .ok t) :
    Reads source ∧ parse source = t := by
  unfold parseChecked at h
  cases hparse : supplyEnds source (tokenBound false source) [] (moduleItems source []) with
  | some ts =>
      refine ⟨⟨ts, hparse⟩, ?_⟩
      dsimp only at h
      split at h
      · cases h
      · exact Except.ok.inj h
  | none =>
      rw [show parse source = .node .module none ⟨0, Text.byteSize source⟩ ""
        [.node .error none ⟨0, Text.byteSize source⟩ "" []] by rw [parse, hparse]] at h
      cases h

/-- A text whose tree has no fault is accepted. -/
theorem parseChecked_of_faultless {source : List Char}
    (h : (parse source).firstFault? 0 = none) : parseChecked source = .ok (parse source) := by
  simp only [parseChecked, h]

/-- What holds of the faultless tree of a text holds of the tree that the text is accepted with. -/
theorem exists_parseChecked {source : List Char} {P : Tree → Prop}
    (h : (parse source).firstFault? 0 = none ∧ P (parse source)) :
    ∃ t, parseChecked source = .ok t ∧ P t :=
  ⟨parse source, parseChecked_of_faultless h.1, h.2⟩

end Longhand.Syntax

namespace Longhand.Draft

open Syntax Text

variable {g : Draft}

/-- Two texts of a draft that are both read have twin trees. -/
theorem parse_twin_of_regular (hregular : g.Regular) (h : Reads (before g.parts))
    (h' : Reads (after g.parts)) : g.Twin (parse (before g.parts)) (parse (after g.parts)) := by
  obtain ⟨ts, hts⟩ := h
  obtain ⟨ts', hts'⟩ := h'
  rw [parse_of_supplyEnds hts, parse_of_supplyEnds hts']
  refine twin_module ?_
  rw [g.tokenBound_after] at hts'
  rcases moduleItems_alike (Supplied.nil (g := g)) with halike | ⟨hodd, -⟩
  · exact supplyEnds_row hregular .nil halike hts hts'
  · exact absurd hregular hodd

/-- A text that is read as it stands has a leaf astray, or the other text of its draft is read as it
stands too and has a twin tree. -/
theorem parse_twin_of_readsAsIs (h : ReadsAsIs (before g.parts)) :
    g.Stray (parse (before g.parts)) ∨ (ReadsAsIs (after g.parts) ∧
      g.Twin (parse (before g.parts)) (parse (after g.parts))) := by
  obtain ⟨ts, hts⟩ := h
  rw [parse_of_supplyEnds (supplyEnds_of_moduleItems hts)]
  rcases moduleItems_alike (Supplied.nil (g := g)) with halike | ⟨-, hstray⟩
  · right
    rw [hts] at halike
    cases hts' : moduleItems (after g.parts) [] with
    | error e =>
        rw [hts'] at halike
        cases halike
    | ok ts' =>
        rw [hts'] at halike
        cases halike with
        | ok hrow =>
            rw [parse_of_supplyEnds (supplyEnds_of_moduleItems hts')]
            exact ⟨⟨ts', hts'⟩, twin_module hrow⟩
  · left
    obtain ⟨t, ht, hstray⟩ := hstray ts hts
    exact .inside ht hstray

/-! ## One text -/

@[simp] theorem before_ofText (cs : List Char) : before (ofText cs).parts = cs :=
  before_map_kept cs

@[simp] theorem after_ofText (cs : List Char) : after (ofText cs).parts = cs :=
  after_map_kept cs

theorem not_marked_ofText (cs : List Char) (s : Span) (old new : List Char) :
    ¬ (ofText cs).Marked s old new := by
  rintro ⟨done, todo, hparts, -⟩
  have hmem : Part.renamed old new ∈ cs.map Part.kept := by
    rw [show cs.map Part.kept = done ++ .renamed old new :: todo from hparts]
    simp
  simp at hmem

theorem regular_ofText (cs : List Char) : (ofText cs).Regular :=
  fun s old new h => absurd h (not_marked_ofText cs s old new)

/-- The tree of a text that is read is its own twin: its nodes cover stretches of the text, in order,
and have children of the right form. -/
theorem twin_parse {source : List Char} (h : Reads source) :
    (ofText source).Twin (parse source) (parse source) := by
  have htwin := parse_twin_of_regular (regular_ofText source) (by rwa [before_ofText])
    (by rwa [after_ofText])
  rwa [before_ofText, after_ofText] at htwin

end Longhand.Draft
