import Longhand.Diff.Lines
import Longhand.Proofs.Rewritten
import Longhand.Text.Split

/-!
# Lines of a rewritten text

A rewriting keeps the number of lines, and the lines that it changes are those that its renames
report.  Several renames on one line never cancel each other: the first name that is replaced ends
before a character that is no part of a flag, so the two spellings of the line part there.
-/

namespace Longhand

namespace Text

variable {separator : Char}

theorem splitOn_cons_self (cs : List Char) :
    splitOn separator (separator :: cs) = [] :: splitOn separator cs := by
  simp [splitOn]

/-- A text without separators in front of another one belongs to its first part. -/
theorem splitOn_append_of_notMem {a cs first : List Char} {rest : List (List Char)}
    (ha : separator ∉ a) (hcs : splitOn separator cs = first :: rest) :
    splitOn separator (a ++ cs) = (a ++ first) :: rest := by
  induction a with
  | nil => exact hcs
  | cons c a ih =>
      obtain ⟨hne, ha⟩ : c ≠ separator ∧ separator ∉ a := by
        simpa [eq_comm] using ha
      rw [List.cons_append, splitOn, if_neg (by simpa using hne), ih ha]
      rfl

/-- The first part begins as the text does, unless it is empty. -/
theorem head?_of_splitOn {cs first : List Char} {rest : List (List Char)} {c : Char}
    (hcs : splitOn separator cs = first :: rest) (hc : first.head? = some c) :
    cs.head? = some c := by
  cases cs with
  | nil =>
      cases hcs
      cases hc
  | cons d cs =>
      by_cases hd : d = separator
      · subst hd
        rw [splitOn_cons_self] at hcs
        cases hcs
        cases hc
      · obtain ⟨first', rest', hsplit⟩ :=
          List.exists_cons_of_ne_nil (splitOn_ne_nil separator cs)
        have h := splitOn_append_of_notMem (a := [d]) (by simpa using Ne.symm hd) hsplit
        rw [List.singleton_append, hcs] at h
        cases h
        exact hc

/-- The line of the place behind a text is that of its beginning and the line feeds in between. -/
theorem advance_line (p : Position) (a b : List Char) :
    (p.advance (a ++ b) (byteSize a)).line = p.line + a.count '\n' := by
  induction a generalizing p with
  | nil => cases b <;> simp [Position.advance]
  | cons c a ih =>
      have hpos := c.utf8Size_pos
      obtain ⟨m, hm⟩ : ∃ m, byteSize (c :: a) = m + 1 :=
        ⟨byteSize (c :: a) - 1, by rw [byteSize_cons]; omega⟩
      have hrest : m + 1 - c.utf8Size = byteSize a := by
        rw [← hm, byteSize_cons]
        omega
      rw [hm, List.cons_append, Position.advance, hrest, ih, List.count_cons]
      by_cases hfeed : c = '\n'
      · subst hfeed
        simp
        omega
      · simp [hfeed]

end Text

open Text

namespace Draft

variable {parts rest : List Part} {old new : List Char} {k : Nat}

/-! ## Words apart -/

theorem newline_mem_enders : '\n' ∈ Flag.enders := by
  simp [Flag.enders, breaks]

theorem return_mem_enders : '\r' ∈ Flag.enders := by
  simp [Flag.enders, breaks]

/-- Both texts begin with the same character where it is no part of a word. -/
theorem head?_before_after (h : Distinct parts) {c : Char} (hc : c ∈ Flag.enders) :
    (before parts).head? = some c ↔ (after parts).head? = some c := by
  cases parts with
  | nil => rfl
  | cons p rest =>
      cases p with
      | kept d => rfl
      | renamed old new =>
          obtain ⟨-, hold, hnew, -⟩ := h.head
          have word : ∀ {w more : List Char}, Flag.IsWord w → (w ++ more).head? ≠ some c := by
            intro w more hw heq
            obtain ⟨d, ds, rfl⟩ := List.exists_cons_of_ne_nil hw.1
            rw [List.cons_append, List.head?_cons, Option.some.injEq] at heq
            exact Flag.ne_of_isFlagChar (hw.2 d List.mem_cons_self) hc heq
          rw [before_renamed, after_renamed]
          exact ⟨fun h => absurd h (word hold), fun h => absurd h (word hnew)⟩

/-- A word and what follows it are read off the text that they make up. -/
theorem takeWhile_word {w more : List Char} (hw : Flag.IsWord w)
    (hmore : ∀ c, more.head? = some c → Flag.isFlagChar c = false) :
    (w ++ more).takeWhile Flag.isFlagChar = w := by
  rw [List.takeWhile_append_of_pos hw.2]
  cases more with
  | nil => simp
  | cons c more => simp [hmore c rfl]

/-! ## Marked lines -/

/-- Whether a name is marked on a line, counted from zero. -/
def MarkedOn (k : Nat) (parts : List Part) : Prop :=
  ∃ done todo old new, parts = done ++ .renamed old new :: todo ∧ (before done).count '\n' = k

theorem not_markedOn_nil : ¬ MarkedOn k [] := by
  rintro ⟨done, todo, old, new, h, -⟩
  simp at h

theorem markedOn_kept {c : Char} : MarkedOn k (.kept c :: rest) ↔
    ∃ j, MarkedOn j rest ∧ k = if c = '\n' then j + 1 else j := by
  constructor
  · rintro ⟨done, todo, old, new, h, rfl⟩
    cases done with
    | nil => cases h
    | cons p done =>
        obtain ⟨rfl, hrest⟩ := List.cons.inj h
        refine ⟨_, ⟨done, todo, old, new, hrest, rfl⟩, ?_⟩
        by_cases hc : c = '\n' <;> simp [hc]
  · rintro ⟨j, ⟨done, todo, old, new, rfl, rfl⟩, rfl⟩
    refine ⟨.kept c :: done, todo, old, new, rfl, ?_⟩
    by_cases hc : c = '\n' <;> simp [hc]

theorem markedOn_renamed (hold : Flag.IsWord old) : MarkedOn k (.renamed old new :: rest) ↔
    k = 0 ∨ MarkedOn k rest := by
  have hcount : old.count '\n' = 0 := List.count_eq_zero.2 (hold.notMem newline_mem_enders)
  constructor
  · rintro ⟨done, todo, old', new', h, rfl⟩
    cases done with
    | nil => exact .inl rfl
    | cons p done =>
        obtain ⟨rfl, hrest⟩ := List.cons.inj h
        refine .inr ⟨done, todo, old', new', hrest, ?_⟩
        simp [hcount]
  · rintro (rfl | ⟨done, todo, old', new', rfl, rfl⟩)
    · exact ⟨[], rest, old, new, rfl, rfl⟩
    · refine ⟨.renamed old new :: done, todo, old', new', rfl, ?_⟩
      simp [hcount]

/-- Replacing the marked names keeps the number of lines and changes those on which a name is
marked. -/
theorem splitOn_before_after (h : Distinct parts) :
    (splitOn '\n' (after parts)).length = (splitOn '\n' (before parts)).length ∧
      ∀ k, (splitOn '\n' (after parts))[k]? ≠ (splitOn '\n' (before parts))[k]? ↔
        MarkedOn k parts := by
  induction parts with
  | nil => exact ⟨rfl, fun k => ⟨fun hne => absurd rfl hne, fun hk => absurd hk not_markedOn_nil⟩⟩
  | cons p rest ih =>
      obtain ⟨hlength, hlines⟩ := ih h.tail
      obtain ⟨first, more, hbefore⟩ :=
        List.exists_cons_of_ne_nil (splitOn_ne_nil '\n' (before rest))
      obtain ⟨first', more', hafter⟩ :=
        List.exists_cons_of_ne_nil (splitOn_ne_nil '\n' (after rest))
      cases p with
      | kept c =>
          rw [before_kept, after_kept]
          by_cases hc : c = '\n'
          · subst hc
            rw [splitOn_cons_self, splitOn_cons_self]
            refine ⟨by simpa using hlength, fun k => ?_⟩
            cases k with
            | zero => simp [markedOn_kept]
            | succ k => simpa [markedOn_kept] using hlines k
          · have hmem : '\n' ∉ [c] := by simpa using Ne.symm hc
            have hconsBefore := splitOn_append_of_notMem hmem hbefore
            have hconsAfter := splitOn_append_of_notMem hmem hafter
            rw [List.singleton_append] at hconsBefore hconsAfter
            rw [hconsBefore, hconsAfter]
            rw [hbefore, hafter] at hlength hlines
            refine ⟨hlength, fun k => ?_⟩
            have hk := hlines k
            cases k <;> simpa [markedOn_kept, hc] using hk
      | renamed old new =>
          obtain ⟨hne, hold, hnew, c, hc, hhead⟩ := h.head
          rw [before_renamed, after_renamed,
            splitOn_append_of_notMem (hold.notMem newline_mem_enders) hbefore,
            splitOn_append_of_notMem (hnew.notMem newline_mem_enders) hafter]
          rw [hbefore, hafter] at hlength hlines
          refine ⟨hlength, fun k => ?_⟩
          rw [markedOn_renamed hold]
          cases k with
          | succ k => simpa using hlines (k + 1)
          | zero =>
              -- The first character behind each word is the same, and no part of a word.
              have stops : ∀ {cs first : List Char} {more : List (List Char)},
                  cs.head? = some c → splitOn '\n' cs = first :: more →
                  ∀ d, first.head? = some d → Flag.isFlagChar d = false := by
                intro cs first more hcs hsplit d hd
                have hcd := hcs.symm.trans (head?_of_splitOn hsplit hd)
                cases hcd
                exact Flag.isFlagChar_of_mem_enders c hc
              have hhead' := (head?_before_after h.tail hc).1 hhead
              have hwords : new ++ first' ≠ old ++ first := by
                intro heq
                have htake := congrArg (List.takeWhile Flag.isFlagChar) heq
                rw [takeWhile_word hnew (stops hhead' hafter),
                  takeWhile_word hold (stops hhead hbefore)] at htake
                exact hne htake.symm
              simpa using hwords

/-! ## Lines with their ends -/

theorem length_consLine (c : Char) (ls : List (List Char)) :
    (Diff.consLine c ls).length = max 1 ls.length := by
  cases ls <;> simp [Diff.consLine]

theorem length_lines_cons {c : Char} (cs : List Char) (hfeed : c ≠ '\n') (hreturn : c ≠ '\r') :
    (Diff.lines (c :: cs)).length = max 1 (Diff.lines cs).length := by
  rw [Diff.lines.eq_5 c cs (by simp [hfeed]) (by simp [hreturn]) (by simp [hreturn]), length_consLine]

/-- A lone carriage return ends a line. -/
theorem length_lines_return {cs : List Char} (h : cs.head? ≠ some '\n') :
    (Diff.lines ('\r' :: cs)).length = (Diff.lines cs).length + 1 := by
  cases cs with
  | nil => rfl
  | cons d cs =>
      have hd : d ≠ '\n' := by simpa using h
      rw [Diff.lines.eq_4 (d :: cs) (by simp [hd])]
      rfl

/-- A word does not end a line. -/
theorem length_lines_word {w : List Char} (hw : Flag.IsWord w) (cs : List Char) :
    (Diff.lines (w ++ cs)).length = max 1 (Diff.lines cs).length := by
  obtain ⟨hne, hall⟩ := hw
  induction w with
  | nil => exact absurd rfl hne
  | cons c w ih =>
      have hc := hall c List.mem_cons_self
      rw [List.cons_append, length_lines_cons _ (Flag.ne_of_isFlagChar hc newline_mem_enders)
        (Flag.ne_of_isFlagChar hc return_mem_enders)]
      cases w with
      | nil => rfl
      | cons d w =>
          rw [ih (List.cons_ne_nil _ _) fun x hx => hall x (List.mem_cons_of_mem _ hx)]
          omega

/-- Replacing the marked names keeps the number of lines, whatever ends them. -/
theorem length_lines_before_after (h : Distinct parts) :
    (Diff.lines (after parts)).length = (Diff.lines (before parts)).length := by
  induction parts with
  | nil => rfl
  | cons p rest ih =>
      have hrest := ih h.tail
      cases p with
      | renamed old new =>
          obtain ⟨-, hold, hnew, -⟩ := h.head
          rw [before_renamed, after_renamed, length_lines_word hold, length_lines_word hnew, hrest]
      | kept c =>
          rw [before_kept, after_kept]
          by_cases hfeed : c = '\n'
          · subst hfeed
            rw [Diff.lines, Diff.lines, List.length_cons, List.length_cons, hrest]
          by_cases hreturn : c = '\r'
          swap
          · rw [length_lines_cons _ hfeed hreturn, length_lines_cons _ hfeed hreturn, hrest]
          subst hreturn
          have hhead := head?_before_after h.tail newline_mem_enders
          by_cases hpair : (before rest).head? = some '\n'
          · -- The line feed that follows belongs to the same end in both texts.
            obtain ⟨cs, hcs⟩ := List.head?_eq_some_iff.1 hpair
            obtain ⟨cs', hcs'⟩ := List.head?_eq_some_iff.1 (hhead.1 hpair)
            rw [hcs, hcs'] at hrest ⊢
            simpa only [Diff.lines, List.length_cons] using hrest
          · rw [length_lines_return hpair, length_lines_return fun h => hpair (hhead.2 h), hrest]

end Draft

/-! ## The lines of renames -/

namespace Rewrite

open Draft

variable {source : String} {r : Rewrite} {parts : List Part}

/-- The changes of a plan stand on the lines on which a name is marked. -/
theorem Drawn.markedOn_iff (h : Drawn source r parts) {k : Nat} :
    MarkedOn k parts ↔ ∃ rename ∈ r.plan.renames, rename.position.line = k + 1 := by
  -- The line of a place between two parts counts the line feeds before it.
  have line : ∀ {done todo : List Part} {c : Edit.Change}, c ∈ r.plan.changes →
      parts = done ++ todo → c.span.start = byteSize (Draft.before done) →
      c.rename.position.line = (Draft.before done).count '\n' + 1 := by
    intro done todo c hc hsplit hstart
    have hsource : source.toList = Draft.before done ++ Draft.before todo := by
      rw [← h.before, hsplit, before_append]
    rw [h.position c hc, hstart, positionAt, hsource, advance_line, Nat.add_comm]
  constructor
  · rintro ⟨done, todo, old, new, hsplit, rfl⟩
    obtain ⟨c, hc, hspan, -⟩ := h.draws.marked hsplit
    refine ⟨c.rename, List.mem_map_of_mem hc, line hc hsplit ?_⟩
    rw [hspan, Nat.zero_add]
  · rintro ⟨rename, hrename, hk⟩
    obtain ⟨c, hc, rfl⟩ := List.mem_map.1 hrename
    obtain ⟨done, todo, hsplit, hstart, -⟩ := h.draws.exists_part hc
    rw [Nat.zero_add] at hstart
    have hline := line hc hsplit hstart
    exact ⟨done, todo, _, _, hsplit, by omega⟩

/-- The lines that a rewriting changes are those that its renames report. -/
theorem Drawn.lines (h : Drawn source r parts) :
    (splitOn '\n' r.output.toList).length = (splitOn '\n' source.toList).length ∧
      ∀ k, (splitOn '\n' r.output.toList)[k]? ≠ (splitOn '\n' source.toList)[k]? ↔
        ∃ rename ∈ r.plan.renames, rename.position.line = k + 1 := by
  obtain ⟨hlength, hlines⟩ := splitOn_before_after h.distinct
  rw [h.before, h.after] at hlength hlines
  exact ⟨hlength, fun k => (hlines k).trans h.markedOn_iff⟩

/-- A rewriting changes the text if it has a rename. -/
theorem Drawn.output_ne_iff (h : Drawn source r parts) :
    r.output ≠ source ↔ r.plan.renames ≠ [] := by
  constructor
  · intro hne hnil
    have hchanges : r.plan.changes = [] := List.map_eq_nil_iff.1 hnil
    have hdraws := h.draws
    rw [hchanges] at hdraws
    cases hdraws with
    | nil cs =>
        have hbefore := h.before
        have hafter := h.after
        rw [before_map_kept] at hbefore
        rw [after_map_kept, hbefore] at hafter
        exact hne (String.toList_inj.1 hafter.symm)
  · intro hne heq
    obtain ⟨c, cs, hchanges⟩ := List.exists_cons_of_ne_nil hne
    have hmem : c ∈ r.plan.renames := by
      rw [hchanges]
      exact List.mem_cons_self
    obtain ⟨-, hlines⟩ := h.lines
    obtain ⟨k, hk⟩ : ∃ k, c.position.line = k + 1 := by
      obtain ⟨d, hd, rfl⟩ := List.mem_map.1 hmem
      obtain ⟨done, todo, hsplit, hstart, -⟩ := h.draws.exists_part hd
      rw [Nat.zero_add] at hstart
      refine ⟨(Draft.before done).count '\n', ?_⟩
      rw [h.position d hd, hstart, positionAt, ← h.before, hsplit, before_append, advance_line,
        Nat.add_comm]
    exact (hlines k).2 ⟨c, hmem, hk⟩ (by rw [heq])

end Rewrite

end Longhand
