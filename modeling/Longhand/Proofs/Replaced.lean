import Longhand.Proofs.Arranged
import Longhand.Proofs.Patch

/-!
# What patching does

Edits can be applied exactly if their spans lie apart and begin and end between characters of the
text.  The new text is then the old one with the span of each edit replaced by its text.  The order in
which edits are given matters only for those of one span.
-/

namespace Longhand

open Text

/-! ## Boundaries of characters -/

namespace Text

/-- Whether an offset lies between two characters of a text, or at an end of it. -/
def IsBoundary (cs : List Char) (offset : Nat) : Prop :=
  ∃ done todo, cs = done ++ todo ∧ byteSize done = offset

variable {cs : List Char} {a b offset : Nat}

theorem IsBoundary.le (h : IsBoundary cs offset) : offset ≤ byteSize cs := by
  obtain ⟨done, todo, rfl, rfl⟩ := h
  simp

theorem isBoundary_zero (cs : List Char) : IsBoundary cs 0 :=
  ⟨[], cs, rfl, rfl⟩

/-- A text is cut in only one way at an offset. -/
theorem eq_of_byteSize_eq {done todo done' todo' : List Char} (h : done ++ todo = done' ++ todo')
    (hsize : byteSize done = byteSize done') : done = done' ∧ todo = todo' := by
  have hcut : splitAt? (done ++ todo) (byteSize done) = some (done, todo) :=
    splitAt?_eq_some_iff.2 ⟨rfl, rfl⟩
  rw [h, hsize, splitAt?_eq_some_iff.2 ⟨rfl, rfl⟩] at hcut
  simpa using hcut.symm

/-- What lies between two boundaries of a text. -/
theorem exists_between {done todo : List Char} (hb : IsBoundary (done ++ todo) b)
    (hle : byteSize done ≤ b) :
    ∃ mid rest, todo = mid ++ rest ∧ b = byteSize done + byteSize mid := by
  obtain ⟨left, right, hcs, rfl⟩ := hb
  rcases List.append_eq_append_iff.1 hcs with ⟨mid, rfl, rfl⟩ | ⟨mid, rfl, hright⟩
  · exact ⟨mid, right, rfl, byteSize_append _ _⟩
  · cases mid with
    | nil => exact ⟨[], todo, rfl, by simp⟩
    | cons c mid =>
        have := c.utf8Size_pos
        rw [byteSize_append, byteSize_cons] at hle
        omega

end Text

namespace Edit

variable {source output done todo : List Char} {edits edits' : List Edit} {e : Edit} {o : Nat}

/-! ## Replacing spans in order -/

/-- Whether edits make one text of another one that begins at an offset: what an edit covers is
replaced by its text, and what stands before it is kept. -/
inductive Replaced : Nat → List Edit → List Char → List Char → Prop
  | nil (o : Nat) (rest : List Char) : Replaced o [] rest rest
  | cons {o : Nat} {e : Edit} {edits : List Edit} {source output : List Char}
      (kept covered : List Char) :
      e.span.start = o + byteSize kept →
      e.span.stop = e.span.start + byteSize covered →
      Replaced e.span.stop edits source output →
      Replaced o (e :: edits) (kept ++ (covered ++ source)) (kept ++ (e.text ++ output))

/-- The edits stand behind the offset and one behind the other. -/
theorem Replaced.follow (h : Replaced o edits source output) :
    (∀ e ∈ edits, o ≤ e.span.start ∧ e.span.start ≤ e.span.stop) ∧
      edits.Pairwise fun a b => a.span.stop ≤ b.span.start := by
  induction h with
  | nil => exact ⟨fun e he => (nomatch he), .nil⟩
  | cons kept covered hstart hstop _ ih =>
      obtain ⟨hlow, hpairs⟩ := ih
      refine ⟨fun d hd => ?_, .cons (fun d hd => (hlow d hd).1) hpairs⟩
      rcases List.mem_cons.1 hd with rfl | hd
      · omega
      · have := hlow d hd
        omega

/-- The edits begin and end between characters. -/
theorem Replaced.boundaries (h : Replaced o edits todo output) (done : List Char)
    (ho : byteSize done = o) :
    ∀ e ∈ edits, IsBoundary (done ++ todo) e.span.start ∧ IsBoundary (done ++ todo) e.span.stop := by
  induction h generalizing done with
  | nil => exact fun e he => (nomatch he)
  | @cons o e edits source output kept covered hstart hstop _ ih =>
      intro d hd
      rcases List.mem_cons.1 hd with rfl | hd
      · refine ⟨⟨done ++ kept, covered ++ source, by simp, by rw [byteSize_append, ho, hstart]⟩,
          ⟨done ++ kept ++ covered, source, by simp, ?_⟩⟩
        rw [byteSize_append, byteSize_append, ho, hstop, hstart]
      · have hrest := ih (done ++ (kept ++ covered))
          (by rw [byteSize_append, byteSize_append, ho, hstop, hstart, Nat.add_assoc]) d hd
        simpa using hrest

/-- Edits that follow each other and begin and end between characters make a text. -/
theorem exists_replaced (done todo : List Char)
    (hpairs : edits.Pairwise fun a b => a.span.stop ≤ b.span.start)
    (hedits : ∀ e ∈ edits, byteSize done ≤ e.span.start ∧ e.span.start ≤ e.span.stop ∧
      IsBoundary (done ++ todo) e.span.start ∧ IsBoundary (done ++ todo) e.span.stop) :
    ∃ output, Replaced (byteSize done) edits todo output := by
  induction edits generalizing done todo with
  | nil => exact ⟨todo, .nil _ _⟩
  | cons e rest ih =>
      obtain ⟨hfirst, hrest⟩ := List.pairwise_cons.1 hpairs
      obtain ⟨hlow, hle, hstart, hstop⟩ := hedits e List.mem_cons_self
      obtain ⟨kept, more, rfl, hkept⟩ := exists_between hstart hlow
      rw [← List.append_assoc] at hstop
      obtain ⟨covered, after, rfl, hcovered⟩ :=
        exists_between hstop (by rw [byteSize_append, ← hkept]; exact hle)
      have hend : byteSize (done ++ kept ++ covered) = e.span.stop := by
        rw [byteSize_append, hcovered]
      obtain ⟨output, houtput⟩ := ih (done ++ kept ++ covered) after hrest
        (fun d hd => by
          obtain ⟨-, hdle, hdstart, hdstop⟩ := hedits d (List.mem_cons_of_mem _ hd)
          rw [hend]
          refine ⟨hfirst d hd, hdle, ?_, ?_⟩
          · simpa using hdstart
          · simpa using hdstop)
      rw [hend] at houtput
      refine ⟨_, .cons kept covered hkept ?_ houtput⟩
      rw [hcovered, byteSize_append, hkept]

/-! ## Patching -/

theorem isBoundary_of_applySorted (h : applySorted source o edits = some output) :
    IsBoundary source o := by
  cases edits with
  | nil =>
      rw [applySorted] at h
      split at h
      · cases h
      · rename_i left rest hcut
        exact ⟨left, rest, splitAt?_eq_some_iff.1 hcut⟩
  | cons e rest =>
      rw [applySorted] at h
      split at h
      · rename_i kept _ hkept _
        obtain ⟨left, right, hsource, hsize, -⟩ := slice?_eq_some_iff.1 hkept
        exact ⟨left, kept ++ right, hsource, hsize⟩
      · cases h

/-- What the pass over sorted edits makes has their spans replaced. -/
theorem replaced_of_applySorted {done todo : List Char}
    (hedits : ∀ e ∈ edits, e.span.start ≤ e.span.stop)
    (h : applySorted (done ++ todo) (byteSize done) edits = some output) :
    Replaced (byteSize done) edits todo output := by
  induction edits generalizing done todo output with
  | nil =>
      rw [applySorted, splitAt?_append] at h
      cases h
      exact .nil _ _
  | cons e rest ih =>
      have hle := hedits e List.mem_cons_self
      rw [applySorted] at h
      split at h
      · rename_i kept made hkept hmade
        cases h
        -- What is kept ends where the edit begins, and what the edit covers ends at a cut too, for
        -- the pass goes on from there.
        obtain ⟨left, right, hsource, hleft, hstart⟩ := slice?_eq_some_iff.1 hkept
        obtain ⟨rfl, rfl⟩ := eq_of_byteSize_eq hsource hleft.symm
        have hstart : e.span.start = byteSize done + byteSize kept := hstart
        have hstop := isBoundary_of_applySorted hmade
        rw [← List.append_assoc] at hstop
        obtain ⟨covered, after, rfl, hcovered⟩ :=
          exists_between hstop (by rw [byteSize_append, ← hstart]; exact hle)
        have hend : byteSize (done ++ (kept ++ covered)) = e.span.stop := by
          rw [hcovered, ← List.append_assoc, byteSize_append]
        rw [← hend, show done ++ (kept ++ (covered ++ after)) = done ++ (kept ++ covered) ++ after
          by simp] at hmade
        have hrest := ih (fun d hd => hedits d (List.mem_cons_of_mem _ hd)) hmade
        rw [hend] at hrest
        rw [List.append_assoc]
        exact .cons kept covered hstart (by rw [hcovered, byteSize_append, hstart]) hrest
      · cases h

/-- The pass over sorted edits makes any text that has their spans replaced. -/
theorem applySorted_of_replaced {done todo : List Char}
    (h : Replaced (byteSize done) edits todo output) :
    applySorted (done ++ todo) (byteSize done) edits = some output := by
  induction edits generalizing done todo output with
  | nil =>
      cases h
      rw [applySorted, splitAt?_append]
  | cons e rest ih =>
      cases h with
      | @cons _ _ _ after made kept covered hstart hstop hrest =>
          have hkept : slice? (done ++ (kept ++ (covered ++ after))) ⟨byteSize done, e.span.start⟩ =
              some kept :=
            slice?_eq_some_iff.2 ⟨done, _, rfl, rfl, hstart⟩
          have hend : byteSize (done ++ (kept ++ covered)) = e.span.stop := by
            rw [byteSize_append, byteSize_append, hstop, hstart, Nat.add_assoc]
          rw [← hend] at hrest
          have hmade := ih hrest
          rw [hend, List.append_assoc, List.append_assoc] at hmade
          rw [applySorted, hkept, hmade]
          simp

/-- The pass over sorted edits replaces their spans. -/
theorem applySorted_eq_some_iff (done todo : List Char)
    (hedits : ∀ e ∈ edits, e.span.start ≤ e.span.stop) :
    applySorted (done ++ todo) (byteSize done) edits = some output ↔
      Replaced (byteSize done) edits todo output :=
  ⟨replaced_of_applySorted hedits, applySorted_of_replaced⟩

/-- The result of patching is the text with the spans of the sorted edits replaced. -/
theorem patch_eq_ok_iff (hedits : ∀ e ∈ edits, e.span.start ≤ e.span.stop) :
    patch source edits = .ok output ↔ Replaced 0 (stableSort Edit.le edits) source output := by
  have hpass : applySorted source 0 (stableSort Edit.le edits) = some output ↔
      Replaced 0 (stableSort Edit.le edits) source output :=
    applySorted_eq_some_iff [] source fun e he => hedits e (mem_stableSort.1 he)
  unfold patch
  dsimp only
  constructor
  · intro h
    split at h
    · cases h
    · split at h
      · cases h
      · rename_i hmade
        cases h
        exact hpass.1 hmade
  · intro h
    rw [overlap?_eq_none h.follow.2]
    dsimp only
    rw [hpass.2 h]

/-- Sorted edits follow each other exactly if any two of them lie apart. -/
theorem follow_sorted_iff (hedits : ∀ e ∈ edits, e.span.start ≤ e.span.stop) :
    ((stableSort Edit.le edits).Pairwise fun a b => a.span.stop ≤ b.span.start) ↔
      edits.Pairwise fun a b => a.span.Apart b.span := by
  have hperm := stableSort_perm Edit.le edits
  constructor
  · intro h
    have hapart : (stableSort Edit.le edits).Pairwise fun a b => a.span.Apart b.span :=
      h.imp fun hle => .inl hle
    exact hperm.pairwise hapart fun h => h.symm
  · intro h
    have hapart : (stableSort Edit.le edits).Pairwise fun a b => a.span.Apart b.span :=
      hperm.symm.pairwise h fun h => h.symm
    refine ((arranged_sorted edits).ordered.and hapart).imp_of_mem fun {a b} ha hb h => ?_
    have ha := hedits a (mem_stableSort.1 ha)
    have hb := hedits b (mem_stableSort.1 hb)
    obtain ⟨hupTo, hapart⟩ := h
    unfold Span.UpTo at hupTo
    unfold Span.Apart at hapart
    -- If the second one ended where the first begins, both would be empty there.
    omega

/-- Edits can be applied exactly if they cut the text between characters and lie apart. -/
theorem exists_patch_iff (hedits : ∀ e ∈ edits, e.span.start ≤ e.span.stop) :
    (∃ output, patch source edits = .ok output) ↔
      (∀ e ∈ edits, IsBoundary source e.span.start ∧ IsBoundary source e.span.stop) ∧
        edits.Pairwise fun a b => a.span.Apart b.span := by
  simp only [patch_eq_ok_iff hedits]
  rw [← follow_sorted_iff hedits]
  constructor
  · rintro ⟨output, h⟩
    exact ⟨fun e he => h.boundaries [] rfl e (mem_stableSort.2 he), h.follow.2⟩
  · rintro ⟨hbounds, hfollow⟩
    refine exists_replaced [] source hfollow fun e he => ?_
    have he := mem_stableSort.1 he
    exact ⟨Nat.zero_le _, hedits e he, hbounds e he⟩

/-- The order of the edits matters only for those of one span. -/
theorem patch_congr (source : List Char) (h : SameTies Edit.span edits edits') :
    patch source edits = patch source edits' := by
  have hsorted := (arranged_sorted edits).eq (arranged_sorted edits') h
  unfold patch
  rw [hsorted]

/-- What patching does.  It fails exactly if a span leaves the text, cuts a character or overlaps
another one.  Otherwise the edits, in the order of their spans and those of one span in the order
given, replace their spans, and all else is kept.  Where no two edits have one span, they may be given
in any order. -/
theorem patch_exact (source : List Char) (edits : List Edit)
    (hedits : ∀ e ∈ edits, e.span.start ≤ e.span.stop) :
    ((∃ output, patch source edits = .ok output) ↔
      (∀ e ∈ edits, e.span.start ≤ byteSize source ∧ e.span.stop ≤ byteSize source ∧
        IsBoundary source e.span.start ∧ IsBoundary source e.span.stop) ∧
      edits.Pairwise fun a b => a.span.stop ≤ b.span.start ∨ b.span.stop ≤ a.span.start) ∧
    (∀ output, patch source edits = .ok output →
      ∃ sorted, Arranged Edit.span edits sorted ∧ Replaced 0 sorted source output) ∧
    ∀ edits', edits'.Perm edits → (edits.map Edit.span).Nodup →
      patch source edits' = patch source edits := by
  refine ⟨?_, fun output h => ?_, fun edits' hperm hnodup => ?_⟩
  · rw [exists_patch_iff hedits]
    refine and_congr_left' ⟨fun h e he => ?_, fun h e he => (h e he).2.2⟩
    obtain ⟨hstart, hstop⟩ := h e he
    exact ⟨hstart.le, hstop.le, hstart, hstop⟩
  · exact ⟨_, arranged_sorted edits, (patch_eq_ok_iff hedits).1 h⟩
  · exact (patch_congr source (sameTies_of_perm hperm.symm hnodup)).symm

/-- Edits out of order on characters of several bytes: a deletion, an insertion right behind it and
a replacement. -/
theorem patch_exact_unsorted :
    let source := "é✨b".toList
    let edits : List Edit := [⟨⟨5, 6⟩, "x".toList⟩, ⟨⟨2, 2⟩, "yz".toList⟩, ⟨⟨0, 2⟩, []⟩]
    (∀ e ∈ edits, e.span.start ≤ e.span.stop) ∧
      (∃ sorted, Arranged Edit.span edits sorted ∧ Replaced 0 sorted source "yz✨x".toList) ∧
      ∀ edits', edits'.Perm edits → patch source edits' = .ok "yz✨x".toList := by
  intro source edits
  have hedits : ∀ e ∈ edits, e.span.start ≤ e.span.stop := by decide
  obtain ⟨-, hspec, hperm⟩ := patch_exact source edits hedits
  have houtput : patch source edits = .ok "yz✨x".toList := by rfl
  exact ⟨hedits, hspec _ houtput, fun edits' h => (hperm edits' h (by decide)).trans houtput⟩

end Edit

end Longhand
