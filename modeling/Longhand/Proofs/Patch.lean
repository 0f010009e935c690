import Longhand.Proofs.Plan

/-!
# Changes as a draft

Changes that follow each other mark names of the text that they are made to.  Patching yields the
other text of the draft.
-/

namespace Longhand

open Text

namespace Text

/-- A slice is what stands between the text before a span and the text behind it. -/
theorem slice?_eq_some_iff {cs mid : List Char} {s : Span} :
    slice? cs s = some mid ↔ ∃ done todo, cs = done ++ (mid ++ todo) ∧ byteSize done = s.start ∧
      s.stop = s.start + byteSize mid := by
  unfold slice?
  constructor
  · intro h
    split at h
    · rename_i hle
      split at h
      · cases h
      · rename_i done rest hstart
        obtain ⟨rfl, hdone⟩ := splitAt?_eq_some_iff.1 hstart
        obtain ⟨⟨mid', todo⟩, hcut, rfl⟩ := Option.map_eq_some_iff.1 h
        obtain ⟨rfl, hmid⟩ := splitAt?_eq_some_iff.1 hcut
        refine ⟨done, todo, rfl, hdone, ?_⟩
        show s.stop = s.start + byteSize mid'
        omega
    · cases h
  · rintro ⟨done, todo, rfl, hdone, hstop⟩
    have hstart : splitAt? (done ++ (mid ++ todo)) s.start = some (done, mid ++ todo) :=
      splitAt?_eq_some_iff.2 ⟨rfl, hdone⟩
    have hrest : splitAt? (mid ++ todo) (s.stop - s.start) = some (mid, todo) :=
      splitAt?_eq_some_iff.2 ⟨rfl, by omega⟩
    rw [if_pos (by omega), hstart]
    dsimp only
    rw [hrest]
    rfl

end Text

namespace Draft

open Edit

/-- Whether some parts are those of a text from an offset on, with the names that changes replace as
the marked ones. -/
inductive Draws : Nat → List Change → List Part → Prop
  | nil {o : Nat} (cs : List Char) : Draws o [] (cs.map .kept)
  | cons {o : Nat} {c : Change} {rest : List Change} {parts : List Part} (kept : List Char) :
      c.span.start = o + byteSize kept →
      c.span.stop = c.span.start + byteSize c.rename.short.toList →
      Draws c.span.stop rest parts →
      Draws o (c :: rest)
        (kept.map .kept ++ .renamed c.rename.short.toList c.rename.long.toList :: parts)

/-- Changes that follow each other and fit the text can be drawn in it. -/
theorem exists_draws {source : List Char} {changes : List Change} (done todo : List Char)
    (hsource : source = done ++ todo)
    (hsorted : changes.Pairwise fun a b => a.span.stop ≤ b.span.start)
    (hlow : ∀ c ∈ changes, byteSize done ≤ c.span.start)
    (hfits : ∀ c ∈ changes, slice? source c.span = some c.rename.short.toList) :
    ∃ parts, before parts = todo ∧ Draws (byteSize done) changes parts := by
  induction changes generalizing done todo with
  | nil => exact ⟨todo.map .kept, before_map_kept todo, .nil todo⟩
  | cons c rest ih =>
      obtain ⟨hfirst, hrest⟩ := List.pairwise_cons.1 hsorted
      have hle := hlow c List.mem_cons_self
      obtain ⟨left, right, hcs, hstart, hstop⟩ :=
        slice?_eq_some_iff.1 (hfits c List.mem_cons_self)
      obtain ⟨kept, rfl, htodo⟩ : ∃ kept, left = done ++ kept ∧
          todo = kept ++ (c.rename.short.toList ++ right) := by
        rcases List.append_eq_append_iff.1 (hsource.symm.trans hcs) with ⟨mid, h₁, h₂⟩ | ⟨mid, h₁, h₂⟩
        · exact ⟨mid, h₁, h₂⟩
        · cases mid with
          | nil => exact ⟨[], by simpa using h₁.symm, by simpa using h₂.symm⟩
          | cons x mid =>
              have := x.utf8Size_pos
              rw [h₁, byteSize_append, byteSize_cons] at hle
              omega
      have hend : byteSize (done ++ kept ++ c.rename.short.toList) = c.span.stop := by
        rw [byteSize_append, hstart, hstop]
      obtain ⟨parts, hparts, hdraws⟩ := ih
        (done ++ kept ++ c.rename.short.toList) right (by rw [hcs]; simp) hrest
        (fun d hd => by
          rw [hend]
          exact hfirst d hd)
        fun d hd => hfits d (List.mem_cons_of_mem _ hd)
      rw [hend] at hdraws
      refine ⟨_, ?_, .cons kept (by rw [← hstart, byteSize_append]) hstop hdraws⟩
      rw [before_append, before_map_kept, before_renamed, hparts, htodo]

/-- The text after the replacement is what patching yields. -/
theorem Draws.applySorted {source : List Char} {o : Nat} {changes : List Change}
    {parts : List Part} (h : Draws o changes parts) (done : List Char)
    (hsource : source = done ++ before parts) (ho : o = byteSize done) :
    Edit.applySorted source o (changes.map Change.edit) = some (after parts) := by
  induction h generalizing done with
  | @nil o cs =>
      have hcut : splitAt? source o = some (done, before (cs.map .kept)) :=
        splitAt?_eq_some_iff.2 ⟨hsource, ho.symm⟩
      rw [List.map_nil, Edit.applySorted, hcut]
      simp
  | @cons o c rest parts kept hstart hstop _ ih =>
      rw [before_append, before_map_kept, before_renamed] at hsource
      have hkept : slice? source ⟨o, c.span.start⟩ = some kept :=
        slice?_eq_some_iff.2 ⟨done, _, hsource, ho.symm, hstart⟩
      have hrest := ih (done ++ (kept ++ c.rename.short.toList)) (by rw [hsource]; simp) (by
        rw [hstop, hstart, ho, byteSize_append, byteSize_append]
        omega)
      have hedit : c.edit = ⟨c.span, c.rename.long.toList⟩ := rfl
      rw [List.map_cons, hedit, Edit.applySorted, hkept, hrest]
      simp

/-- The marked names are those that changes replace. -/
theorem Draws.marked {o : Nat} {changes : List Change} {parts : List Part}
    (h : Draws o changes parts) {done todo : List Part} {old new : List Char}
    (hparts : parts = done ++ .renamed old new :: todo) :
    ∃ c ∈ changes, c.span = ⟨o + byteSize (before done), o + byteSize (before done) + byteSize old⟩ ∧
      old = c.rename.short.toList ∧ new = c.rename.long.toList := by
  induction h generalizing done with
  | nil cs =>
      have hmem : Part.renamed old new ∈ cs.map Part.kept := by simp [hparts]
      simp at hmem
  | @cons o c rest parts kept hstart hstop _ ih =>
      -- The marked name is the first that is drawn, or one behind it; the characters before are kept.
      rcases List.append_eq_append_iff.1 hparts with ⟨mid, h₁, h₂⟩ | ⟨mid, h₁, h₂⟩
      · cases mid with
        | nil =>
            rw [List.nil_append] at h₂
            obtain ⟨hpart, -⟩ := List.cons.inj h₂
            cases hpart
            refine ⟨c, List.mem_cons_self, ?_, rfl, rfl⟩
            rw [h₁, List.append_nil, before_map_kept, ← hstart, ← hstop]
        | cons p mid =>
            rw [List.cons_append] at h₂
            obtain ⟨rfl, hmore⟩ := List.cons.inj h₂
            obtain ⟨d, hd, hspan, hold, hnew⟩ := ih hmore
            refine ⟨d, List.mem_cons_of_mem _ hd, ?_, hold, hnew⟩
            rw [hspan, h₁, before_append, before_map_kept, before_renamed, byteSize_append,
              byteSize_append, hstop, hstart]
            simp only [Span.mk.injEq]
            omega
      · cases mid with
        | nil =>
            rw [List.nil_append] at h₂
            obtain ⟨hpart, -⟩ := List.cons.inj h₂
            cases hpart
            refine ⟨c, List.mem_cons_self, ?_, rfl, rfl⟩
            rw [List.append_nil] at h₁
            rw [← h₁, before_map_kept, ← hstart, ← hstop]
        | cons p mid =>
            obtain ⟨rfl, -⟩ := List.cons.inj h₂
            have hmem : Part.renamed old new ∈ kept.map Part.kept := by simp [h₁]
            simp at hmem

/-- Each change has its part. -/
theorem Draws.exists_part {o : Nat} {changes : List Change} {parts : List Part}
    (h : Draws o changes parts) {c : Change} (hc : c ∈ changes) :
    ∃ done todo, parts = done ++
        (.renamed c.rename.short.toList c.rename.long.toList :: todo) ∧
      c.span.start = o + byteSize (before done) ∧
        c.span.stop = c.span.start + byteSize c.rename.short.toList := by
  induction h with
  | nil cs => cases hc
  | @cons o d rest parts kept hstart hstop _ ih =>
      rcases List.mem_cons.1 hc with rfl | hc
      · exact ⟨kept.map .kept, parts, rfl, by rw [before_map_kept, hstart], hstop⟩
      · obtain ⟨done, todo, rfl, hstart', hstop'⟩ := ih hc
        refine ⟨kept.map .kept ++ .renamed d.rename.short.toList d.rename.long.toList :: done, todo,
          by simp, ?_, hstop'⟩
        rw [hstart', hstop, hstart]
        simp only [before_append, before_map_kept, before_renamed, byteSize_append]
        omega

end Draft

namespace Edit

theorem overlap?_eq_none {edits : List Edit}
    (h : edits.Pairwise fun a b => a.span.stop ≤ b.span.start) : overlap? edits = none := by
  induction edits with
  | nil => rfl
  | cons a rest ih =>
      obtain ⟨hfirst, hrest⟩ := List.pairwise_cons.1 h
      cases rest with
      | nil => rfl
      | cons b rest =>
          have hle := hfirst b List.mem_cons_self
          rw [overlap?, if_neg (by omega), ih hrest]

/-- Patching goes through for changes that follow each other and fit the text. -/
theorem patch_of_draws {source : List Char} {changes : List Change} {parts : List Draft.Part}
    (hsorted : changes.Pairwise fun a b => a.span.stop ≤ b.span.start)
    (hlt : ∀ c ∈ changes, c.span.start < c.span.stop) (h : Draft.Draws 0 changes parts)
    (hsource : source = Draft.before parts) :
    patch source (changes.map Change.edit) = .ok (Draft.after parts) := by
  have hedits : (changes.map Change.edit).Pairwise fun a b => a.span.stop ≤ b.span.start :=
    List.pairwise_map.2 hsorted
  have hordered : (changes.map Change.edit).Pairwise fun a b => a.le b = true := by
    rw [List.pairwise_map]
    refine hsorted.imp_of_mem fun {a b} ha _ hle => ?_
    have hstart := hlt a ha
    exact Change.le_iff.2 (.inl (by omega))
  unfold patch
  rw [stableSort_of_pairwise hordered]
  dsimp only
  rw [overlap?_eq_none hedits, h.applySorted [] hsource rfl]

end Edit

end Longhand
