import Longhand.Proofs.Replaced

/-!
# Edits undone

The edits that undo others replace, in the new text, what the others have put there by what they have
cut out.  Each stands where the edits before it have moved its place.  Deletions side by side are undone
at one place, so that their undoing must keep their order; all else may be undone in any order.
-/

namespace Longhand.Edit

open Text

variable {source output done made : List Char} {edits back : List Edit} {o o' put cut : Nat}

/-- Whether edits can be applied to a text: they do not run backwards, begin and end between
characters, and lie apart. -/
structure Valid (source : List Char) (edits : List Edit) : Prop where
  forward : ∀ e ∈ edits, e.span.start ≤ e.span.stop
  boundaries : ∀ e ∈ edits, IsBoundary source e.span.start ∧ IsBoundary source e.span.stop
  apart : edits.Pairwise fun a b => a.span.Apart b.span

/-- The edits that undo sorted edits of a text, if the edits before them have put and cut out some
numbers of bytes. -/
def undoSorted (source : List Char) (put cut : Nat) : List Edit → List Edit
  | [] => []
  | e :: rest =>
      let start := e.span.start + put - cut
      ⟨⟨start, start + byteSize e.text⟩, (slice? source e.span).getD []⟩ ::
        undoSorted source (put + byteSize e.text) (cut + (e.span.stop - e.span.start)) rest

/-- The edits that undo some edits of a text, in the order of the spans of these. -/
def undo (source : List Char) (edits : List Edit) : List Edit :=
  undoSorted source 0 0 (stableSort Edit.le edits)

/-! ## From the new text to the old one -/

/-- What edits have made of a text from an offset on is made into that text again.  The place that
corresponds to the offset is as far on as bytes were put, and as far back as they were cut out. -/
theorem Replaced.undo {rest : List Char} (h : Replaced o edits rest output) (done : List Char)
    (hsource : source = done ++ rest) (ho : byteSize done = o) (hplace : o + put = o' + cut) :
    Replaced o' (undoSorted source put cut edits) output rest := by
  induction h generalizing done o' put cut with
  | nil => exact .nil _ _
  | @cons o e edits rest output kept covered hstart hstop hrest ih =>
      have hslice : slice? source e.span = some covered :=
        slice?_eq_some_iff.2 ⟨done ++ kept, rest, by simp [hsource],
          by rw [byteSize_append, ho, hstart], hstop⟩
      have hmore : Replaced (o' + byteSize kept + byteSize e.text)
          (undoSorted source (put + byteSize e.text) (cut + (e.span.stop - e.span.start)) edits)
          output rest :=
        ih (done ++ (kept ++ covered)) (by simp [hsource])
          (by rw [byteSize_append, byteSize_append]; omega) (by omega)
      have hfirst : e.span.start + put - cut = o' + byteSize kept := by omega
      rw [undoSorted, hslice, hfirst]
      exact .cons kept e.text rfl rfl hmore

/-- Edits that follow each other stand in the order of their spans. -/
theorem Replaced.ordered (h : Replaced o edits source output) :
    edits.Pairwise fun a b => a.span.UpTo b.span := by
  obtain ⟨hforward, hfollow⟩ := h.follow
  refine hfollow.imp_of_mem fun {a b} ha hb hle => ?_
  have ha := (hforward a ha).2
  have hb := (hforward b hb).2
  unfold Span.UpTo
  omega

theorem Replaced.sorted (h : Replaced o edits source output) : stableSort Edit.le edits = edits :=
  stableSort_of_pairwise (h.ordered.imp fun hle => le_iff.2 hle)

/-- Edits that make a text are valid. -/
theorem Replaced.valid (h : Replaced 0 edits source output) : Valid source edits where
  forward e he := (h.follow.1 e he).2
  boundaries := h.boundaries [] rfl
  apart := h.follow.2.imp fun hle => .inl hle

/-- Which edits are valid does not depend on their order. -/
theorem Valid.of_perm (h : Valid source edits) (hperm : back.Perm edits) : Valid source back where
  forward e he := h.forward e (hperm.mem_iff.1 he)
  boundaries e he := h.boundaries e (hperm.mem_iff.1 he)
  apart := hperm.symm.pairwise h.apart fun hapart => hapart.symm

/-- Patching is undone by patching.  Valid edits make a new text, the edits that undo them are valid
for it, and they make the old text again.  They do so in any order in which those of one span stand in
the order of what they undo. -/
theorem patch_undone (source : List Char) (edits : List Edit) (h : Valid source edits) :
    ∃ output, patch source edits = .ok output ∧
      Valid output (undo source edits) ∧ patch output (undo source edits) = .ok source ∧
      ∀ back, SameTies Edit.span back (undo source edits) →
        Valid output back ∧ patch output back = .ok source := by
  obtain ⟨output, houtput⟩ := (exists_patch_iff h.forward).2 ⟨h.boundaries, h.apart⟩
  have hmade := (patch_eq_ok_iff h.forward).1 houtput
  have hundo : Replaced 0 (undo source edits) output source :=
    hmade.undo [] rfl rfl rfl
  have hvalid := hundo.valid
  have hback : patch output (undo source edits) = .ok source := by
    rw [patch_eq_ok_iff hvalid.forward, hundo.sorted]
    exact hundo
  refine ⟨output, houtput, hvalid, hback, fun back hties => ⟨hvalid.of_perm hties.perm, ?_⟩⟩
  rw [patch_congr output hties, hback]

/-- Two deletions side by side, given last one first, and a replacement behind them. -/
theorem patch_undone_deletions :
    let source := "abcdef".toList
    let edits : List Edit := [⟨⟨2, 4⟩, []⟩, ⟨⟨0, 2⟩, []⟩, ⟨⟨4, 5⟩, "xyz".toList⟩]
    Valid source edits ∧
      undo source edits = [⟨⟨0, 0⟩, "ab".toList⟩, ⟨⟨0, 0⟩, "cd".toList⟩, ⟨⟨0, 3⟩, "e".toList⟩] ∧
      patch source edits = .ok "xyzf".toList ∧
      patch "xyzf".toList (undo source edits) = .ok source := by
  intro source edits
  have houtput : patch source edits = .ok "xyzf".toList := by rfl
  have hforward : ∀ e ∈ edits, e.span.start ≤ e.span.stop := by decide
  obtain ⟨hboundaries, hapart⟩ := (exists_patch_iff hforward).1 ⟨_, houtput⟩
  have hvalid : Valid source edits := ⟨hforward, hboundaries, hapart⟩
  obtain ⟨output, h, -, hback, -⟩ := patch_undone source edits hvalid
  rw [houtput] at h
  cases h
  exact ⟨hvalid, by decide +kernel, houtput, hback⟩

end Longhand.Edit
