import Longhand.Edit.Plan

/-!
# Lists in the order of spans

A list is arranged when its elements stand in the order of their spans, and those of one span in the
order that they had.  A list has one arrangement only, and sorting yields it.
-/

namespace Longhand

open Text (Span)

/-- Whether a span starts before another one, or starts with it and stops no later. -/
def Text.Span.UpTo (a b : Span) : Prop :=
  a.start < b.start ∨ (a.start = b.start ∧ a.stop ≤ b.stop)

namespace Text.Span

theorem UpTo.total (a b : Span) : a.UpTo b ∨ b.UpTo a := by
  unfold UpTo
  omega

theorem UpTo.trans {a b c : Span} (h : a.UpTo b) (h' : b.UpTo c) : a.UpTo c := by
  unfold UpTo at h h' ⊢
  omega

theorem UpTo.antisymm {a b : Span} (h : a.UpTo b) (h' : b.UpTo a) : a = b := by
  obtain ⟨start, stop⟩ := a
  obtain ⟨start', stop'⟩ := b
  simp only [UpTo] at h h'
  rw [mk.injEq]
  omega

end Text.Span

variable {α : Type} {span : α → Span} {l l' sorted sorted' : List α}

/-- Whether two lists have the same elements of each span, in the same order. -/
def SameTies (span : α → Span) (l l' : List α) : Prop :=
  ∀ s, l.filter (fun a => span a = s) = l'.filter fun a => span a = s

/-- Whether a list is another one in the order of spans, with elements of one span in the order that
they had. -/
structure Arranged (span : α → Span) (l sorted : List α) : Prop where
  ordered : sorted.Pairwise fun a b => (span a).UpTo (span b)
  ties : SameTies span sorted l

/-! ## Ties -/

theorem SameTies.symm (h : SameTies span l l') : SameTies span l' l :=
  fun s => (h s).symm

theorem SameTies.trans {l'' : List α} (h : SameTies span l l') (h' : SameTies span l' l'') :
    SameTies span l l'' :=
  fun s => (h s).trans (h' s)

/-- Each element has a span, so lists with the same ties have the same elements. -/
theorem SameTies.perm (h : SameTies span l l') : l.Perm l' := by
  classical
  refine List.perm_iff_count.2 fun a => ?_
  have hcount : ∀ m : List α, (m.filter fun b => span b = span a).count a = m.count a :=
    fun m => List.count_filter (by simp)
  rw [← hcount l, ← hcount l', h]

/-- Where no two elements have one span there are no ties to keep. -/
theorem sameTies_of_perm (h : l.Perm l') (hnodup : (l.map span).Nodup) : SameTies span l l' := by
  intro s
  have hperm := h.filter fun a => decide (span a = s)
  have hsub : ((l.filter fun a => span a = s).map span).Nodup :=
    hnodup.sublist (List.filter_sublist.map span)
  have hspan : ∀ a ∈ l.filter fun a => span a = s, span a = s :=
    fun a ha => by simpa using (List.mem_filter.1 ha).2
  -- At most one element of the list has this span.
  match hl : l.filter fun a => span a = s with
  | [] =>
      rw [hl] at hperm
      exact (List.nil_perm.1 hperm).symm
  | [a] =>
      rw [hl] at hperm
      exact (List.singleton_perm.1 hperm)
  | a :: b :: rest =>
      rw [hl] at hsub hspan
      have ha := hspan a (by simp)
      have hb := hspan b (by simp)
      simp [ha, hb] at hsub

/-! ## Arrangements -/

/-- Two lists in order that have the same ties are the same. -/
theorem eq_of_sameTies (h : SameTies span l l')
    (hl : l.Pairwise fun a b => (span a).UpTo (span b))
    (hl' : l'.Pairwise fun a b => (span a).UpTo (span b)) : l = l' := by
  induction l generalizing l' with
  | nil => exact (List.nil_perm.1 h.perm).symm
  | cons a rest ih =>
      cases l' with
      | nil => exact List.perm_nil.1 h.perm
      | cons b rest' =>
          obtain ⟨hfirst, hrest⟩ := List.pairwise_cons.1 hl
          obtain ⟨hfirst', hrest'⟩ := List.pairwise_cons.1 hl'
          -- Both heads come first, so their spans are the same, and so are they.
          have hspan : span a = span b := by
            rcases List.mem_cons.1 (h.perm.mem_iff.1 List.mem_cons_self) with heq | ha
            · rw [heq]
            rcases List.mem_cons.1 (h.perm.mem_iff.2 List.mem_cons_self) with heq | hb
            · rw [heq]
            exact (hfirst b hb).antisymm (hfirst' a ha)
          have hhead := h (span a)
          simp only [List.filter_cons, decide_true, if_true, hspan, List.cons.injEq] at hhead
          obtain ⟨rfl, -⟩ := hhead
          rw [ih (fun s => ?_) hrest hrest']
          have htail := h s
          simp only [List.filter_cons] at htail
          split at htail
          · exact (List.cons.inj htail).2
          · exact htail

theorem Arranged.perm (h : Arranged span l sorted) : sorted.Perm l :=
  h.ties.perm

/-- A list has one arrangement, and lists with the same ties share it. -/
theorem Arranged.eq (h : Arranged span l sorted) (h' : Arranged span l' sorted')
    (hties : SameTies span l l') : sorted = sorted' :=
  eq_of_sameTies (h.ties.trans (hties.trans h'.ties.symm)) h.ordered h'.ordered

/-- An arranged list stays arranged when its elements are replaced by others with their spans. -/
theorem Arranged.map {β : Type} {span' : β → Span} {f : α → β} (hf : ∀ a, span' (f a) = span a)
    (h : Arranged span l sorted) : Arranged span' (l.map f) (sorted.map f) where
  ordered := List.pairwise_map.2 (h.ordered.imp fun hle => by rwa [hf, hf])
  ties s := by
    have hties := congrArg (List.map f) (h.ties s)
    simpa only [List.filter_map, Function.comp_def, hf] using hties

/-! ## Sorting -/

variable {le : α → α → Bool}

theorem orderedInsert_filter (hle : ∀ a b, le a b = true ↔ (span a).UpTo (span b)) (a : α)
    (l : List α) (s : Span) :
    (orderedInsert le a l).filter (fun b => span b = s) = (a :: l).filter fun b => span b = s := by
  induction l with
  | nil => rfl
  | cons b rest ih =>
      unfold orderedInsert
      split
      · rfl
      · rename_i hlt
        -- What is passed has another span, so it does not matter for either of them.
        have hne : span a ≠ span b := by
          intro heq
          rw [hle, heq] at hlt
          exact hlt (.inr ⟨rfl, Nat.le_refl _⟩)
        rw [List.filter_cons, ih]
        by_cases ha : span a = s
        · have hb : span b ≠ s := fun hb => hne (ha.trans hb.symm)
          simp [ha, hb]
        · simp [List.filter_cons, ha]

theorem arranged_stableSort (span : α → Span)
    (hle : ∀ a b, le a b = true ↔ (span a).UpTo (span b)) (l : List α) :
    Arranged span l (stableSort le l) where
  ordered := by
    refine (stableSort_pairwise ?_ ?_ l).imp fun h => (hle _ _).1 h
    · intro a b
      rw [hle, hle]
      exact Span.UpTo.total _ _
    · intro a b c hab hbc
      exact (hle a c).2 (((hle a b).1 hab).trans ((hle b c).1 hbc))
  ties := by
    intro s
    induction l with
    | nil => rfl
    | cons a rest ih =>
        rw [stableSort, orderedInsert_filter hle, List.filter_cons, List.filter_cons, ih]

theorem Edit.le_iff {a b : Edit} : a.le b = true ↔ a.span.UpTo b.span := by
  simp [Edit.le, Text.Span.UpTo]

/-- Sorting edits arranges them. -/
theorem Edit.arranged_sorted (edits : List Edit) :
    Arranged (·.span) edits (stableSort Edit.le edits) :=
  arranged_stableSort Edit.span (fun _ _ => le_iff) edits

/-- Sorting changes arranges them. -/
theorem Edit.Change.arranged_sorted (changes : List Edit.Change) :
    Arranged (·.span) changes (stableSort Edit.Change.le changes) :=
  arranged_stableSort Change.span (fun _ _ => Edit.le_iff) changes

end Longhand
