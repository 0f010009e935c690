import Longhand.Proofs.Leads

/-!
# Compacted scripts

Compacting a script leaves it a script between the same lines.  An insertion that moves up past kept
lines goes down again at least as far, so its named place among the old lines never lies further
ahead than the deletions which follow it.
-/

namespace Longhand.Diff

variable {α : Type} {old new : Array α} {i j n m o : Nat} {s t p x : Step}
  {a b steps rest before after : List Step}

/-! ## Insertions and the deletions after them -/

/-- The number of old lines that some steps delete before they keep one. -/
def deletedNext : List Step → Nat
  | [] => 0
  | s :: rest =>
      match s.tag with
      | .keep => 0
      | .delete => s.size + deletedNext rest
      | .insert => deletedNext rest

/-- Whether each insertion of some steps names an old place that the deletions after it reach. -/
def InReach : Nat → List Step → Prop
  | _, [] => True
  | i, s :: rest => (s.tag = .insert → s.old ≤ i + deletedNext rest) ∧ InReach (i + s.oldSpan) rest

theorem inReach_cons : InReach i (s :: rest) ↔
    (s.tag = .insert → s.old ≤ i + deletedNext rest) ∧ InReach (i + s.oldSpan) rest :=
  Iff.rfl

theorem deletedNext_append_congr (h : deletedNext a = deletedNext b) (steps : List Step) :
    deletedNext (steps ++ a) = deletedNext (steps ++ b) := by
  induction steps with
  | nil => exact h
  | cons s steps ih => simp [deletedNext, ih]

theorem InReach.of_append (h : InReach i (a ++ b)) : InReach (i + oldSpan a) b := by
  induction a generalizing i with
  | nil => exact h
  | cons s a ih =>
      rw [oldSpan_cons, ← Nat.add_assoc]
      exact ih h.2

/-- Steps in the middle of a script may be replaced by others that delete as much. -/
theorem InReach.replace {c : List Step} (h : InReach i (a ++ b))
    (hdeleted : deletedNext c = deletedNext b) (hc : InReach (i + oldSpan a) c) :
    InReach i (a ++ c) := by
  induction a generalizing i with
  | nil => exact hc
  | cons s a ih =>
      obtain ⟨hs, hrest⟩ := h
      rw [oldSpan_cons, ← Nat.add_assoc] at hc
      refine ⟨fun htag => ?_, ih hrest hc⟩
      have hnear := hs htag
      rwa [List.append_eq, deletedNext_append_congr hdeleted.symm] at hnear

theorem deletedNext_le_append (a b : List Step) : deletedNext a ≤ deletedNext (a ++ b) := by
  induction a with
  | nil => exact Nat.zero_le _
  | cons s a ih => cases htag : s.tag <;> simp [deletedNext, htag, ih]

theorem InReach.append (ha : InReach i a) (hb : InReach (i + oldSpan a) b) :
    InReach i (a ++ b) := by
  induction a generalizing i with
  | nil => exact hb
  | cons s a ih =>
      rw [oldSpan_cons, ← Nat.add_assoc] at hb
      refine ⟨fun htag => ?_, ih ha.2 hb⟩
      exact Nat.le_trans (ha.1 htag) (Nat.add_le_add_left (deletedNext_le_append a b) i)

/-- The named place of the first step does not bound what follows it. -/
theorem InReach.setOld (h : InReach i (s :: rest)) (ho : s.tag = .insert → o ≤ i + deletedNext rest) :
    InReach i ({ s with old := o } :: rest) :=
  ⟨ho, h.2⟩

theorem deletedNext_swap (hs : s.tag ≠ .keep) (ht : t.tag ≠ .keep) (hne : s.tag ≠ t.tag) :
    deletedNext (t :: s :: rest) = deletedNext (s :: t :: rest) := by
  obtain ⟨_ | _ | _, o, q, k⟩ := s <;> obtain ⟨_ | _ | _, o', q', k'⟩ := t <;>
    simp_all [deletedNext]

theorem InReach.swap (hs : s.tag ≠ .keep) (ht : t.tag ≠ .keep) (hne : s.tag ≠ t.tag)
    (h : InReach i (s :: t :: rest)) : InReach i (t :: s :: rest) := by
  obtain ⟨_ | _ | _, o, q, k⟩ := s <;> obtain ⟨_ | _ | _, o', q', k'⟩ := t <;>
    simp_all [inReach_cons, deletedNext, Nat.add_assoc]

theorem deletedNext_join (hst : s.tag = t.tag) :
    deletedNext ({ s with size := s.size + t.size } :: rest) = deletedNext (s :: t :: rest) := by
  obtain ⟨_ | _ | _, o, q, k⟩ := s <;> obtain ⟨_ | _ | _, o', q', k'⟩ := t <;>
    simp_all [deletedNext, Nat.add_assoc]

theorem InReach.join (hst : s.tag = t.tag) (h : InReach i (s :: t :: rest)) :
    InReach i ({ s with size := s.size + t.size } :: rest) := by
  obtain ⟨_ | _ | _, o, q, k⟩ := s <;> obtain ⟨_ | _ | _, o', q', k'⟩ := t <;>
    simp_all [inReach_cons, deletedNext, Nat.add_assoc]

theorem inReach_keepStep {q : Nat} : InReach i (keepStep o q n ++ rest) ↔ InReach (i + n) rest := by
  unfold keepStep
  split
  · rename_i hn
    subst hn
    rfl
  · simp [inReach_cons]

theorem deletedNext_keepStep {q : Nat} (hn : 0 < n) : deletedNext (keepStep o q n ++ rest) = 0 := by
  rw [keepStep, if_neg (by omega)]
  rfl

theorem InReach.keepAbove {q : Nat} (h : InReach (i + n) rest) :
    InReach i (keepAbove o q n rest) := by
  unfold Diff.keepAbove
  split
  · rename_i s rest
    split
    · rename_i hkeep
      obtain ⟨_ | _ | _, o, q, k⟩ := s <;> cases hkeep
      simpa [inReach_cons, Nat.add_assoc, Nat.add_comm n] using h
    · simpa [inReach_cons] using h
  · simpa [inReach_cons] using h

theorem deletedNext_keepAbove {q : Nat} : deletedNext (keepAbove o q n rest) = 0 := by
  unfold keepAbove
  split
  · split <;> rfl
  · rfl

theorem InReach.keepBelow {q : Nat} (hn : 0 < n)
    (h : InReach i (before.reverse ++ (keepStep o q n ++ rest))) :
    InReach i ((keepBelow o q n before).reverse ++ rest) := by
  rw [keepStep, if_neg (by omega)] at h
  unfold Diff.keepBelow
  split
  · rename_i s before
    split
    · rename_i hkeep
      rw [List.reverse_cons, List.append_assoc] at h ⊢
      exact h.replace (deletedNext_join (t := ⟨.keep, o, q, n⟩) hkeep)
        (InReach.join (t := ⟨.keep, o, q, n⟩) hkeep h.of_append)
    · simpa using h
  · simpa using h

theorem oldSpan_keepStep {q : Nat} : oldSpan (keepStep o q n) = n := by
  simp [oldSpan, total_keepStep, share]

theorem newSpan_keepStep {q : Nat} : newSpan (keepStep o q n) = n := by
  simp [newSpan, total_keepStep, share]

theorem oldSpan_keepBelow {q : Nat} : oldSpan (keepBelow o q n before) = n + oldSpan before := by
  unfold keepBelow
  split
  · split
    · rename_i hkeep
      simp [Step.oldSpan, hkeep]
      omega
    · simp
  · simp

/-! ## Insertions that go down again -/

/-- Whether an insertion that stands at two places and names the old place `o` gets as far as the
place that it names when it moves down past some steps.  Its named place moves with it over kept
lines, and stays behind over deleted ones. -/
def CatchesUp (old new : Array α) : Nat → Nat → Nat → List Step → Prop
  | o, i, _, [] => o ≤ i
  | o, i, j, s :: rest => o ≤ i ∨
      match s.tag with
      | .keep => Alike old new s.old j s.size ∧
          CatchesUp old new (o + s.size) (i + s.size) (j + s.size) rest
      | .delete => CatchesUp old new o (i + s.size) j rest
      | .insert => CatchesUp old new o i j rest

theorem CatchesUp.of_le (h : o ≤ i) : CatchesUp old new o i j steps := by
  cases steps with
  | nil => exact h
  | cons s rest => exact .inl h

theorem CatchesUp.of_le_deletedNext (h : o ≤ i + deletedNext steps) :
    CatchesUp old new o i j steps := by
  induction steps generalizing i with
  | nil => exact h
  | cons s rest ih =>
      obtain ⟨_ | _ | _, o', q, k⟩ := s
      · exact .inl h
      · exact .inr (ih (by simpa [deletedNext, Nat.add_assoc] using h))
      · exact .inr (ih h)

theorem CatchesUp.past_delete (hs : s.tag = .delete) (h : CatchesUp old new o i j (s :: rest)) :
    CatchesUp old new o (i + s.size) j rest := by
  obtain ⟨_ | _ | _, o', q, k⟩ := s <;> cases hs
  cases h with
  | inl h => exact .of_le (by omega)
  | inr h => exact h

theorem CatchesUp.past_insert (hs : s.tag = .insert) (h : CatchesUp old new o i j (s :: rest)) :
    CatchesUp old new o i j rest := by
  obtain ⟨_ | _ | _, o', q, k⟩ := s <;> cases hs
  cases h with
  | inl h => exact .of_le h
  | inr h => exact h

theorem CatchesUp.past_keep (hs : s.tag = .keep) (hn : n ≤ s.size)
    (h : CatchesUp old new o i j (s :: rest)) :
    CatchesUp old new (o + n) (i + n) (j + n)
      (keepStep (s.old + n) (s.new + n) (s.size - n) ++ rest) := by
  obtain ⟨_ | _ | _, o', q, k⟩ := s <;> cases hs
  dsimp only at hn ⊢
  cases h with
  | inl h => exact .of_le (by omega)
  | inr h =>
      obtain ⟨halike, hrest⟩ := h
      unfold keepStep
      split
      · rename_i hall
        obtain rfl : k = n := by omega
        exact hrest
      · refine .inr ⟨halike.drop hn, ?_⟩
        have hsum : ∀ l, l + n + (k - n) = l + k := fun l => by omega
        simp only [hsum]
        exact hrest

theorem CatchesUp.back_keep {q : Nat} (hi : n ≤ i) (hj : n ≤ j) (hleads : Leads old new i m rest)
    (halike : Alike old new (i - n) (j - n) n) (h : CatchesUp old new o i j rest) :
    CatchesUp old new (o - n) (i - n) (j - n) (keepAbove (i - n) q n rest) := by
  by_cases ho : o ≤ i
  · exact .of_le (by omega)
  have hback : ∀ {l}, n ≤ l → l - n + n = l := fun hl => Nat.sub_add_cancel hl
  unfold keepAbove
  split
  · rename_i s rest
    split
    · rename_i hkeep
      obtain ⟨_ | _ | _, o', q', k⟩ := s <;> cases hkeep
      obtain ⟨-, rfl, -, -⟩ := hleads.1
      obtain hle | ⟨hkept, hrest⟩ := h
      · exact absurd hle ho
      · have hsum : ∀ {l}, n ≤ l → l - n + (k + n) = l + k := fun hl => by omega
        refine .inr ⟨?_, ?_⟩
        · rw [Nat.add_comm k, alike_add, hback hi, hback hj]
          exact ⟨halike, hkept⟩
        · dsimp only
          rw [hsum hi, hsum hj, hsum (by omega)]
          exact hrest
    · refine .inr ⟨halike, ?_⟩
      dsimp only
      rwa [hback hi, hback hj, hback (by omega)]
  · refine .inr ⟨halike, ?_⟩
    dsimp only
    rwa [hback hi, hback hj, hback (by omega)]

/-! ## Moves -/

/-- Whether a script with one step picked out is one between the old and the new lines.  The picked
step may be an insertion on its way, which only has to catch up with the place that it names. -/
structure Focus.Sound (old new : Array α) (f : Focus) : Prop where
  kind : f.step.tag ≠ .keep
  leads : Leads old new 0 0 (f.before.reverse ++ f.step :: f.after)
  inReach : InReach 0 (f.before.reverse ++ { f.step with old := 0 } :: f.after)
  catchesUp : f.step.tag = .insert →
    CatchesUp old new f.step.old (oldSpan f.before) f.step.new f.after

namespace Focus.Sound

theorem swapUp (h : Sound old new ⟨p :: before, t, after⟩) (hp : p.tag ≠ .keep)
    (hne : p.tag ≠ t.tag) : Sound old new ⟨before, t, p :: after⟩ := by
  obtain ⟨hkind, hleads, hreach, hcatches⟩ := h
  simp only [List.reverse_cons, List.append_assoc, List.singleton_append] at hleads hreach
  constructor
  · exact hkind
  · exact hleads.replace fun _ _ => Leads.swap hp hkind hne
  · exact hreach.replace (deletedNext_swap hp hkind hne) (hreach.of_append.swap hp hkind hne)
  · intro hinsert
    have hdelete : p.tag = .delete := by
      cases htag : p.tag <;> simp_all
    have h := hcatches hinsert
    obtain ⟨_ | _ | _, o, q, k⟩ := p <;> cases hdelete
    rw [oldSpan_cons, oldSpan_delete, Nat.add_comm] at h
    exact .inr h

theorem swapDown (h : Sound old new ⟨before, t, x :: after⟩) (hx : x.tag ≠ .keep)
    (hne : x.tag ≠ t.tag) : Sound old new ⟨x :: before, t, after⟩ := by
  obtain ⟨hkind, hleads, hreach, hcatches⟩ := h
  constructor
  · exact hkind
  · simp only [List.reverse_cons, List.append_assoc, List.singleton_append]
    exact hleads.replace fun _ _ => Leads.swap hkind hx hne.symm
  · simp only [List.reverse_cons, List.append_assoc, List.singleton_append]
    exact hreach.replace (deletedNext_swap (s := { t with old := 0 }) hkind hx hne.symm)
      (hreach.of_append.swap hkind hx hne.symm)
  · intro hinsert
    have hdelete : x.tag = .delete := by
      cases htag : x.tag <;> simp_all
    have h := (hcatches hinsert).past_delete hdelete
    obtain ⟨_ | _ | _, o, q, k⟩ := x <;> cases hdelete
    rwa [oldSpan_cons, oldSpan_delete, Nat.add_comm]

theorem joinUp (h : Sound old new ⟨p :: before, t, after⟩) (hpt : p.tag = t.tag) :
    Sound old new ⟨before, { p with size := p.size + t.size }, after⟩ := by
  obtain ⟨hkind, hleads, hreach, -⟩ := h
  simp only [List.reverse_cons, List.append_assoc, List.singleton_append] at hleads hreach
  have hjoin := InReach.join (s := p) (t := { t with old := 0 }) hpt hreach.of_append
  constructor
  · exact fun hkeep => hkind (hpt.symm.trans hkeep)
  · exact hleads.replace fun _ _ => Leads.join hpt
  · exact hreach.replace (deletedNext_join (s := p) (t := { t with old := 0 }) hpt)
      (hjoin.setOld fun _ => Nat.zero_le _)
  · intro hinsert
    -- The joined insertion names the place of the upper one, which had caught up.
    have hnear := hjoin.1 hinsert
    rw [Nat.zero_add, oldSpan_reverse] at hnear
    exact .of_le_deletedNext hnear

theorem joinDown (h : Sound old new ⟨before, t, x :: after⟩) (hxt : x.tag = t.tag) :
    Sound old new ⟨before, { t with size := t.size + x.size }, after⟩ := by
  obtain ⟨hkind, hleads, hreach, hcatches⟩ := h
  constructor
  · exact hkind
  · exact hleads.replace fun _ _ => Leads.join hxt.symm
  · exact hreach.replace (deletedNext_join (s := { t with old := 0 }) (t := x) hxt.symm)
      (InReach.join (s := { t with old := 0 }) (t := x) hxt.symm hreach.of_append)
  · intro hinsert
    exact (hcatches hinsert).past_insert (hxt.trans hinsert)

theorem slideUp (h : Sound old new ⟨p :: before, t, after⟩) (hp : p.tag = .keep)
    (ht : t.tag = .insert) (hpos : 0 < n) (hn : n ≤ p.size)
    (halike : Alike old new (p.old + p.size - n) (t.new + t.size - n) n) :
    Sound old new
      ⟨if p.size = n then before else { p with size := p.size - n } :: before,
        { t with old := t.old - n, new := t.new - n },
        keepAbove (p.old + p.size - n) (t.new + t.size - n) n after⟩ := by
  obtain ⟨hkind, hleads, hreach, hcatches⟩ := h
  -- Read from the front, the lines that stay with the kept step come last.
  have hbefore : (if p.size = n then before else { p with size := p.size - n } :: before).reverse =
      before.reverse ++ keepStep p.old p.new (p.size - n) := by
    unfold keepStep
    split
    · rw [if_pos (by omega), List.append_nil]
    · rw [if_neg (by omega), List.reverse_cons, hp]
  simp only [List.reverse_cons, List.append_assoc, List.singleton_append] at hleads hreach
  constructor
  · exact hkind
  · rw [hbefore, List.append_assoc]
    exact hleads.replace fun _ _ => Leads.slideUp hp ht hpos hn halike
  · rw [hbefore, List.append_assoc]
    refine hreach.replace ?_ ?_
    · -- No deletion comes before the kept lines, wherever they stand.
      have hup : deletedNext ({ t with old := 0, new := t.new - n } ::
          keepAbove (p.old + p.size - n) (t.new + t.size - n) n after) = 0 := by
        simp [deletedNext, ht, deletedNext_keepAbove]
      have hdown : ∀ rest, deletedNext (p :: rest) = 0 := fun rest => by simp [deletedNext, hp]
      rw [hdown]
      rcases Nat.eq_zero_or_pos (p.size - n) with hall | hsome
      · rwa [hall]
      · exact deletedNext_keepStep hsome
    · rw [inReach_keepStep]
      have hrest := hreach.of_append.2.2
      simp only [Step.oldSpan, hp, ht, reduceCtorEq, if_true, if_false, Nat.add_zero] at hrest
      refine ⟨fun _ => Nat.zero_le _, ?_⟩
      simp only [Step.oldSpan, ht, if_true, Nat.add_zero]
      apply InReach.keepAbove
      rwa [Nat.add_assoc, Nat.sub_add_cancel hn]
  · intro hinsert
    -- The lines that the insertion has passed are alike, so it can still catch up.
    have hold : oldSpan (if p.size = n then before else { p with size := p.size - n } :: before) =
        oldSpan (p :: before) - n := by
      have hsum := congrArg oldSpan hbefore
      rw [oldSpan_reverse, oldSpan_append, oldSpan_reverse] at hsum
      rw [hsum, oldSpan_cons, oldSpan_keepStep, Step.oldSpan, hp, if_neg (by simp)]
      omega
    have h := hcatches hinsert
    obtain ⟨_ | _ | _, o, q, k⟩ := p <;> cases hp
    obtain ⟨_ | _ | _, o', q', k'⟩ := t <;> cases ht
    simp only [leads_append, leads_cons, fits_keep, fits_insert, oldSpan_keep, newSpan_keep,
      oldSpan_insert, newSpan_insert, oldSpan_reverse, Nat.zero_add, Nat.add_zero] at hleads
    obtain ⟨-, ⟨-, rfl, rfl, hkept⟩, ⟨-, rfl⟩, hrest⟩ := hleads
    rw [hold]
    rw [oldSpan_cons, oldSpan_keep, Nat.add_comm k] at h ⊢
    dsimp only at hn ⊢
    refine h.back_keep (by omega) (by omega) hrest ?_
    have hdrop := hkept.drop (Nat.sub_le k n)
    rwa [Nat.sub_sub_self hn, ← Nat.add_sub_assoc hn, ← Nat.add_sub_assoc hn] at hdrop

theorem slideDown (h : Sound old new ⟨before, t, x :: after⟩) (hx : x.tag = .keep)
    (ht : t.tag = .insert) (hpos : 0 < n) (hn : n ≤ x.size) (halike : Alike old new x.old t.new n) :
    Sound old new
      ⟨keepBelow x.old t.new n before, { t with old := t.old + n, new := t.new + n },
        if x.size = n then after
          else ⟨.keep, x.old + n, x.new + n, x.size - n⟩ :: after⟩ := by
  obtain ⟨hkind, hleads, hreach, hcatches⟩ := h
  have hafter : (if x.size = n then after else ⟨.keep, x.old + n, x.new + n, x.size - n⟩ :: after) =
      keepStep (x.old + n) (x.new + n) (x.size - n) ++ after := by
    unfold keepStep
    split
    · rw [if_pos (by omega), List.nil_append]
    · rw [if_neg (by omega), List.singleton_append]
  rw [hafter]
  constructor
  · exact hkind
  · apply Leads.keepBelow hpos
    exact hleads.replace fun _ _ => Leads.slideDown hx ht hn halike
  · apply InReach.keepBelow hpos
    refine hreach.replace ?_ ?_
    · rw [deletedNext_keepStep hpos]
      simp [deletedNext, hx, ht]
    · rw [inReach_keepStep]
      have hrest := hreach.of_append.2.2
      simp only [Step.oldSpan, hx, ht, reduceCtorEq, if_true, if_false, Nat.add_zero] at hrest
      refine ⟨fun _ => Nat.zero_le _, ?_⟩
      simp only [Step.oldSpan, ht, if_true, Nat.add_zero]
      rwa [inReach_keepStep, Nat.add_assoc, Nat.add_sub_cancel' hn]
  · intro hinsert
    rw [oldSpan_keepBelow, Nat.add_comm n]
    exact (hcatches hinsert).past_keep hx hn

end Focus.Sound

/-! ## Scripts -/

/-- Whether some steps are a script between the old and the new lines from two places on. -/
structure IsScript (old new : Array α) (i j : Nat) (steps : List Step) : Prop where
  leads : Leads old new i j steps
  inReach : InReach i steps

theorem IsScript.append (ha : IsScript old new i j a)
    (hb : IsScript old new (i + oldSpan a) (j + newSpan a) b) : IsScript old new i j (a ++ b) :=
  ⟨leads_append.2 ⟨ha.leads, hb.leads⟩, ha.inReach.append hb.inReach⟩

theorem isScript_keepStep (h : Alike old new i j n) : IsScript old new i j (keepStep i j n) := by
  constructor
  · have hleads := leads_keepStep.2 ⟨h, leads_nil⟩
    rwa [List.append_nil] at hleads
  · have hreach : InReach i (keepStep i j n ++ []) := inReach_keepStep.2 trivial
    rwa [List.append_nil] at hreach

theorem isScript_replaced (b : Box) : IsScript old new b.oldStart b.newStart b.replaced := by
  unfold Box.replaced
  constructor
  · split <;> split <;> simp [leads_cons, leads_nil] <;> omega
  · split <;> split <;> simp [inReach_cons, InReach]
    omega

/-- Scripts of the two halves of a box make up one of the box. -/
theorem IsScript.halves {b : Box} {x y : Nat} (hwithin : b.Within (x, y))
    (hcovers : Covers { b with oldStop := x, newStop := y } a)
    (ha : IsScript old new b.oldStart b.newStart a) (hrest : IsScript old new x y rest) :
    IsScript old new b.oldStart b.newStart (a ++ rest) := by
  obtain ⟨⟨hx, -⟩, hy, -⟩ := hwithin
  obtain ⟨hold, hnew⟩ := hcovers
  apply ha.append
  rw [oldSpan, newSpan, hold, hnew, Box.oldSize, Box.newSize, Nat.add_sub_cancel' hx,
    Nat.add_sub_cancel' hy]
  exact hrest

/-- Lines that are kept at both ends make up a script with the one in between. -/
theorem IsScript.around {b : Box} {front back : Nat} (hb : b.Sane)
    (hold : front + back ≤ b.oldSize) (hnew : front + back ≤ b.newSize)
    (hfront : Alike old new b.oldStart b.newStart front)
    (hback : Alike old new (b.oldStop - back) (b.newStop - back) back)
    (h : Covers ⟨b.oldStart + front, b.oldStop - back, b.newStart + front, b.newStop - back⟩ a ∧
      IsScript old new (b.oldStart + front) (b.newStart + front) a) :
    IsScript old new b.oldStart b.newStart (keepStep b.oldStart b.newStart front ++ a ++
      keepStep (b.oldStop - back) (b.newStop - back) back) := by
  obtain ⟨⟨hold', hnew'⟩, ha⟩ := h
  obtain ⟨hsane, hsane'⟩ := hb
  simp only [Box.oldSize, Box.newSize] at hold hnew hold' hnew'
  rw [List.append_assoc]
  apply (isScript_keepStep hfront).append
  rw [oldSpan_keepStep, newSpan_keepStep]
  apply ha.append
  have hi : b.oldStart + front + oldSpan a = b.oldStop - back := by
    rw [oldSpan]
    omega
  have hj : b.newStart + front + newSpan a = b.newStop - back := by
    rw [newSpan]
    omega
  rw [hi, hj]
  exact isScript_keepStep hback

/-- Any deletion or insertion of a script may be picked out. -/
theorem IsScript.pick (h : IsScript old new 0 0 (before.reverse ++ t :: after))
    (ht : t.tag ≠ .keep) : Focus.Sound old new ⟨before, t, after⟩ := by
  obtain ⟨hleads, hreach⟩ := h
  have hrest := hreach.of_append
  constructor
  · exact ht
  · exact hleads
  · refine hreach.replace ?_ (hrest.setOld fun _ => Nat.zero_le _)
    rfl
  · intro hinsert
    have hnear := hrest.1 hinsert
    rw [Nat.zero_add, oldSpan_reverse] at hnear
    exact .of_le_deletedNext hnear

/-- A step that has caught up with the place that it names goes back into its script. -/
theorem Focus.Sound.isScript {f : Focus} (h : f.Sound old new)
    (hcaught : f.step.tag = .insert → f.step.old ≤ oldSpan f.before) :
    IsScript old new 0 0 (f.before.reverse ++ f.step :: f.after) := by
  obtain ⟨-, hleads, hreach, -⟩ := h
  refine ⟨hleads, hreach.replace rfl ⟨fun hinsert => ?_, hreach.of_append.2⟩⟩
  have hold := hcaught hinsert
  rw [Nat.zero_add, oldSpan_reverse]
  omega

section Moved

variable [BEq α] [LawfulBEq α] {f : Focus}

theorem moveUp_sound (fuel : Nat) (h : f.Sound old new) :
    (moveUp old new fuel f).Sound old new ∧ (moveUp old new fuel f).step.tag = f.step.tag := by
  induction fuel generalizing f with
  | zero => exact ⟨h, rfl⟩
  | succ fuel ih =>
      obtain ⟨before, t, after⟩ := f
      cases before with
      | nil => exact ⟨h, rfl⟩
      | cons p before =>
          simp only [moveUp]
          split
          · rename_i hkeep
            generalize hshift : (if t.tag = .insert then commonRunBack old new (p.old + p.size)
              (t.new + t.size) (min p.size t.size) else 0) = shift
            split
            · exact ⟨h, rfl⟩
            rename_i hne
            have ht : t.tag = .insert :=
              Decidable.byContradiction fun ht => hne (by rw [← hshift, if_neg ht])
            rw [if_pos ht] at hshift
            have hle := commonRunBack_le old new (p.old + p.size) (t.new + t.size)
              (min p.size t.size)
            have hrun := alike_commonRunBack old new (p.old + p.size) (t.new + t.size)
              (min p.size t.size)
            rw [hshift] at hle hrun
            exact ih (h.slideUp hkeep ht (Nat.pos_of_ne_zero hne) (by omega) hrun.2.2)
          · rename_i hkeep
            split
            · rename_i hsame
              have hmoved := ih (h.joinUp hsame)
              exact ⟨hmoved.1, hmoved.2.trans hsame⟩
            · rename_i hne
              exact ih (h.swapUp hkeep hne)

/-- An insertion stops above kept lines only where it has caught up with the place that it names. -/
theorem Focus.Sound.caughtUp (h : Focus.Sound old new ⟨before, t, x :: after⟩) (hx : x.tag = .keep)
    (ht : t.tag = .insert) (hstop : commonRun old new x.old t.new (min x.size t.size) = 0) :
    t.old ≤ oldSpan before := by
  obtain ⟨-, hleads, -, hcatches⟩ := h
  obtain ⟨-, ⟨hsize, -⟩, ⟨hsize', -⟩, -⟩ := leads_append.1 hleads
  dsimp only at hsize
  obtain ⟨_ | _ | _, o, q, k⟩ := x <;> cases hx
  cases hcatches ht with
  | inl h => exact h
  | inr h =>
      have hmin : 0 < min k t.size := by
        dsimp only at hsize'
        omega
      exact absurd hstop (Nat.ne_of_gt (commonRun_pos h.1 hsize' hmin))

/-- A step that has moved down all the way has caught up with the place that it names. -/
theorem moveDown_sound {fuel : Nat} (hfuel : weight f.after ≤ fuel) (h : f.Sound old new) :
    (moveDown old new fuel f).Sound old new ∧ ((moveDown old new fuel f).step.tag = .insert →
      (moveDown old new fuel f).step.old ≤ oldSpan (moveDown old new fuel f).before) := by
  induction fuel generalizing f with
  | zero =>
      obtain ⟨before, t, after⟩ := f
      cases after with
      | nil => exact ⟨h, h.catchesUp⟩
      | cons x after => simp [weight] at hfuel
  | succ fuel ih =>
      obtain ⟨before, t, after⟩ := f
      cases after with
      | nil => exact ⟨h, h.catchesUp⟩
      | cons x after =>
          simp only [weight, List.foldr_cons] at hfuel ih
          simp only [moveDown]
          split
          · rename_i hkeep
            generalize hshift : (if t.tag = .insert then commonRun old new x.old t.new
              (min x.size t.size) else 0) = shift
            split
            · rename_i hzero
              refine ⟨h, fun hinsert => h.caughtUp hkeep hinsert ?_⟩
              rwa [if_pos hinsert, hzero] at hshift
            rename_i hne
            -- Only an insertion slides, and each slide leaves fewer steps or lines below it.
            have ht : t.tag = .insert :=
              Decidable.byContradiction fun ht => hne (by rw [← hshift, if_neg ht])
            rw [if_pos ht] at hshift
            have hle := commonRun_le old new x.old t.new (min x.size t.size)
            have hrun := alike_commonRun old new x.old t.new (min x.size t.size)
            rw [hshift] at hle hrun
            refine ih ?_ (h.slideDown hkeep ht (Nat.pos_of_ne_zero hne) (by omega) hrun)
            dsimp only
            split
            · omega
            · rw [List.foldr_cons]
              dsimp only
              omega
          · rename_i hkeep
            split
            · rename_i hsame
              exact ih (by dsimp only; omega) (h.joinDown hsame)
            · rename_i hne
              exact ih (by dsimp only; omega) (h.swapDown hkeep hne)

theorem compactTag_isScript {tag : Tag} (htag : tag ≠ .keep) (fuel : Nat)
    (h : IsScript old new 0 0 (before.reverse ++ after)) :
    IsScript old new 0 0 (compactTag old new tag fuel before after) := by
  induction fuel generalizing before after with
  | zero => exact h
  | succ fuel ih =>
      cases after with
      | nil => simpa [compactTag] using h
      | cons t after =>
          rw [compactTag]
          split
          · rename_i ht
            apply ih
            have hup := (moveUp_sound (weight before) (h.pick (ht ▸ htag))).1
            have hdown := moveDown_sound (Nat.le_refl _) hup
            have hscript := hdown.1.isScript hdown.2
            rwa [List.reverse_cons, List.append_assoc]
          · apply ih
            rwa [List.reverse_cons, List.append_assoc]

/-- Compacting a script leaves it a script between the same lines. -/
theorem compact_isScript (h : IsScript old new 0 0 steps) :
    IsScript old new 0 0 (compact old new steps) := by
  apply compactTag_isScript (by simp)
  exact compactTag_isScript (by simp) _ h

omit [LawfulBEq α] in
/-- The steps between the lines that two ranges keep at both ends are a script, if those between
smaller ranges are. -/
theorem middle_isScript {b : Box} (hb : b.Sane) {fuel : Nat}
    (ih : ∀ {c : Box}, c.Sane → IsScript old new c.oldStart c.newStart (solve old new c fuel)) :
    let middle :=
      if b.oldSize = 0 || b.newSize = 0 then b.replaced
      else
        match meeting? old new b with
        | none => b.replaced
        | some (x, y) =>
            solve old new { b with oldStop := x, newStop := y } fuel ++
              solve old new { b with oldStart := x, newStart := y } fuel
    Covers b middle ∧ IsScript old new b.oldStart b.newStart middle := by
  dsimp only
  split
  · exact ⟨covers_replaced b, isScript_replaced b⟩
  split
  · exact ⟨covers_replaced b, isScript_replaced b⟩
  · rename_i x y hmeeting
    have hwithin := meeting?_within hb hmeeting
    have hfirst : Box.Sane { b with oldStop := x, newStop := y } := ⟨hwithin.old.1, hwithin.new.1⟩
    have hsecond : Box.Sane { b with oldStart := x, newStart := y } :=
      ⟨hwithin.old.2, hwithin.new.2⟩
    have hcovers := solve_covers old new hfirst fuel
    constructor
    · exact .append hwithin hcovers (solve_covers old new hsecond fuel)
    · exact .halves hwithin hcovers (ih hfirst) (ih hsecond)

/-- The steps between two ranges are a script from where the ranges start. -/
theorem solve_isScript {b : Box} (hb : b.Sane) (fuel : Nat) :
    IsScript old new b.oldStart b.newStart (solve old new b fuel) := by
  induction fuel generalizing b with
  | zero => exact isScript_replaced b
  | succ fuel ih =>
      have hfront := Box.common_le old new b
      have hback := Box.commonBack_le old new { b with
        oldStart := b.oldStart + b.common old new, newStart := b.newStart + b.common old new }
      have hrunBack := alike_commonRunBack old new b.oldStop b.newStop
        (min (b.oldStop - (b.oldStart + b.common old new))
          (b.newStop - (b.newStart + b.common old new)))
      have hb' := hb
      obtain ⟨hold, hnew⟩ := hb'
      rw [solve]
      refine .around hb ?_ ?_ (alike_commonRun old new _ _ _) hrunBack.2.2
        (middle_isScript ⟨?_, ?_⟩ ih)
      all_goals
        simp only [Box.oldSize, Box.newSize] at *
        omega

theorem script_isScript (old new : Array α) : IsScript old new 0 0 (script old new) :=
  solve_isScript (b := ⟨0, old.size, 0, new.size⟩) ⟨Nat.zero_le _, Nat.zero_le _⟩ _

end Moved

end Longhand.Diff
