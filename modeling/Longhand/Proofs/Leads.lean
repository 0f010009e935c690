import Longhand.Proofs.Total

/-!
# Where a script leads

Followed from two places on, the steps of a script walk over the old and the new lines.  A step names
the place where it stands among the lines that it treats.  The other place that it names may be off:
a deletion moves past insertions, and an insertion past deletions, without a change of what they say.
How far an insertion can be off among the old lines is bounded by the deletions that follow it.
-/

namespace Longhand.Diff

variable {α : Type} {old new : Array α} {i j n m : Nat} {s t : Step} {a b steps rest : List Step}

/-! ## Equal lines -/

/-- Whether some old lines from a place on equal the new ones from another place on. -/
def Alike (old new : Array α) (i j n : Nat) : Prop :=
  ∀ k < n, ∃ x, old[i + k]? = some x ∧ new[j + k]? = some x

theorem alike_zero : Alike old new i j 0 :=
  fun _ hk => absurd hk (Nat.not_lt_zero _)

theorem alike_add : Alike old new i j (n + m) ↔
    Alike old new i j n ∧ Alike old new (i + n) (j + n) m := by
  constructor
  · intro h
    constructor
    · intro k hk
      exact h k (by omega)
    · intro k hk
      rw [Nat.add_assoc, Nat.add_assoc]
      exact h (n + k) (by omega)
  · rintro ⟨hfirst, hsecond⟩ k hk
    by_cases hkn : k < n
    · exact hfirst k hkn
    · obtain ⟨l, rfl⟩ : ∃ l, k = n + l := ⟨k - n, by omega⟩
      rw [← Nat.add_assoc, ← Nat.add_assoc]
      exact hsecond l (by omega)

theorem Alike.take (h : Alike old new i j n) (hm : m ≤ n) : Alike old new i j m :=
  fun k hk => h k (by omega)

theorem Alike.drop (h : Alike old new i j n) (hm : m ≤ n) :
    Alike old new (i + m) (j + m) (n - m) := by
  rw [← Nat.add_sub_cancel' hm, alike_add] at h
  exact h.2

section Runs

variable [BEq α] [LawfulBEq α]

theorem alike_commonRun (old new : Array α) (i j limit : Nat) :
    Alike old new i j (commonRun old new i j limit) := by
  induction limit generalizing i j with
  | zero => exact alike_zero
  | succ limit ih =>
      unfold commonRun
      split
      · rename_i x y hx hy
        split
        · rename_i hxy
          obtain rfl : x = y := by simpa using hxy
          rw [Nat.add_comm, alike_add]
          constructor
          · intro k hk
            obtain rfl : k = 0 := by omega
            exact ⟨x, hx, hy⟩
          · exact ih (i + 1) (j + 1)
        · exact alike_zero
      · exact alike_zero

theorem alike_commonRunBack (old new : Array α) (i j limit : Nat) :
    commonRunBack old new i j limit ≤ i ∧ commonRunBack old new i j limit ≤ j ∧
      Alike old new (i - commonRunBack old new i j limit) (j - commonRunBack old new i j limit)
        (commonRunBack old new i j limit) := by
  induction limit generalizing i j with
  | zero => simp [commonRunBack, alike_zero]
  | succ limit ih =>
      unfold commonRunBack
      split
      · rename_i i j
        split
        · rename_i x y hx hy
          split
          · rename_i hxy
            obtain rfl : x = y := by simpa using hxy
            obtain ⟨hi, hj, halike⟩ := ih i j
            refine ⟨by omega, by omega, ?_⟩
            rw [Nat.succ_eq_add_one, Nat.succ_eq_add_one, Nat.add_sub_add_right,
              Nat.add_sub_add_right, alike_add]
            refine ⟨halike, fun k hk => ?_⟩
            obtain rfl : k = 0 := by omega
            rw [Nat.sub_add_cancel hi, Nat.sub_add_cancel hj]
            exact ⟨x, hx, hy⟩
          · exact ⟨Nat.zero_le _, Nat.zero_le _, alike_zero⟩
        · exact ⟨Nat.zero_le _, Nat.zero_le _, alike_zero⟩
      · exact ⟨Nat.zero_le _, Nat.zero_le _, alike_zero⟩

/-- A run stops at once only where the first lines differ. -/
theorem commonRun_pos {limit : Nat} (h : Alike old new i j n) (hn : 0 < n) (hlimit : 0 < limit) :
    0 < commonRun old new i j limit := by
  obtain ⟨limit, rfl⟩ : ∃ l, limit = l + 1 := ⟨limit - 1, by omega⟩
  obtain ⟨x, hx, hy⟩ := h 0 hn
  rw [Nat.add_zero] at hx hy
  simp [commonRun, hx, hy]

end Runs

/-! ## Walks -/

/-- The number of old lines that a step treats. -/
def Step.oldSpan (s : Step) : Nat :=
  if s.tag = .insert then 0 else s.size

/-- The number of new lines that a step treats. -/
def Step.newSpan (s : Step) : Nat :=
  if s.tag = .delete then 0 else s.size

section

variable (o q k : Nat)

@[simp] theorem oldSpan_keep : (⟨.keep, o, q, k⟩ : Step).oldSpan = k := rfl

@[simp] theorem newSpan_keep : (⟨.keep, o, q, k⟩ : Step).newSpan = k := rfl

@[simp] theorem oldSpan_delete : (⟨.delete, o, q, k⟩ : Step).oldSpan = k := rfl

@[simp] theorem newSpan_delete : (⟨.delete, o, q, k⟩ : Step).newSpan = 0 := rfl

@[simp] theorem oldSpan_insert : (⟨.insert, o, q, k⟩ : Step).oldSpan = 0 := rfl

@[simp] theorem newSpan_insert : (⟨.insert, o, q, k⟩ : Step).newSpan = k := rfl

end

/-- The number of old lines that some steps treat. -/
def oldSpan (steps : List Step) : Nat :=
  total .keep steps + total .delete steps

/-- The number of new lines that some steps treat. -/
def newSpan (steps : List Step) : Nat :=
  total .keep steps + total .insert steps

@[simp] theorem oldSpan_nil : oldSpan [] = 0 := rfl

@[simp] theorem newSpan_nil : newSpan [] = 0 := rfl

@[simp] theorem oldSpan_cons (s : Step) (rest : List Step) :
    oldSpan (s :: rest) = s.oldSpan + oldSpan rest := by
  cases htag : s.tag <;> simp [oldSpan, Step.oldSpan, share, htag] <;> omega

@[simp] theorem newSpan_cons (s : Step) (rest : List Step) :
    newSpan (s :: rest) = s.newSpan + newSpan rest := by
  cases htag : s.tag <;> simp [newSpan, Step.newSpan, share, htag] <;> omega

@[simp] theorem oldSpan_append (a b : List Step) : oldSpan (a ++ b) = oldSpan a + oldSpan b := by
  simp only [oldSpan, total_append]
  omega

@[simp] theorem newSpan_append (a b : List Step) : newSpan (a ++ b) = newSpan a + newSpan b := by
  simp only [newSpan, total_append]
  omega

@[simp] theorem oldSpan_reverse (steps : List Step) : oldSpan steps.reverse = oldSpan steps := by
  simp [oldSpan]

/-- Whether a step stands at two places.  Only the places among the lines that it treats count. -/
def Step.Fits (old new : Array α) (i j : Nat) (s : Step) : Prop :=
  0 < s.size ∧
    match s.tag with
    | .keep => s.old = i ∧ s.new = j ∧ Alike old new i j s.size
    | .delete => s.old = i
    | .insert => s.new = j

section

variable {o q k : Nat}

@[simp] theorem fits_keep : (⟨.keep, o, q, k⟩ : Step).Fits old new i j ↔
    0 < k ∧ o = i ∧ q = j ∧ Alike old new i j k :=
  Iff.rfl

@[simp] theorem fits_delete : (⟨.delete, o, q, k⟩ : Step).Fits old new i j ↔ 0 < k ∧ o = i :=
  Iff.rfl

@[simp] theorem fits_insert : (⟨.insert, o, q, k⟩ : Step).Fits old new i j ↔ 0 < k ∧ q = j :=
  Iff.rfl

end

/-- Whether some steps can be followed from two places on. -/
def Leads (old new : Array α) : Nat → Nat → List Step → Prop
  | _, _, [] => True
  | i, j, s :: rest => s.Fits old new i j ∧ Leads old new (i + s.oldSpan) (j + s.newSpan) rest

theorem leads_nil : Leads old new i j [] := trivial

theorem leads_cons : Leads old new i j (s :: rest) ↔
    s.Fits old new i j ∧ Leads old new (i + s.oldSpan) (j + s.newSpan) rest :=
  Iff.rfl

theorem leads_append : Leads old new i j (a ++ b) ↔
    Leads old new i j a ∧ Leads old new (i + oldSpan a) (j + newSpan a) b := by
  induction a generalizing i j with
  | nil => simp [leads_nil]
  | cons s a ih =>
      rw [List.cons_append, leads_cons, leads_cons, ih, oldSpan_cons, newSpan_cons,
        ← Nat.add_assoc, ← Nat.add_assoc, and_assoc]

theorem leads_keepStep : Leads old new i j (keepStep i j n ++ rest) ↔
    Alike old new i j n ∧ Leads old new (i + n) (j + n) rest := by
  unfold keepStep
  split
  · rename_i hn
    subst hn
    simp [alike_zero]
  · rename_i hn
    simp [leads_cons, Nat.pos_of_ne_zero hn]

/-- A deletion and an insertion next to each other may change places. -/
theorem Leads.swap (hs : s.tag ≠ .keep) (ht : t.tag ≠ .keep) (hne : s.tag ≠ t.tag)
    (h : Leads old new i j (s :: t :: rest)) : Leads old new i j (t :: s :: rest) := by
  obtain ⟨_ | _ | _, o, n, k⟩ := s <;> obtain ⟨_ | _ | _, o', n', k'⟩ := t <;>
    simp_all [leads_cons]

/-- Two steps of one kind may be joined. -/
theorem Leads.join (hst : s.tag = t.tag) (h : Leads old new i j (s :: t :: rest)) :
    Leads old new i j ({ s with size := s.size + t.size } :: rest) := by
  obtain ⟨tag, o, n, k⟩ := s
  obtain ⟨_, o', n', k'⟩ := t
  cases hst
  cases tag <;> simp [leads_cons, alike_add, Nat.add_assoc] at h ⊢ <;> grind

/-- Steps in the middle of a script may be replaced by others that lead as far. -/
theorem Leads.replace {c : List Step} (h : Leads old new i j (a ++ b))
    (hc : ∀ i j, Leads old new i j b → Leads old new i j c) : Leads old new i j (a ++ c) := by
  rw [leads_append] at h ⊢
  exact ⟨h.1, hc _ _ h.2⟩

theorem Leads.keepAbove (hn : 0 < n) (h : Leads old new i j (keepStep i j n ++ rest)) :
    Leads old new i j (keepAbove i j n rest) := by
  have hstep : keepStep i j n = [⟨.keep, i, j, n⟩] := if_neg (by omega)
  rw [hstep, List.singleton_append] at h
  unfold Diff.keepAbove
  split
  · rename_i s rest
    split
    · rename_i hkeep
      -- The joined step begins where the new one does.
      have hjoin := h.join (s := ⟨.keep, i, j, n⟩) hkeep.symm
      obtain ⟨_ | _ | _, o, q, k⟩ := s <;> cases hkeep
      obtain ⟨-, ⟨-, rfl, rfl, -⟩, -⟩ := h
      simpa only [oldSpan_keep, newSpan_keep, Nat.add_sub_cancel, Nat.add_comm k] using hjoin
    · exact h
  · exact h

/-- An insertion moves up past kept lines that equal its last ones. -/
theorem Leads.slideUp {p : Step} (hp : p.tag = .keep) (ht : t.tag = .insert) (hpos : 0 < n)
    (hn : n ≤ p.size)
    (halike : Alike old new (p.old + p.size - n) (t.new + t.size - n) n)
    (h : Leads old new i j (p :: t :: rest)) :
    Leads old new i j (keepStep p.old p.new (p.size - n) ++
      { t with old := t.old - n, new := t.new - n } ::
        Diff.keepAbove (p.old + p.size - n) (t.new + t.size - n) n rest) := by
  obtain ⟨_ | _ | _, o, q, k⟩ := p <;> cases hp
  obtain ⟨_ | _ | _, o', q', k'⟩ := t <;> cases ht
  simp only [leads_cons, fits_keep, fits_insert, oldSpan_keep, newSpan_keep, oldSpan_insert,
    newSpan_insert] at h halike hn ⊢
  obtain ⟨⟨-, rfl, rfl, hkept⟩, ⟨hsize, rfl⟩, hrest⟩ := h
  rw [leads_keepStep]
  refine ⟨hkept.take (Nat.sub_le _ _), ?_⟩
  simp only [leads_cons, fits_insert, oldSpan_insert, newSpan_insert]
  refine ⟨⟨hsize, by omega⟩, ?_⟩
  have hold : o + (k - n) + 0 = o + k - n := by omega
  have hnew : q + (k - n) + k' = q + k + k' - n := by omega
  rw [hold, hnew]
  apply Leads.keepAbove hpos
  rw [leads_keepStep, Nat.sub_add_cancel (by omega), Nat.sub_add_cancel (by omega)]
  exact ⟨halike, hrest⟩

/-- An insertion moves down past kept lines that equal its first ones. -/
theorem Leads.slideDown {x : Step} (hx : x.tag = .keep) (ht : t.tag = .insert) (hn : n ≤ x.size)
    (halike : Alike old new x.old t.new n) (h : Leads old new i j (t :: x :: rest)) :
    Leads old new i j (keepStep x.old t.new n ++ { t with old := t.old + n, new := t.new + n } ::
      (keepStep (x.old + n) (x.new + n) (x.size - n) ++ rest)) := by
  obtain ⟨_ | _ | _, o, q, k⟩ := x <;> cases hx
  obtain ⟨_ | _ | _, o', q', k'⟩ := t <;> cases ht
  simp only [leads_cons, fits_keep, fits_insert, oldSpan_keep, newSpan_keep, oldSpan_insert,
    newSpan_insert, Nat.add_zero] at h halike hn ⊢
  obtain ⟨⟨hpos, rfl⟩, ⟨-, rfl, rfl, hkept⟩, hrest⟩ := h
  rw [leads_keepStep]
  refine ⟨halike, ?_⟩
  simp only [leads_cons, fits_insert, oldSpan_insert, newSpan_insert, Nat.add_zero]
  refine ⟨⟨hpos, trivial⟩, ?_⟩
  have hold : o + n + (k - n) = o + k := by omega
  have hnew : q' + k' + n + (k - n) = q' + k' + k := by omega
  rw [Nat.add_right_comm q' n k', leads_keepStep, hold, hnew]
  exact ⟨hkept.drop hn, hrest⟩

theorem Leads.keepBelow {before : List Step} {o q : Nat} (hn : 0 < n)
    (h : Leads old new i j (before.reverse ++ (keepStep o q n ++ rest))) :
    Leads old new i j ((keepBelow o q n before).reverse ++ rest) := by
  rw [keepStep, if_neg (by omega)] at h
  unfold Diff.keepBelow
  split
  · rename_i s before
    split
    · rename_i hkeep
      rw [List.reverse_cons, List.append_assoc] at h ⊢
      exact h.replace fun _ _ => Leads.join hkeep
    · simpa using h
  · simpa using h

end Longhand.Diff
