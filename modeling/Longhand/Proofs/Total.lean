import Longhand.Diff.Unified
import Longhand.Proofs.Meeting

/-!
# How many lines a script treats

The steps between two lists of lines keep or delete each of the old lines once and keep or insert
each of the new ones once.  Compacting a script and joining its steps into regions leave the numbers
of kept, deleted and inserted lines as they are.
-/

namespace Longhand.Diff

variable {α : Type} [BEq α] {old new : Array α} {tag : Tag} {steps before after : List Step}
  {s : Step} {b : Box}

/-! ## Totals -/

/-- A number of lines, if they are of some kind. -/
def share (kind tag : Tag) (n : Nat) : Nat :=
  if kind = tag then n else 0

@[simp] theorem share_zero (kind tag : Tag) : share kind tag 0 = 0 := by
  simp [share]

theorem share_add (kind tag : Tag) (n k : Nat) :
    share kind tag (n + k) = share kind tag n + share kind tag k := by
  unfold share
  split <;> rfl

theorem share_sub {n k : Nat} (kind tag : Tag) (h : k ≤ n) :
    share kind tag (n - k) + share kind tag k = share kind tag n := by
  rw [← share_add, Nat.sub_add_cancel h]

/-- The number of lines of all steps of some kind. -/
def total (tag : Tag) : List Step → Nat
  | [] => 0
  | s :: rest => share s.tag tag s.size + total tag rest

@[simp] theorem total_nil (tag : Tag) : total tag [] = 0 := rfl

@[simp] theorem total_cons (tag : Tag) (s : Step) (rest : List Step) :
    total tag (s :: rest) = share s.tag tag s.size + total tag rest := rfl

@[simp] theorem total_append (tag : Tag) (a b : List Step) :
    total tag (a ++ b) = total tag a + total tag b := by
  induction a with
  | nil => simp
  | cons s a ih => simp [ih, Nat.add_assoc]

@[simp] theorem total_reverse (tag : Tag) (steps : List Step) :
    total tag steps.reverse = total tag steps := by
  induction steps with
  | nil => rfl
  | cons s rest ih => simp [ih, Nat.add_comm]

/-! ## Compacting -/

/-- The lines of some kind of a script with one step picked out. -/
def Focus.total (tag : Tag) (f : Focus) : Nat :=
  Diff.total tag f.before + (share f.step.tag tag f.step.size + Diff.total tag f.after)

theorem total_keepAbove (i j n : Nat) (steps : List Step) :
    total tag (keepAbove i j n steps) = share .keep tag n + total tag steps := by
  cases steps with
  | nil => rfl
  | cons s rest =>
      simp only [keepAbove]
      split
      · rename_i hkeep
        simp only [total_cons, share_add, hkeep]
        omega
      · rfl

theorem total_keepBelow (i j n : Nat) (steps : List Step) :
    total tag (keepBelow i j n steps) = share .keep tag n + total tag steps := by
  cases steps with
  | nil => rfl
  | cons s rest =>
      simp only [keepBelow]
      split
      · rename_i hkeep
        simp only [total_cons, share_add, hkeep]
        omega
      · rfl

/-- Moving a step upwards changes places and joins steps that are alike. -/
theorem moveUp_total (old new : Array α) (fuel : Nat) (f : Focus) :
    (moveUp old new fuel f).total tag = f.total tag := by
  induction fuel generalizing f with
  | zero => rfl
  | succ fuel ih =>
      obtain ⟨before, t, after⟩ := f
      cases before with
      | nil => rfl
      | cons p before =>
          simp only [moveUp]
          split
          · rename_i hkeep
            generalize hshift : (if t.tag = .insert then commonRunBack old new (p.old + p.size)
              (t.new + t.size) (min p.size t.size) else 0) = shift
            split
            · rfl
            have hle : shift ≤ p.size := by
              rw [← hshift]
              split
              · exact Nat.le_trans (commonRunBack_le ..) (Nat.min_le_left _ _)
              · exact Nat.zero_le _
            -- A slide moves kept lines from above the step to below it.
            have hsub := share_sub p.tag tag hle
            rw [hkeep] at hsub
            rw [ih]
            simp only [Focus.total, total_keepAbove, total_cons, hkeep]
            split
            · rename_i hall
              rw [hall]
              omega
            · simp only [total_cons]
              omega
          split
          · rename_i hsame
            rw [ih]
            simp only [Focus.total, total_cons, share_add, hsame]
            omega
          · rw [ih]
            simp only [Focus.total, total_cons]
            omega

theorem moveDown_total (old new : Array α) (fuel : Nat) (f : Focus) :
    (moveDown old new fuel f).total tag = f.total tag := by
  induction fuel generalizing f with
  | zero => rfl
  | succ fuel ih =>
      obtain ⟨before, t, after⟩ := f
      cases after with
      | nil => rfl
      | cons x after =>
          simp only [moveDown]
          split
          · rename_i hkeep
            generalize hshift : (if t.tag = .insert then commonRun old new x.old t.new
              (min x.size t.size) else 0) = shift
            split
            · rfl
            have hle : shift ≤ x.size := by
              rw [← hshift]
              split
              · exact Nat.le_trans (commonRun_le ..) (Nat.min_le_left _ _)
              · exact Nat.zero_le _
            have hsub := share_sub x.tag tag hle
            rw [hkeep] at hsub
            rw [ih]
            simp only [Focus.total, total_keepBelow, total_cons, hkeep]
            split
            · rename_i hall
              rw [hall]
              omega
            · simp only [total_cons]
              omega
          split
          · rename_i hsame
            rw [ih]
            simp only [Focus.total, total_cons, share_add, hsame]
            omega
          · rw [ih]
            simp only [Focus.total, total_cons]
            omega

theorem compactTag_total (old new : Array α) (kind : Tag) (fuel : Nat) (before after : List Step) :
    total tag (compactTag old new kind fuel before after) = total tag before + total tag after := by
  induction fuel generalizing before after with
  | zero => simp [compactTag]
  | succ fuel ih =>
      cases after with
      | nil => simp [compactTag]
      | cons t after =>
          rw [compactTag]
          split
          · dsimp only
            rw [ih]
            have hup := @moveUp_total _ _ tag old new (weight before) ⟨before, t, after⟩
            have hdown := @moveDown_total _ _ tag old new
              (weight (moveUp old new (weight before) ⟨before, t, after⟩).after)
              (moveUp old new (weight before) ⟨before, t, after⟩)
            simp only [Focus.total] at hup hdown
            simp only [total_cons]
            omega
          · rw [ih]
            simp only [total_cons]
            omega

/-- Compacting a script keeps the number of lines of each kind. -/
theorem compact_total (old new : Array α) (steps : List Step) :
    total tag (compact old new steps) = total tag steps := by
  simp [compact, compactTag_total]

/-! ## Regions -/

/-- The numbers of lines that one region removes and adds. -/
def Region.changed (r : Region) : Nat × Nat :=
  if r.kept then (0, 0) else (r.oldSize, r.newSize)

theorem countLines_cons (r : Region) (rs : List Region) :
    (countLines (r :: rs)).removed = r.changed.1 + (countLines rs).removed ∧
      (countLines (r :: rs)).added = r.changed.2 + (countLines rs).added := by
  cases h : r.kept <;> simp [countLines, Region.changed, h]

theorem countLines_append (rs rs' : List Region) :
    (countLines (rs ++ rs')).removed = (countLines rs).removed + (countLines rs').removed ∧
      (countLines (rs ++ rs')).added = (countLines rs).added + (countLines rs').added := by
  induction rs with
  | nil => exact ⟨(Nat.zero_add _).symm, (Nat.zero_add _).symm⟩
  | cons r rs ih =>
      obtain ⟨hremoved, hadded⟩ := countLines_cons r rs
      obtain ⟨hremoved', hadded'⟩ := countLines_cons r (rs ++ rs')
      rw [List.cons_append]
      omega

/-- The number of lines of the changes of some kind that were met so far. -/
def Pending.size (first : Option Step) : Nat :=
  (first.map Step.size).getD 0

theorem size_joinStep (first : Option Step) (s : Step) :
    (joinStep first s).size = Pending.size first + s.size := by
  cases first <;> simp [joinStep, Pending.size]

theorem countLines_region (p : Pending) :
    (countLines p.region).removed = Pending.size p.deleted ∧
      (countLines p.region).added = Pending.size p.inserted := by
  obtain ⟨_ | d, _ | i⟩ := p <;> exact ⟨rfl, rfl⟩

theorem countLines_kept (kept : Option Step) :
    (countLines
        (kept.map fun k => (⟨true, k.old, k.size, k.new, k.size⟩ : Region)).toList).removed = 0 ∧
      (countLines (kept.map fun k => (⟨true, k.old, k.size, k.new, k.size⟩ : Region)).toList).added =
        0 := by
  cases kept <;> exact ⟨rfl, rfl⟩

/-- The regions of a script remove and add the lines that its steps delete and insert. -/
theorem countLines_gather (changed : Pending) (kept : Option Step) (steps : List Step) :
    (countLines (gather changed kept steps)).removed =
        Pending.size changed.deleted + total .delete steps ∧
      (countLines (gather changed kept steps)).added =
        Pending.size changed.inserted + total .insert steps := by
  -- By induction on the steps, with the region that is not finished yet as an arbitrary one.
  induction steps generalizing changed kept with
  | nil =>
      have hsum := countLines_append changed.region
        (kept.map fun k => (⟨true, k.old, k.size, k.new, k.size⟩ : Region)).toList
      have hregion := countLines_region changed
      have hkept := countLines_kept kept
      simp only [gather, total_nil]
      omega
  | cons s rest ih =>
      simp only [gather, total_cons]
      cases htag : s.tag with
      | keep =>
          have hrest := ih ⟨none, none⟩ (some (joinStep kept s))
          have hsum := countLines_append changed.region
            (gather ⟨none, none⟩ (some (joinStep kept s)) rest)
          have hregion := countLines_region changed
          simp only [share, Pending.size] at *
          simp at *
          omega
      | delete =>
          have hrest := ih { changed with deleted := some (joinStep changed.deleted s) } none
          have hsum := countLines_append
            (kept.map fun k => (⟨true, k.old, k.size, k.new, k.size⟩ : Region)).toList
            (gather { changed with deleted := some (joinStep changed.deleted s) } none rest)
          have hkept := countLines_kept kept
          have hjoin := size_joinStep changed.deleted s
          simp only [share, Pending.size] at *
          simp at *
          omega
      | insert =>
          have hrest := ih { changed with inserted := some (joinStep changed.inserted s) } none
          have hsum := countLines_append
            (kept.map fun k => (⟨true, k.old, k.size, k.new, k.size⟩ : Region)).toList
            (gather { changed with inserted := some (joinStep changed.inserted s) } none rest)
          have hkept := countLines_kept kept
          have hjoin := size_joinStep changed.inserted s
          simp only [share, Pending.size] at *
          simp at *
          omega

theorem countLines_regions (steps : List Step) :
    (countLines (regions steps)).removed = total .delete steps ∧
      (countLines (regions steps)).added = total .insert steps := by
  have h := countLines_gather ⟨none, none⟩ none steps
  simpa [regions, Pending.size] using h

/-! ## Scripts -/

/-- Whether some steps treat each line of two ranges once. -/
structure Covers (b : Box) (steps : List Step) : Prop where
  old : total .keep steps + total .delete steps = b.oldSize
  new : total .keep steps + total .insert steps = b.newSize

theorem total_keepStep (i j n : Nat) : total tag (keepStep i j n) = share .keep tag n := by
  unfold keepStep
  split
  · rename_i h
    simp [h]
  · simp

theorem covers_replaced (b : Box) : Covers b b.replaced := by
  constructor <;> unfold Box.replaced <;> split <;> split <;> simp_all [share]

/-- Scripts of the two halves of a box make up one of the box. -/
theorem Covers.append {x y : Nat} {first second : List Step} (hwithin : b.Within (x, y))
    (hfirst : Covers { b with oldStop := x, newStop := y } first)
    (hsecond : Covers { b with oldStart := x, newStart := y } second) :
    Covers b (first ++ second) := by
  obtain ⟨⟨hold, hold'⟩, hnew, hnew'⟩ := hwithin
  obtain ⟨hkeep, hkeep'⟩ := hfirst
  obtain ⟨hkeep₂, hkeep₂'⟩ := hsecond
  simp only [Box.oldSize, Box.newSize] at *
  constructor
  · rw [total_append, total_append, Box.oldSize]
    omega
  · rw [total_append, total_append, Box.newSize]
    omega

/-- Lines that are kept at both ends are treated once like those in between. -/
theorem Covers.around {front back i j : Nat} {middle : List Step}
    (hold : front + back ≤ b.oldSize) (hnew : front + back ≤ b.newSize)
    (h : Covers
      { oldStart := b.oldStart + front, oldStop := b.oldStop - back
        newStart := b.newStart + front, newStop := b.newStop - back } middle) :
    Covers b (keepStep b.oldStart b.newStart front ++ middle ++ keepStep i j back) := by
  obtain ⟨hkeep, hkeep'⟩ := h
  simp only [Box.oldSize, Box.newSize] at hold hnew hkeep hkeep'
  constructor
  · simp [total_keepStep, share, Box.oldSize]
    omega
  · simp [total_keepStep, share, Box.newSize]
    omega

/-- The steps between two ranges treat each of their lines once. -/
theorem solve_covers (old new : Array α) (hb : b.Sane) (fuel : Nat) :
    Covers b (solve old new b fuel) := by
  induction fuel generalizing b with
  | zero => exact covers_replaced b
  | succ fuel ih =>
      obtain ⟨hold, hnew⟩ := hb
      have hfront := Box.common_le old new b
      have hback := Box.commonBack_le old new { b with
        oldStart := b.oldStart + b.common old new, newStart := b.newStart + b.common old new }
      rw [solve]
      refine .around ?_ ?_ ?_
      · simp only [Box.oldSize, Box.newSize] at *
        omega
      · simp only [Box.oldSize, Box.newSize] at *
        omega
      split
      · exact covers_replaced _
      split
      · exact covers_replaced _
      · rename_i x y hmeeting
        have hwithin := meeting?_within ⟨?_, ?_⟩ hmeeting
        · obtain ⟨⟨hx, hx'⟩, hy, hy'⟩ := hwithin
          exact .append ⟨⟨hx, hx'⟩, hy, hy'⟩ (ih ⟨hx, hy⟩) (ih ⟨hx', hy'⟩)
        · simp only [Box.oldSize, Box.newSize] at *
          omega
        · simp only [Box.oldSize, Box.newSize] at *
          omega

/-- Two lists of the same length differ by as many deleted as inserted lines. -/
theorem script_balanced (old new : Array α) (h : old.size = new.size) :
    total .delete (script old new) = total .insert (script old new) := by
  obtain ⟨hold, hnew⟩ : Covers ⟨0, old.size, 0, new.size⟩ (script old new) :=
    solve_covers old new ⟨Nat.zero_le _, Nat.zero_le _⟩ _
  simp only [Box.oldSize, Box.newSize] at hold hnew
  omega

/-- The diff between two texts with the same number of lines adds as many lines as it removes. -/
theorem unified_balanced (path : String) (old new : List Char) (context : Nat)
    (h : (lines old).length = (lines new).length) :
    (unified path old new context).2.added = (unified path old new context).2.removed := by
  have hscript := script_balanced (lines old).toArray (lines new).toArray (by simpa using h)
  unfold unified
  dsimp only
  rw [(countLines_regions _).1, (countLines_regions _).2, compact_total, compact_total, hscript]

end Longhand.Diff
