import Longhand.Diff.Unified
import Longhand.Proofs.Compacted

/-!
# Regions and hunks side by side

The regions of a script lie side by side on the old and on the new lines.  A region of kept lines
names both of its places, one of changed lines at least those where it has lines.  The hunks show all
changed regions, and the lines that they leave out are kept.
-/

namespace Longhand.Diff

variable {α : Type} {old new : Array α} {strict : Bool} {i j i' j' i'' j'' n context : Nat}
  {r : Region} {rs a b : List Region} {steps : List Step}

/-! ## Regions -/

/-- Whether a region stands at two places.  A strict region names both of them. -/
structure Region.Fits (old new : Array α) (strict : Bool) (i j : Nat) (r : Region) : Prop where
  low : r.old ≤ i
  start : r.kept ∨ strict ∨ 0 < r.oldSize → r.old = i
  startNew : r.kept ∨ strict ∨ 0 < r.newSize → r.new = j
  alike : r.kept → r.newSize = r.oldSize ∧ Alike old new i j r.oldSize

/-- Whether some regions lie side by side from two places on up to two others. -/
def Tiles (old new : Array α) (strict : Bool) (i' j' : Nat) : Nat → Nat → List Region → Prop
  | i, j, [] => i = i' ∧ j = j'
  | i, j, r :: rest =>
      r.Fits old new strict i j ∧ Tiles old new strict i' j' (i + r.oldSize) (j + r.newSize) rest

theorem tiles_nil : Tiles old new strict i' j' i j [] ↔ i = i' ∧ j = j' := Iff.rfl

theorem tiles_cons : Tiles old new strict i' j' i j (r :: rs) ↔
    r.Fits old new strict i j ∧ Tiles old new strict i' j' (i + r.oldSize) (j + r.newSize) rs :=
  Iff.rfl

theorem Tiles.append (ha : Tiles old new strict i' j' i j a)
    (hb : Tiles old new strict i'' j'' i' j' b) : Tiles old new strict i'' j'' i j (a ++ b) := by
  induction a generalizing i j with
  | nil =>
      obtain ⟨rfl, rfl⟩ := ha
      exact hb
  | cons r a ih => exact ⟨ha.1, ih ha.2⟩

theorem Tiles.le (h : Tiles old new strict i' j' i j rs) : i ≤ i' ∧ j ≤ j' := by
  induction rs generalizing i j with
  | nil =>
      obtain ⟨rfl, rfl⟩ := h
      exact ⟨Nat.le_refl _, Nat.le_refl _⟩
  | cons r rs ih =>
      have hrest := ih h.2
      omega

/-- Whether each region starts where the one before it stops. -/
def Placed : Nat → Nat → List Region → Prop
  | _, _, [] => True
  | i, j, r :: rest => (r.old = i ∧ r.new = j) ∧ Placed (i + r.oldSize) (j + r.newSize) rest

instance decidablePlaced : (i j : Nat) → (rs : List Region) → Decidable (Placed i j rs)
  | _, _, [] => .isTrue trivial
  | i, j, r :: rest =>
      have := decidablePlaced (i + r.oldSize) (j + r.newSize) rest
      inferInstanceAs (Decidable ((r.old = i ∧ r.new = j) ∧ Placed _ _ rest))

theorem Tiles.of_placed (hplaced : Placed i j rs) (h : Tiles old new false i' j' i j rs) :
    Tiles old new true i' j' i j rs := by
  induction rs generalizing i j with
  | nil => exact h
  | cons r rs ih =>
      obtain ⟨⟨hold, hnew⟩, hrest⟩ := hplaced
      exact ⟨⟨h.1.low, fun _ => hold, fun _ => hnew, h.1.alike⟩, ih hrest h.2⟩

/-- Strict regions name the places that they start from. -/
theorem Tiles.head? (h : Tiles old new true i' j' i j rs) {first : Region}
    (hfirst : rs.head? = some first) : first.old = i ∧ first.new = j := by
  cases rs with
  | nil => cases hfirst
  | cons r rs =>
      cases hfirst
      exact ⟨h.1.start (.inr (.inl rfl)), h.1.startNew (.inr (.inl rfl))⟩

/-- Strict regions name the places that they lead up to. -/
theorem Tiles.getLast? (h : Tiles old new true i' j' i j rs) {last : Region}
    (hlast : rs.getLast? = some last) :
    last.old + last.oldSize = i' ∧ last.new + last.newSize = j' := by
  induction rs generalizing i j with
  | nil => cases hlast
  | cons r rs ih =>
      obtain ⟨hr, hrest⟩ := h
      cases rs with
      | nil =>
          obtain rfl : r = last := by simpa using hlast
          obtain ⟨rfl, rfl⟩ := hrest
          rw [hr.start (.inr (.inl rfl)), hr.startNew (.inr (.inl rfl))]
          exact ⟨rfl, rfl⟩
      | cons r' rs =>
          rw [List.getLast?_cons_cons] at hlast
          exact ih hrest hlast

/-! ## The regions of a script -/

/-- Whether the changes met since a pair of places lead up to another one, where some old lines are
deleted next. -/
structure Pending.Fits (i j i' j' next : Nat) (p : Pending) : Prop where
  oldPlace : i' = i + Pending.size p.deleted
  newPlace : j' = j + Pending.size p.inserted
  deleted : ∀ d, p.deleted = some d → d.old = i
  inserted : ∀ s, p.inserted = some s → s.new = j ∧ s.old ≤ i' + next

theorem Pending.fits_none (next : Nat) : Pending.Fits i j i j next ⟨none, none⟩ := by
  constructor <;> simp [Pending.size]

theorem Pending.Fits.delete {p : Pending} {s : Step} (h : p.Fits i j i' j' (s.size + n))
    (hs : s.old = i') :
    Pending.Fits i j (i' + s.size) j' n { p with deleted := some (joinStep p.deleted s) } := by
  obtain ⟨hi, hj, hdeleted, hinserted⟩ := h
  constructor
  · rw [hi, Nat.add_assoc, ← size_joinStep]
    rfl
  · exact hj
  · rintro _ ⟨⟩
    cases hfirst : p.deleted with
    | none => simpa [joinStep, hs, hfirst, Pending.size] using hi
    | some d => exact hdeleted d hfirst
  · intro t ht
    rw [Nat.add_assoc]
    exact hinserted t ht

theorem Pending.Fits.insert {p : Pending} {s : Step} (h : p.Fits i j i' j' n)
    (hs : s.new = j') (hlow : s.old ≤ i' + n) :
    Pending.Fits i j i' (j' + s.size) n { p with inserted := some (joinStep p.inserted s) } := by
  obtain ⟨hi, hj, hdeleted, hinserted⟩ := h
  constructor
  · exact hi
  · rw [hj, Nat.add_assoc, ← size_joinStep]
    rfl
  · exact hdeleted
  · rintro _ ⟨⟩
    cases hfirst : p.inserted with
    | none =>
        refine ⟨?_, hlow⟩
        simpa [joinStep, hs, hfirst, Pending.size] using hj
    | some d => exact hinserted d hfirst

/-- Where no deletions follow, the changes that were met make up a region. -/
theorem Pending.Fits.tiles {p : Pending} (h : p.Fits i j i' j' 0) :
    Tiles old new false i' j' i j p.region := by
  obtain ⟨hi, hj, hdeleted, hinserted⟩ := h
  obtain ⟨_ | d, _ | s⟩ := p
  · exact ⟨hi.symm, hj.symm⟩
  · obtain ⟨hnew, hlow⟩ := hinserted s rfl
    refine ⟨⟨?_, by simp, fun _ => hnew, by simp⟩, hi.symm, hj.symm⟩
    rw [hi] at hlow
    exact hlow
  · have hold := hdeleted d rfl
    exact ⟨⟨Nat.le_of_eq hold, fun _ => hold, by simp, by simp⟩, hi.symm, hj.symm⟩
  · have hold := hdeleted d rfl
    exact ⟨⟨Nat.le_of_eq hold, fun _ => hold, fun _ => (hinserted s rfl).1, by simp⟩,
      hi.symm, hj.symm⟩

/-- The region of kept lines. -/
def keptRegion (s : Step) : Region := ⟨true, s.old, s.size, s.new, s.size⟩

theorem tiles_keptRegion {s : Step} (hold : s.old = i) (hnew : s.new = j)
    (h : Alike old new i j s.size) :
    Tiles old new strict (i + s.size) (j + s.size) i j [keptRegion s] :=
  ⟨⟨Nat.le_of_eq hold, fun _ => hold, fun _ => hnew, fun _ => ⟨rfl, h⟩⟩, rfl, rfl⟩

/-- The regions of the rest of a script lie side by side with those of the changes, or of the kept
lines, that were met before. -/
theorem gather_tiles (h : IsScript old new i' j' steps) :
    (∀ {i j : Nat} {p : Pending}, p.Fits i j i' j' (deletedNext steps) →
      Tiles old new false (i' + oldSpan steps) (j' + newSpan steps) i j (gather p none steps)) ∧
    (∀ {i j : Nat} {s : Step}, s.old = i → s.new = j → i' = i + s.size → j' = j + s.size →
      Alike old new i j s.size → Tiles old new false (i' + oldSpan steps) (j' + newSpan steps) i j
        (gather ⟨none, none⟩ (some s) steps)) := by
  obtain ⟨hleads, hreach⟩ := h
  induction steps generalizing i' j' with
  | nil =>
      constructor
      · intro i j p hp
        simpa [gather] using hp.tiles
      · rintro i j s hold hnew rfl rfl halike
        exact tiles_keptRegion hold hnew halike
  | cons t rest ih =>
      obtain ⟨ht, hrest⟩ := hleads
      obtain ⟨hlow, hreach⟩ := hreach
      have ih := ih hrest hreach
      -- A kept step ends the region of the changes, and a change ends that of the kept lines.
      obtain ⟨_ | _ | _, o, q, k⟩ := t
      · obtain ⟨hpos, rfl, rfl, halike⟩ := fits_keep.1 ht
        rw [oldSpan_cons, newSpan_cons, ← Nat.add_assoc, ← Nat.add_assoc]
        constructor
        · intro i j p hp
          exact hp.tiles.append (ih.2 rfl rfl rfl rfl halike)
        · rintro i j s rfl rfl rfl rfl hkept
          refine ih.2 rfl rfl ?_ ?_ ?_
          · simp [joinStep, Nat.add_assoc]
          · simp [joinStep, Nat.add_assoc]
          · exact alike_add.2 ⟨hkept, halike⟩
      · obtain ⟨hpos, rfl⟩ := fits_delete.1 ht
        rw [oldSpan_cons, newSpan_cons, ← Nat.add_assoc, ← Nat.add_assoc]
        constructor
        · intro i j p hp
          exact ih.1 (hp.delete rfl)
        · rintro i j s hold hnew rfl rfl hkept
          refine (tiles_keptRegion hold hnew hkept).append (ih.1 ?_)
          exact (Pending.fits_none _).delete rfl
      · obtain ⟨hpos, rfl⟩ := fits_insert.1 ht
        rw [oldSpan_cons, newSpan_cons, ← Nat.add_assoc, ← Nat.add_assoc]
        constructor
        · intro i j p hp
          exact ih.1 (hp.insert rfl (hlow rfl))
        · rintro i j s hold hnew rfl rfl hkept
          refine (tiles_keptRegion hold hnew hkept).append (ih.1 ?_)
          exact (Pending.fits_none _).insert rfl (hlow rfl)

/-- The regions between the old and the new lines. -/
def regionsBetween [BEq α] (old new : Array α) : List Region :=
  regions (compact old new (script old new))

theorem regionsBetween_tiles [BEq α] [LawfulBEq α] (old new : Array α) :
    Tiles old new false old.size new.size 0 0 (regionsBetween old new) := by
  have hscript := compact_isScript (script_isScript old new)
  have htiles := (gather_tiles hscript).1 (Pending.fits_none _)
  obtain ⟨hold, hnew⟩ : Covers ⟨0, old.size, 0, new.size⟩ (script old new) :=
    solve_covers old new ⟨Nat.zero_le _, Nat.zero_le _⟩ _
  rw [oldSpan, newSpan] at htiles
  simp only [compact_total, hold, hnew, Box.oldSize, Box.newSize, Nat.zero_add,
    Nat.sub_zero] at htiles
  exact htiles

/-! ## Hunks -/

/-- Whether some hunks show all that differs from two places on up to two others. -/
inductive Shows (old new : Array α) (strict : Bool) (i' j' : Nat) : Nat → Nat → List Hunk → Prop
  | nil {i j n : Nat} (alike : Alike old new i j n) (hi : i + n = i') (hj : j + n = j') :
      Shows old new strict i' j' i j []
  | cons {i j n i₁ j₁ : Nat} {h : Hunk} {rest : List Hunk} (alike : Alike old new i j n)
      (start : ∀ r ∈ h.head?, r.old = i + n) (tiles : Tiles old new strict i₁ j₁ (i + n) (j + n) h)
      (shows : Shows old new strict i' j' i₁ j₁ rest) : Shows old new strict i' j' i j (h :: rest)

/-- Hunks may begin after some equal lines. -/
theorem Shows.skip {hs : List Hunk} (h : Shows old new strict i' j' (i + n) (j + n) hs)
    (halike : Alike old new i j n) : Shows old new strict i' j' i j hs := by
  cases h with
  | nil alike hi hj =>
      exact .nil (alike_add.2 ⟨halike, alike⟩) (by omega) (by omega)
  | cons alike start tiles shows =>
      rw [Nat.add_assoc] at start
      rw [Nat.add_assoc, Nat.add_assoc] at tiles
      exact .cons (alike_add.2 ⟨halike, alike⟩) start tiles shows

theorem Shows.le {hs : List Hunk} (h : Shows old new strict i' j' i j hs) : i ≤ i' ∧ j ≤ j' := by
  induction h with
  | nil alike hi hj => omega
  | cons alike start tiles shows ih =>
      have hle := tiles.le
      omega

theorem Region.Fits.dropLines (h : r.Fits old new strict i j) (hkept : r.kept) (hn : n ≤ r.oldSize) :
    (r.dropLines n).Fits old new strict (i + n) (j + n) := by
  obtain ⟨hsize, halike⟩ := h.alike hkept
  have hold := h.start (.inl hkept)
  have hnew := h.startNew (.inl hkept)
  constructor
  · exact Nat.add_le_add_right h.low n
  · exact fun _ => congrArg (· + n) hold
  · exact fun _ => congrArg (· + n) hnew
  · exact fun _ => ⟨congrArg (· - n) hsize, halike.drop hn⟩

theorem Region.Fits.takeLines (h : r.Fits old new strict i j) (hkept : r.kept) (n : Nat) :
    (r.takeLines n).Fits old new strict i j := by
  obtain ⟨hsize, halike⟩ := h.alike hkept
  constructor
  · exact h.low
  · exact fun _ => h.start (.inl hkept)
  · exact fun _ => h.startNew (.inl hkept)
  · exact fun _ => ⟨congrArg (min · n) hsize, halike.take (Nat.min_le_left _ _)⟩

/-- Without its first lines, a region of kept lines still leads to the same places. -/
theorem Tiles.dropLines (h : Tiles old new strict i' j' i j (r :: rs)) (hkept : r.kept)
    (hn : n ≤ r.oldSize) : Tiles old new strict i' j' (i + n) (j + n) (r.dropLines n :: rs) := by
  obtain ⟨hr, hrest⟩ := h
  have hsize := (hr.alike hkept).1
  have hold : i + n + (r.oldSize - n) = i + r.oldSize := by omega
  have hnew : j + n + (r.newSize - n) = j + r.newSize := by omega
  refine ⟨hr.dropLines hkept hn, ?_⟩
  rw [Region.dropLines, hold, hnew]
  exact hrest

/-- Cutting kept lines at the front leaves out equal lines. -/
theorem Tiles.trimFront (h : Tiles old new strict i' j' i j rs)
    (hstart : ∀ r ∈ rs.head?, r.old = i) (context : Nat) :
    ∃ n, Alike old new i j n ∧ Tiles old new strict i' j' (i + n) (j + n) (trimFront context rs) ∧
      ∀ r ∈ (Diff.trimFront context rs).head?, r.old = i + n := by
  cases rs with
  | nil => exact ⟨0, alike_zero, h, by simp [Diff.trimFront]⟩
  | cons r rs =>
      have hr : r.old = i := hstart r rfl
      rw [Diff.trimFront]
      split
      · rename_i hkept
        refine ⟨r.oldSize - context, ?_, h.dropLines hkept (Nat.sub_le _ _), ?_⟩
        · exact (h.1.alike hkept).2.take (Nat.sub_le _ _)
        · simp [Region.dropLines, hr]
      · refine ⟨0, alike_zero, h, ?_⟩
        simpa using hr

/-- Cutting kept lines at the back leaves out equal lines. -/
theorem Tiles.trimBack (h : Tiles old new strict i' j' i j rs) (context : Nat) :
    ∃ i₁ j₁ n, i₁ + n = i' ∧ j₁ + n = j' ∧ Alike old new i₁ j₁ n ∧
      Tiles old new strict i₁ j₁ i j (trimBack context rs) := by
  induction rs generalizing i j with
  | nil => exact ⟨i', j', 0, rfl, rfl, alike_zero, h⟩
  | cons r rs ih =>
      obtain ⟨hr, hrest⟩ := h
      cases rs with
      | nil =>
          obtain ⟨rfl, rfl⟩ := hrest
          rw [Diff.trimBack]
          split
          · rename_i hkept
            obtain ⟨hsize, halike⟩ := hr.alike hkept
            have hle := Nat.min_le_left r.oldSize context
            refine ⟨i + min r.oldSize context, j + min r.oldSize context,
              r.oldSize - min r.oldSize context, by omega, by omega, halike.drop hle,
              hr.takeLines hkept context, rfl, ?_⟩
            rw [Region.takeLines, hsize]
          · exact ⟨_, _, 0, rfl, rfl, alike_zero, hr, rfl, rfl⟩
      | cons r' rs =>
          obtain ⟨i₁, j₁, n, hi, hj, halike, htiles⟩ := ih hrest
          exact ⟨i₁, j₁, n, hi, hj, halike, hr, htiles⟩

theorem head?_trimBack (context : Nat) (rs : List Region) :
    (trimBack context rs).head?.map Region.old = rs.head?.map Region.old := by
  cases rs with
  | nil => rfl
  | cons r rs =>
      cases rs with
      | nil =>
          rw [trimBack]
          split <;> rfl
      | cons r' rs => rfl

theorem head?_split (context : Nat) (rs : List Region) :
    (split context rs).1.head?.map Region.old = rs.head?.map Region.old := by
  cases rs with
  | nil => rfl
  | cons r rs =>
      rw [split]
      dsimp only
      split <;> rfl

/-- Dividing regions at long runs of kept lines leaves out equal lines. -/
theorem Tiles.split (h : Tiles old new strict i' j' i j rs) (hend : Alike old new i' j' n)
    (context : Nat) : ∃ i₁ j₁, Tiles old new strict i₁ j₁ i j (split context rs).1 ∧
      Shows old new strict (i' + n) (j' + n) i₁ j₁ (Diff.split context rs).2 := by
  induction rs generalizing i j with
  | nil =>
      obtain ⟨rfl, rfl⟩ := h
      exact ⟨i, j, ⟨rfl, rfl⟩, .nil hend rfl rfl⟩
  | cons r rs ih =>
      obtain ⟨i₁, j₁, htiles, hshows⟩ := ih h.2
      rw [Diff.split]
      generalize Diff.split context rs = parts at htiles hshows
      obtain ⟨group, hunks⟩ := parts
      dsimp only at htiles hshows ⊢
      split
      · rename_i hlong
        -- A long run is cut in two: its front closes this group, and its back begins the next one.
        obtain ⟨hkept, hlong⟩ : r.kept ∧ 2 * context < r.oldSize := by simpa using hlong
        obtain ⟨hsize, halike⟩ := h.1.alike hkept
        have hmin : min r.oldSize context = context := by omega
        refine ⟨i + context, j + context, ⟨h.1.takeLines hkept context, ?_, ?_⟩, ?_⟩
        · rw [Region.takeLines, hmin]
        · rw [Region.takeLines, hsize, hmin]
        split
        · -- Nothing but the kept lines is left.
          rename_i hnone
          obtain ⟨rfl, rfl⟩ : hunks = [] ∧ group = [] := by simpa using hnone
          obtain ⟨rfl, rfl⟩ := htiles
          refine Shows.skip (n := r.oldSize - context) ?_ (halike.drop (by omega))
          rw [hsize] at hshows
          rwa [Nat.add_assoc, Nat.add_assoc, Nat.add_sub_cancel' (by omega)]
        · have hdrop := Tiles.dropLines ⟨h.1, htiles⟩ hkept (Nat.sub_le r.oldSize context)
          have hskip : ∀ l, l + context + (r.oldSize - 2 * context) = l + (r.oldSize - context) := by
            omega
          refine .cons (n := r.oldSize - 2 * context) ?_ ?_ ?_ hshows
          · exact (halike.drop (by omega)).take (by omega)
          · rw [hskip]
            simpa [Region.dropLines] using h.1.start (.inl hkept)
          · rw [hskip, hskip]
            exact hdrop
      · exact ⟨i₁, j₁, ⟨h.1, htiles⟩, hshows⟩

/-- The hunks of some regions show all that differs. -/
theorem Tiles.hunks (h : Tiles old new strict i' j' i j rs) (hstart : ∀ r ∈ rs.head?, r.old = i)
    (context : Nat) : Shows old new strict i' j' i j (hunks context rs) := by
  obtain ⟨n, halike, hfront, hhead⟩ := h.trimFront hstart context
  obtain ⟨i₁, j₁, m, rfl, rfl, hend, hback⟩ := hfront.trimBack context
  obtain ⟨i₂, j₂, hgroup, hshows⟩ := hback.split hend context
  have hfirst := (head?_split context (Diff.trimBack context (Diff.trimFront context rs))).trans
    (head?_trimBack context _)
  unfold Diff.hunks
  generalize Diff.split context (Diff.trimBack context (Diff.trimFront context rs)) = parts at *
  obtain ⟨group, rest⟩ := parts
  dsimp only at hgroup hshows hfirst ⊢
  have hstart' : ∀ r ∈ group.head?, r.old = i + n := by
    intro r hr
    rw [Option.mem_def.1 hr, Option.map_some] at hfirst
    obtain ⟨r', hr', hold⟩ := Option.map_eq_some_iff.1 hfirst.symm
    exact hold.symm.trans (hhead r' hr')
  split
  · obtain ⟨rfl, rfl⟩ := hgroup
    exact hshows.skip halike
  · split
    · rename_i r hkept
      obtain ⟨hr, rfl, rfl⟩ := hgroup
      obtain ⟨hsize, hsame⟩ := hr.alike hkept
      rw [hsize] at hshows
      exact (hshows.skip hsame).skip halike
    · exact .cons halike hstart' hgroup hshows
  · exact .cons halike hstart' hgroup hshows

/-! ## What the hunks leave out -/

/-- Cutting kept lines leaves the changed regions. -/
theorem filter_trimFront (context : Nat) (rs : List Region) :
    (trimFront context rs).filter (!·.kept) = rs.filter (!·.kept) := by
  cases rs with
  | nil => rfl
  | cons r rs =>
      rw [trimFront]
      split
      · rename_i hkept
        simp [Region.dropLines, hkept]
      · rfl

theorem filter_trimBack (context : Nat) (rs : List Region) :
    (trimBack context rs).filter (!·.kept) = rs.filter (!·.kept) := by
  induction rs with
  | nil => rfl
  | cons r rs ih =>
      cases rs with
      | nil =>
          rw [trimBack]
          split
          · rename_i hkept
            simp [Region.takeLines, hkept]
          · rfl
      | cons r' rs =>
          rw [trimBack, List.filter_cons, List.filter_cons (x := r), ih]
          simp

theorem filter_split (context : Nat) (rs : List Region) :
    ((split context rs).1 ++ (split context rs).2.flatten).filter (!·.kept) =
      rs.filter (!·.kept) := by
  induction rs with
  | nil => rfl
  | cons r rs ih =>
      rw [split]
      generalize split context rs = parts at ih
      obtain ⟨group, hunks⟩ := parts
      dsimp only at ih ⊢
      split
      · rename_i hlong
        obtain ⟨hkept, -⟩ : r.kept ∧ 2 * context < r.oldSize := by simpa using hlong
        rw [List.filter_cons_of_neg (a := r) (by simp [hkept]), ← ih]
        split
        · rename_i hnone
          obtain ⟨rfl, rfl⟩ : hunks = [] ∧ group = [] := by simpa using hnone
          simp [Region.takeLines, hkept]
        · simp [Region.takeLines, Region.dropLines, hkept]
      · rw [List.cons_append, List.filter_cons, List.filter_cons (x := r), ih]

/-- The hunks show all changed regions. -/
theorem filter_hunks (context : Nat) (rs : List Region) :
    (hunks context rs).flatten.filter (!·.kept) = rs.filter (!·.kept) := by
  have hsplit := filter_split context (trimBack context (trimFront context rs))
  rw [filter_trimBack, filter_trimFront] at hsplit
  rw [← hsplit]
  unfold hunks
  generalize split context (trimBack context (trimFront context rs)) = parts
  obtain ⟨group, rest⟩ := parts
  dsimp only
  split
  · rfl
  · split
    · rename_i hkept
      simp [hkept]
    · rfl
  · rfl

theorem countLines_hunks (context : Nat) (rs : List Region) :
    countLines (hunks context rs).flatten = countLines rs := by
  unfold countLines
  rw [filter_hunks]

end Longhand.Diff
