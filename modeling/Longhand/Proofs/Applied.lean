import Longhand.Proofs.Tiles

/-!
# Diffs as patches

The hunks of a diff, applied one after the other to the old lines, make the new ones.  A hunk is put
behind the number of lines that its old range leaves before it, and its body says by marks what becomes
of the lines from there on.  A strict application also wants the ranges to tell the numbers of lines
of the body and the place of the hunk among the new lines.
-/

namespace Longhand.Diff

/-! ## Patches -/

/-- A range of lines as a hunk header tells it: the number of lines before it, and that of its own. -/
structure Range where
  before : Nat
  size : Nat
  deriving Repr, DecidableEq

/-- A hunk as it is applied. -/
structure Chunk where
  old : Range
  new : Range
  body : List BodyLine
  deriving Repr, DecidableEq

def BodyLine.isOld (l : BodyLine) : Bool := l.mark != .added

def BodyLine.isNew (l : BodyLine) : Bool := l.mark != .removed

section

variable (line : List Char)

@[simp] theorem isOld_context : (⟨.context, line⟩ : BodyLine).isOld = true := rfl

@[simp] theorem isOld_removed : (⟨.removed, line⟩ : BodyLine).isOld = true := rfl

@[simp] theorem isOld_added : (⟨.added, line⟩ : BodyLine).isOld = false := rfl

@[simp] theorem isNew_context : (⟨.context, line⟩ : BodyLine).isNew = true := rfl

@[simp] theorem isNew_removed : (⟨.removed, line⟩ : BodyLine).isNew = false := rfl

@[simp] theorem isNew_added : (⟨.added, line⟩ : BodyLine).isNew = true := rfl

end

/-- What the lines of a body make of some lines, and the lines behind them.  The lines that a body
keeps or removes have to be there. -/
def applyBody : List BodyLine → List (List Char) → Option (List (List Char) × List (List Char))
  | [], ls => some ([], ls)
  | ⟨.added, line⟩ :: body, ls => (applyBody body ls).map fun p => (line :: p.1, p.2)
  | ⟨_, _⟩ :: _, [] => none
  | ⟨.context, line⟩ :: body, l :: ls =>
      if l = line then (applyBody body ls).map fun p => (l :: p.1, p.2) else none
  | ⟨.removed, line⟩ :: body, l :: ls => if l = line then applyBody body ls else none

/-- Whether the ranges of a hunk tell the numbers of its lines and where it stands among the lines
that are made. -/
def Chunk.isExact (c : Chunk) (made : Nat) : Bool :=
  c.old.size == c.body.countP (·.isOld) && c.new.size == c.body.countP (·.isNew) &&
    c.new.before == made

/-- What some hunks make of the lines that are left after `read` ones, when `made` ones are made. -/
def patch (strict : Bool) (read made : Nat) : List Chunk → List (List Char) →
    Option (List (List Char))
  | [], ls => some ls
  | c :: rest, ls =>
      let skipped := c.old.before - read
      if read ≤ c.old.before && skipped ≤ ls.length &&
          (!strict || c.isExact (made + skipped)) then
        match applyBody c.body (ls.drop skipped) with
        | none => none
        | some (out, ls') =>
            (patch strict (c.old.before + c.body.countP (·.isOld)) (made + skipped + out.length)
              rest ls').map (ls.take skipped ++ out ++ ·)
      else none

/-! ## Bodies -/

variable {old new : Array (List Char)} {strict : Bool} {i j i' j' n context : Nat}
  {ls ls' out rest : List (List Char)} {a b body : List BodyLine} {r : Region} {h : Hunk}

theorem applyBody_append {out' ls'' : List (List Char)} (ha : applyBody a ls = some (out, ls'))
    (hb : applyBody b ls' = some (out', ls'')) :
    applyBody (a ++ b) ls = some (out ++ out', ls'') := by
  fun_induction applyBody a ls generalizing out ls' with
  | case1 ls =>
      cases ha
      exact hb
  | case2 line a ls ih =>
      obtain ⟨⟨made, rest⟩, hrest, hout⟩ := Option.map_eq_some_iff.1 ha
      cases hout
      simp [applyBody, ih hrest hb]
  | case3 => cases ha
  | case4 a l ls ih =>
      obtain ⟨⟨made, rest⟩, hrest, hout⟩ := Option.map_eq_some_iff.1 ha
      cases hout
      simp [applyBody, ih hrest hb]
  | case5 => cases ha
  | case6 a l ls ih => simp [applyBody, ih ha hb]
  | case7 => cases ha

/-- A body uses up the lines that it keeps or removes, and makes those that it keeps or adds. -/
theorem length_applyBody (h : applyBody body ls = some (out, rest)) :
    ls.length = body.countP (·.isOld) + rest.length ∧ out.length = body.countP (·.isNew) := by
  fun_induction applyBody body ls generalizing out rest with
  | case1 ls =>
      cases h
      simp
  | case2 line body ls ih =>
      obtain ⟨⟨made, rest'⟩, hrest, hout⟩ := Option.map_eq_some_iff.1 h
      cases hout
      simpa [List.countP_cons] using ih hrest
  | case3 => cases h
  | case4 body l ls ih =>
      obtain ⟨⟨made, rest'⟩, hrest, hout⟩ := Option.map_eq_some_iff.1 h
      cases hout
      have hlength := ih hrest
      simp [List.countP_cons]
      omega
  | case5 => cases h
  | case6 body l ls ih =>
      have hlength := ih h
      simp [List.countP_cons]
      omega
  | case7 => cases h

/-- A body without added and removed lines changes nothing. -/
theorem eq_of_applyBody (h : applyBody body ls = some (out, rest))
    (hbody : ∀ l ∈ body, l.mark = .context) : out ++ rest = ls := by
  fun_induction applyBody body ls generalizing out rest with
  | case1 ls =>
      cases h
      rfl
  | case4 body l ls ih =>
      obtain ⟨⟨made, rest'⟩, hrest, hout⟩ := Option.map_eq_some_iff.1 h
      cases hout
      rw [List.cons_append, ih hrest fun b hb => hbody b (List.mem_cons_of_mem _ hb)]
  | case2 => exact absurd (hbody _ List.mem_cons_self) (by simp)
  | case6 => exact absurd (hbody _ List.mem_cons_self) (by simp)
  | _ => cases h

theorem applyBody_context (ls : List (List Char)) (n : Nat) :
    applyBody ((ls.take n).map (⟨.context, ·⟩)) ls = some (ls.take n, ls.drop n) := by
  induction ls generalizing n with
  | nil => simp [applyBody]
  | cons l ls ih =>
      cases n with
      | zero => rfl
      | succ n => rw [List.take_succ_cons, List.map_cons, applyBody, if_pos rfl, ih]; rfl

theorem applyBody_removed (ls : List (List Char)) (n : Nat) :
    applyBody ((ls.take n).map (⟨.removed, ·⟩)) ls = some ([], ls.drop n) := by
  induction ls generalizing n with
  | nil => simp [applyBody]
  | cons l ls ih =>
      cases n with
      | zero => rfl
      | succ n => rw [List.take_succ_cons, List.map_cons, applyBody, if_pos rfl, ih]; rfl

theorem applyBody_added (added ls : List (List Char)) :
    applyBody (added.map (⟨.added, ·⟩)) ls = some (added, ls) := by
  induction added with
  | nil => rfl
  | cons l added ih => rw [List.map_cons, applyBody, ih]; rfl

theorem Alike.take_drop (h : Alike old new i j n) :
    (old.toList.drop i).take n = (new.toList.drop j).take n := by
  apply List.ext_getElem?
  intro k
  rw [List.getElem?_take, List.getElem?_take]
  split
  · rename_i hk
    obtain ⟨x, hx, hy⟩ := h k hk
    simp [hx, hy]
  · rfl

/-- The lines of a region make its new lines of its old ones. -/
theorem Region.Fits.applyBody (hr : r.Fits old new strict i j) :
    applyBody (r.body old new) (old.toList.drop i) =
      some ((new.toList.drop j).take r.newSize, old.toList.drop (i + r.oldSize)) := by
  unfold Region.body marked
  rw [← List.drop_drop]
  split
  · rename_i hkept
    obtain ⟨hsize, halike⟩ := hr.alike hkept
    rw [hr.start (.inl hkept), hsize, ← halike.take_drop]
    exact applyBody_context _ _
  · have hremoved : Diff.applyBody (((old.toList.drop r.old).take r.oldSize).map (⟨.removed, ·⟩))
        (old.toList.drop i) = some ([], (old.toList.drop i).drop r.oldSize) := by
      rcases Nat.eq_zero_or_pos r.oldSize with hnone | hsome
      · rw [hnone]
        rfl
      · rw [hr.start (.inr (.inr hsome))]
        exact applyBody_removed _ _
    have hadded : ((new.toList.drop r.new).take r.newSize) =
        (new.toList.drop j).take r.newSize := by
      rcases Nat.eq_zero_or_pos r.newSize with hnone | hsome
      · rw [hnone, List.take_zero, List.take_zero]
      · rw [hr.startNew (.inr (.inr hsome))]
    rw [hadded]
    exact applyBody_append hremoved (applyBody_added _ _)

/-- The lines of regions side by side make their new lines of their old ones. -/
theorem Tiles.applyBody (ht : Tiles old new strict i' j' i j h) :
    applyBody (Hunk.body old new h) (old.toList.drop i) =
      some ((new.toList.drop j).take (j' - j), old.toList.drop i') := by
  induction h generalizing i j with
  | nil =>
      obtain ⟨rfl, rfl⟩ := ht
      rw [Nat.sub_self]
      rfl
  | cons r h ih =>
      obtain ⟨hr, hrest⟩ := ht
      have hle := hrest.le
      have hsum : j' - j = r.newSize + (j' - (j + r.newSize)) := by omega
      rw [hsum, List.take_add, List.drop_drop]
      exact applyBody_append hr.applyBody (ih hrest)

/-! ## Hunks -/

/-- A hunk as it is applied.  One without lines does nothing. -/
def Hunk.chunk (old new : Array (List Char)) (h : Hunk) : Option Chunk :=
  match h.head?, h.getLast?, Hunk.body old new h with
  | some first, some last, l :: ls =>
      some
        { old := ⟨first.old, last.old + last.oldSize - first.old⟩
          new := ⟨first.new, last.new + last.newSize - first.new⟩
          body := l :: ls }
  | _, _, _ => none

theorem Hunk.chunk_eq_none (hc : Hunk.chunk old new h = none) : Hunk.body old new h = [] := by
  cases hbody : Hunk.body old new h with
  | nil => rfl
  | cons l ls =>
      cases h with
      | nil => cases hbody
      | cons r h => simp [Hunk.chunk, List.getLast?_cons, hbody] at hc

theorem Hunk.chunk_eq_some {c : Chunk} (hc : Hunk.chunk old new h = some c) :
    c.body = Hunk.body old new h ∧ ∃ first last, h.head? = some first ∧ h.getLast? = some last ∧
      c.old = ⟨first.old, last.old + last.oldSize - first.old⟩ ∧
        c.new = ⟨first.new, last.new + last.newSize - first.new⟩ := by
  unfold Hunk.chunk at hc
  split at hc
  · rename_i first last l ls hfirst hlast hbody
    cases hc
    exact ⟨hbody.symm, first, last, hfirst, hlast, rfl, rfl⟩
  · cases hc

/-- A body that regions make leads from place to place. -/
theorem Tiles.countP_body (ht : Tiles old new strict i' j' i j h) (hi : i' ≤ old.size)
    (hj : j' ≤ new.size) :
    i + (Hunk.body old new h).countP (·.isOld) = i' ∧
      j + (Hunk.body old new h).countP (·.isNew) = j' := by
  have hlength := length_applyBody ht.applyBody
  have hle := ht.le
  simp only [List.length_drop, List.length_take, Array.length_toList] at hlength
  omega

/-- The ranges of strict regions tell the numbers of lines and the places of their body. -/
theorem Hunk.chunk_isExact {c : Chunk} (ht : Tiles old new true i' j' i j h) (hi : i' ≤ old.size)
    (hj : j' ≤ new.size) (hc : Hunk.chunk old new h = some c) : c.isExact j := by
  obtain ⟨hbody, first, last, hfirst, hlast, hcold, hcnew⟩ := Hunk.chunk_eq_some hc
  obtain ⟨hold, hnew⟩ := ht.countP_body hi hj
  obtain ⟨hfirstOld, hfirstNew⟩ := ht.head? hfirst
  obtain ⟨hlastOld, hlastNew⟩ := ht.getLast? hlast
  simp only [Chunk.isExact, hbody, hcold, hcnew, Bool.and_eq_true, beq_iff_eq]
  omega

/-- Hunks that show all that differs make the new lines of the old ones. -/
theorem Shows.patch {hs : List Hunk} (hshows : Shows old new strict old.size new.size i j hs) :
    patch strict i j (hs.filterMap (Hunk.chunk old new)) (old.toList.drop i) =
      some (new.toList.drop j) := by
  induction hs generalizing i j with
  | nil =>
      cases hshows with
      | @nil _ _ n alike hi hj =>
          have htake := alike.take_drop
          rw [List.take_of_length_le (by simp; omega),
            List.take_of_length_le (by simp; omega)] at htake
          exact congrArg some htake
  | cons h hs ih =>
      cases hshows with
      | @cons _ _ n i₁ j₁ _ _ alike start tiles shows =>
          have hle := tiles.le
          have hstop := shows.le
          obtain ⟨hold, hnew⟩ := tiles.countP_body hstop.1 hstop.2
          cases hc : Hunk.chunk old new h with
          | none =>
              rw [List.filterMap_cons_none hc]
              -- A hunk without lines leads nowhere.
              rw [Hunk.chunk_eq_none hc, List.countP_nil, Nat.add_zero] at hold hnew
              subst hold hnew
              exact ih (shows.skip alike)
          | some c =>
              rw [List.filterMap_cons_some hc]
              obtain ⟨hbody, first, last, hfirst, -, hcold, -⟩ := Hunk.chunk_eq_some hc
              have hstart : c.old.before = i + n := by
                rw [hcold]
                exact start first hfirst
              have hskip : n ≤ (old.toList.drop i).length := by
                rw [List.length_drop, Array.length_toList]
                omega
              have hexact : (!strict || c.isExact (j + n)) = true := by
                cases strict with
                | false => rfl
                | true => exact Hunk.chunk_isExact tiles hstop.1 hstop.2 hc
              have hmade : j + n + ((new.toList.drop (j + n)).take (j₁ - (j + n))).length = j₁ := by
                rw [List.length_take, List.length_drop, Array.length_toList]
                omega
              unfold Diff.patch
              dsimp only
              rw [hstart, hbody, Nat.add_sub_cancel_left, List.drop_drop, tiles.applyBody, hold,
                if_pos (by simp only [Nat.le_add_right, hskip, hexact, decide_true, Bool.and_self])]
              dsimp only
              rw [hmade, ih shows, alike.take_drop, Option.map_some, List.append_assoc]
              have hrest := List.take_append_drop (j₁ - (j + n)) (new.toList.drop (j + n))
              rw [List.drop_drop, Nat.add_sub_cancel' hle.2] at hrest
              rw [hrest, ← List.drop_drop, List.take_append_drop]

/-! ## Marks -/

theorem countP_marked (mark kind : Mark) (ls : Array (List Char)) (start size : Nat) :
    (marked mark ls start size).countP (·.mark == kind) =
      if mark = kind then min size (ls.size - start) else 0 := by
  rw [marked, List.countP_map]
  split
  · rename_i hmark
    subst hmark
    simp [Function.comp_def]
  · rename_i hmark
    simp [Function.comp_def, hmark]

/-- The body lines of a region with a mark of change are the lines that it changes. -/
theorem Region.Fits.countP_body (hr : r.Fits old new strict i j) (hi : i + r.oldSize ≤ old.size)
    (hj : j + r.newSize ≤ new.size) :
    (r.body old new).countP (·.mark == .removed) = r.changed.1 ∧
      (r.body old new).countP (·.mark == .added) = r.changed.2 := by
  unfold Region.body Region.changed
  split
  · simp [countP_marked]
  · have hold : min r.oldSize (old.size - r.old) = r.oldSize := by
      rcases Nat.eq_zero_or_pos r.oldSize with hnone | hsome
      · omega
      · have hstart := hr.start (.inr (.inr hsome))
        omega
    have hnew : min r.newSize (new.size - r.new) = r.newSize := by
      rcases Nat.eq_zero_or_pos r.newSize with hnone | hsome
      · omega
      · have hstart := hr.startNew (.inr (.inr hsome))
        omega
    simp [List.countP_append, countP_marked, hold, hnew]

theorem Tiles.countP_marks (ht : Tiles old new strict i' j' i j h) (hi : i' ≤ old.size)
    (hj : j' ≤ new.size) :
    (Hunk.body old new h).countP (·.mark == .removed) = (countLines h).removed ∧
      (Hunk.body old new h).countP (·.mark == .added) = (countLines h).added := by
  induction h generalizing i j with
  | nil => exact ⟨rfl, rfl⟩
  | cons r h ih =>
      obtain ⟨hr, hrest⟩ := ht
      have hle := hrest.le
      have hfirst := hr.countP_body (by omega) (by omega)
      have hmore := ih hrest
      have hcount := countLines_cons r h
      rw [Hunk.body, List.flatMap_cons, List.countP_append, List.countP_append]
      rw [Hunk.body] at hmore
      omega

theorem Shows.countP_marks {hs : List Hunk}
    (hshows : Shows old new strict old.size new.size i j hs) :
    (hs.flatMap (Hunk.body old new)).countP (·.mark == .removed) = (countLines hs.flatten).removed ∧
      (hs.flatMap (Hunk.body old new)).countP (·.mark == .added) = (countLines hs.flatten).added := by
  induction hs generalizing i j with
  | nil => exact ⟨rfl, rfl⟩
  | cons h hs ih =>
      cases hshows with
      | cons alike start tiles shows =>
          have hle := shows.le
          have hfirst := tiles.countP_marks hle.1 hle.2
          have hmore := ih shows
          have hsum := countLines_append h hs.flatten
          rw [List.flatMap_cons, List.countP_append, List.countP_append, List.flatten_cons]
          omega

theorem flatMap_chunk (hs : List Hunk) :
    (hs.filterMap (Hunk.chunk old new)).flatMap (·.body) = hs.flatMap (Hunk.body old new) := by
  induction hs with
  | nil => rfl
  | cons h hs ih =>
      cases hc : Hunk.chunk old new h with
      | none => rw [List.filterMap_cons_none hc, List.flatMap_cons, Hunk.chunk_eq_none hc, ih]; rfl
      | some c =>
          rw [List.filterMap_cons_some hc, List.flatMap_cons, List.flatMap_cons,
            (Hunk.chunk_eq_some hc).1, ih]

/-! ## Diffs -/

/-- The hunks between the old and the new lines as they are applied. -/
def chunks (old new : Array (List Char)) (context : Nat) : List Chunk :=
  (hunks context (regionsBetween old new)).filterMap (Hunk.chunk old new)

theorem head?_regionsBetween (old new : Array (List Char)) :
    ∀ r ∈ (regionsBetween old new).head?, r.old = 0 := by
  intro r hr
  have htiles := regionsBetween_tiles old new
  cases hrs : regionsBetween old new with
  | nil =>
      rw [hrs] at hr
      cases hr
  | cons r' rs =>
      rw [hrs] at hr htiles
      cases hr
      exact Nat.le_zero.1 htiles.1.low

/-- The hunks between the old and the new lines make the new lines of the old ones.  If each region
starts where the one before it stops, the ranges of the hunks are exact as well. -/
theorem patch_chunks (old new : Array (List Char)) (context : Nat) :
    patch false 0 0 (chunks old new context) old.toList = some new.toList ∧
      (Placed 0 0 (regionsBetween old new) →
        patch true 0 0 (chunks old new context) old.toList = some new.toList) := by
  have htiles := regionsBetween_tiles old new
  have hstart := head?_regionsBetween old new
  constructor
  · exact (htiles.hunks hstart context).patch
  · intro hplaced
    exact ((htiles.of_placed hplaced).hunks hstart context).patch

/-- The marks of the hunks between the old and the new lines are counted right. -/
theorem countP_chunks (old new : Array (List Char)) (context : Nat) :
    ((chunks old new context).flatMap (·.body)).countP (·.mark == .removed) =
        (countLines (regionsBetween old new)).removed ∧
      ((chunks old new context).flatMap (·.body)).countP (·.mark == .added) =
        (countLines (regionsBetween old new)).added := by
  have hshows := (regionsBetween_tiles old new).hunks (head?_regionsBetween old new) context
  rw [chunks, flatMap_chunk, ← countLines_hunks context]
  exact hshows.countP_marks

/-! ## Equal texts -/

theorem commonRun_self (ls : Array (List Char)) {limit : Nat} (h : i + limit ≤ ls.size) :
    commonRun ls ls i i limit = limit := by
  induction limit generalizing i with
  | zero => rfl
  | succ limit ih =>
      obtain ⟨x, hx⟩ : ∃ x, ls[i]? = some x := ⟨ls[i], Array.getElem?_eq_getElem (by omega)⟩
      simp [commonRun, hx, ih (i := i + 1) (by omega)]

/-- All lines of two equal texts are kept. -/
theorem script_self (ls : Array (List Char)) : script ls ls = keepStep 0 0 ls.size := by
  have hcommon : Box.common ls ls ⟨0, ls.size, 0, ls.size⟩ = ls.size := by
    simp [Box.common, Box.oldSize, Box.newSize, commonRun_self]
  rw [script, solve, hcommon]
  simp [Box.oldSize, Box.newSize, Box.commonBack, Box.replaced, commonRunBack]
  simp [keepStep]

/-- A script without steps of a kind has none that could be moved. -/
theorem compactTag_of_ne {tag : Tag} {before after : List Step} (fuel : Nat)
    (h : ∀ s ∈ after, s.tag ≠ tag) : compactTag old new tag fuel before after =
      before.reverse ++ after := by
  induction fuel generalizing before after with
  | zero => rfl
  | succ fuel ih =>
      cases after with
      | nil => simp [compactTag]
      | cons t after =>
          rw [compactTag, if_neg (h t List.mem_cons_self),
            ih fun s hs => h s (List.mem_cons_of_mem _ hs), List.reverse_cons, List.append_assoc]
          rfl

theorem hunks_kept (hkept : r.kept) (context : Nat) : hunks context [r] = [] := by
  have hshort : ¬ 2 * context < min (r.oldSize - (r.oldSize - context)) context := by omega
  simp [hunks, trimFront, trimBack, split, Region.dropLines, Region.takeLines, hkept, hshort]

theorem chunks_self (ls : Array (List Char)) (context : Nat) : chunks ls ls context = [] := by
  have hcompact : compact ls ls (keepStep 0 0 ls.size) = keepStep 0 0 ls.size := by
    have hkeep : ∀ s ∈ keepStep 0 0 ls.size, s.tag = .keep := by
      unfold keepStep
      split <;> simp
    have hstay : ∀ tag fuel, tag ≠ .keep →
        compactTag ls ls tag fuel [] (keepStep 0 0 ls.size) = keepStep 0 0 ls.size := by
      intro tag fuel htag
      exact compactTag_of_ne fuel fun s hs => (hkeep s hs).symm ▸ htag.symm
    rw [compact, hstay _ _ (by simp), hstay _ _ (by simp)]
  rw [chunks, regionsBetween, script_self, hcompact]
  unfold keepStep
  split
  · rfl
  · rw [regions, gather, gather]
    exact congrArg (List.filterMap _) (hunks_kept rfl context)

/-- Hunks whose bodies change nothing change nothing. -/
theorem eq_of_patch {read made : Nat} {cs : List Chunk} (h : patch strict read made cs ls = some out)
    (hcs : ∀ l ∈ cs.flatMap (·.body), l.mark = .context) : out = ls := by
  induction cs generalizing read made ls out with
  | nil =>
      cases h
      rfl
  | cons c cs ih =>
      rw [List.flatMap_cons] at hcs
      unfold patch at h
      dsimp only at h
      split at h
      · split at h
        · cases h
        · rename_i made' ls' happly
          obtain ⟨more, hmore, rfl⟩ := Option.map_eq_some_iff.1 h
          rw [ih hmore fun l hl => hcs l (List.mem_append_right _ hl), List.append_assoc,
            eq_of_applyBody happly fun l hl => hcs l (List.mem_append_left _ hl),
            List.take_append_drop]
      · cases h

/-- There are hunks exactly where lines differ. -/
theorem chunks_eq_nil_iff : chunks old new context = [] ↔ old = new := by
  constructor
  · intro h
    have hpatch := (patch_chunks old new context).1
    rw [h] at hpatch
    exact Array.toList_inj.1 (Option.some.inj hpatch)
  · rintro rfl
    exact chunks_self old context

/-- A file is counted exactly where lines differ. -/
theorem files_eq_zero_iff (old new : Array (List Char)) :
    (countLines (regionsBetween old new)).files = 0 ↔ old = new := by
  obtain ⟨hremoved, hadded⟩ := countP_chunks old new 0
  have hfiles : ∀ rs, (countLines rs).files = 0 ↔
      (countLines rs).removed = 0 ∧ (countLines rs).added = 0 := by
    intro rs
    simp [countLines, and_comm]
  rw [hfiles, ← hremoved, ← hadded]
  constructor
  · rintro ⟨hnone, hnone'⟩
    rw [List.countP_eq_zero] at hnone hnone'
    refine Array.toList_inj.1 (eq_of_patch (patch_chunks old new 0).1 fun l hl => ?_).symm
    have hr := hnone l hl
    have ha := hnone' l hl
    cases hmark : l.mark <;> simp_all
  · rintro rfl
    rw [chunks_self]
    exact ⟨rfl, rfl⟩

end Longhand.Diff
