import Longhand.Diff.Script

/-!
# Where the search for a meeting ends

The paths of the search may run out of the two ranges that are compared, since a diagonal is followed
for as long as the paths have steps left.  A meeting is nevertheless found inside the ranges: a path
that has left them has a neighbour that stands at their edge, and there a meeting would have been
found one round before.
-/

namespace Longhand.Diff

variable {α : Type} [BEq α] {n m d s size : Nat} {delta j k : Int} {r r' : Reach} {x z : Nat}

/-! ## Tables of reaches -/

namespace Reach

/-- Whether a table has room for the diagonals of two ranges of some size together. -/
structure Wide (r : Reach) (size : Nat) : Prop where
  offset : r.offset = size + 2
  size : r.values.size = 2 * (size + 2) + 1

theorem wide_start (size : Nat) : (start (size + 2)).Wide size :=
  ⟨rfl, by simp [start]⟩

theorem get_start (o : Nat) (k : Int) : (start o).get k = 0 := by
  unfold get start
  rw [Array.getElem?_replicate]
  split <;> rfl

theorem Wide.set (h : r.Wide size) (k : Int) (x : Nat) : (r.set k x).Wide size :=
  ⟨h.offset, by simpa [Reach.set] using h.size⟩

theorem Wide.get_set (h : r.Wide size) (_ : -(size + 2 : Int) ≤ k) (_ : k ≤ size + 2) :
    (r.set k x).get k = x := by
  have hlt : (k + r.offset).toNat < r.values.size := by
    rw [h.size, h.offset]
    omega
  simp [get, Reach.set, hlt]

theorem Wide.get_set_ne (h : r.Wide size) (hk : -(size + 2 : Int) ≤ k)
    (hj : -(size + 2 : Int) ≤ j) (hne : j ≠ k) : (r.set k x).get j = r.get j := by
  have hplaces : (k + r.offset).toNat ≠ (j + r.offset).toNat := by
    rw [h.offset]
    omega
  simp [get, Reach.set, Array.getElem?_setIfInBounds_ne hplaces]

end Reach

/-! ## Diagonals -/

/-- Whether paths of some length end on a diagonal. -/
def Ends (d : Nat) (k : Int) : Prop :=
  -(d : Int) ≤ k ∧ k ≤ d ∧ (k - d) % 2 = 0

theorem mem_diagonals : k ∈ diagonals d ↔ Ends d k := by
  simp only [diagonals, List.mem_map, List.mem_range, Ends]
  constructor
  · rintro ⟨j, hj, rfl⟩
    omega
  · rintro ⟨hlow, hhigh, hparity⟩
    exact ⟨((d - k) / 2).toNat, by omega, by omega⟩

/-- A path enters a diagonal from one of its neighbours, and no other one reaches further. -/
theorem enter_spec (r : Reach) (hk : Ends (d + 1) k) :
    (r.enter (d + 1) k = r.get (k + 1) ∧ Ends d (k + 1) ∨
      r.enter (d + 1) k = r.get (k - 1) + 1 ∧ Ends d (k - 1)) ∧
    (Ends d (k + 1) → r.get (k + 1) ≤ r.enter (d + 1) k) ∧
    (Ends d (k - 1) → r.get (k - 1) + 1 ≤ r.enter (d + 1) k) := by
  unfold Ends at *
  unfold Reach.enter
  split
  · rename_i h
    simp only [Bool.or_eq_true, Bool.and_eq_true, decide_eq_true_eq] at h
    refine ⟨.inl ⟨rfl, ?_⟩, fun _ => Nat.le_refl _, fun hleft => ?_⟩ <;> omega
  · rename_i h
    simp only [Bool.or_eq_true, Bool.and_eq_true, decide_eq_true_eq] at h
    refine ⟨.inr ⟨rfl, ?_⟩, fun hright => ?_, fun _ => Nat.le_refl _⟩ <;> omega

/-! ## Paths -/

/-- Whether a place on a diagonal can be reached by going on from another one along the diagonal:
either it is the same, or it lies inside the ranges. -/
def Extends (n m : Nat) (k : Int) (x z : Nat) : Prop :=
  x ≤ z ∧ (z = x ∨ z ≤ n ∧ z - k ≤ m)

/-- What a table says of the furthest paths of one length.  None has gone back, and none has left the
ranges by more than its length.  A path that has left them on one side could have turned to the other
side on its last way there, so the next diagonal that way reaches at most one place less far. -/
structure Furthest (n m d : Nat) (r : Reach) : Prop where
  ahead : ∀ k, Ends d k → k ≤ r.get k
  right : ∀ k, Ends d k → r.get k ≤ n + d
  below : ∀ k, Ends d k → r.get k - k ≤ m + d
  left_of_right : ∀ k, Ends d k → n < r.get k → Ends d (k - 2) ∧ r.get k ≤ r.get (k - 2) + 1
  right_of_below : ∀ k, Ends d k → m < r.get k - k →
    Ends d (k + 2) ∧ r.get k - k ≤ r.get (k + 2) - (k + 2) + 1

/-- Paths without a step stand at the beginning or have gone along the first diagonal. -/
theorem furthest_zero (h : Extends n m 0 0 (r.get 0)) : Furthest n m 0 r := by
  have hzero : ∀ {k : Int}, Ends 0 k → k = 0 := by
    rintro k ⟨hlow, hhigh, -⟩
    omega
  unfold Extends at h
  constructor <;> intro k hk <;> obtain rfl := hzero hk <;> omega

/-- One step more: what holds of the furthest paths of one length holds of those that go on from
them. -/
theorem Furthest.step (h : Furthest n m d r)
    (hextends : ∀ k, Ends (d + 1) k → Extends n m k (r.enter (d + 1) k) (r'.get k)) :
    Furthest n m (d + 1) r' := by
  -- The new paths go at least as far as those from either neighbour.
  have above : ∀ {k : Int}, Ends (d + 1) k → Ends d (k + 1) → r.get (k + 1) ≤ r'.get k :=
    fun hk hnext => Nat.le_trans ((enter_spec r hk).2.1 hnext) (hextends _ hk).1
  have beside : ∀ {k : Int}, Ends (d + 1) k → Ends d (k - 1) → r.get (k - 1) + 1 ≤ r'.get k :=
    fun hk hnext => Nat.le_trans ((enter_spec r hk).2.2 hnext) (hextends _ hk).1
  constructor
  · intro k hk
    obtain ⟨hle, -⟩ := hextends k hk
    rcases (enter_spec r hk).1 with ⟨henter, hnext⟩ | ⟨henter, hnext⟩
    · have := h.ahead _ hnext
      omega
    · have := h.ahead _ hnext
      omega
  · intro k hk
    obtain ⟨-, heq | ⟨hin, -⟩⟩ := hextends k hk
    · rcases (enter_spec r hk).1 with ⟨henter, hnext⟩ | ⟨henter, hnext⟩
      · have := h.right _ hnext
        omega
      · have := h.right _ hnext
        omega
    · omega
  · intro k hk
    obtain ⟨-, heq | ⟨-, hin⟩⟩ := hextends k hk
    · rcases (enter_spec r hk).1 with ⟨henter, hnext⟩ | ⟨henter, hnext⟩
      · have := h.below _ hnext
        omega
      · have := h.below _ hnext
        omega
    · omega
  · intro k hk hout
    have heq : r'.get k = r.enter (d + 1) k := (hextends k hk).2.resolve_right (by omega)
    -- The neighbour to the left of the last place but one is left of the new place as well.
    have hleft : Ends d (k - 1) ∧ r'.get k ≤ r.get (k - 1) + 1 := by
      rcases (enter_spec r hk).1 with ⟨henter, hnext⟩ | ⟨henter, hnext⟩
      · obtain ⟨hends, hle⟩ := h.left_of_right _ hnext (by omega)
        rw [show k + 1 - 2 = k - 1 by omega] at hends hle
        exact ⟨hends, by omega⟩
      · exact ⟨hnext, by omega⟩
    have hends : Ends (d + 1) (k - 2) := by
      obtain ⟨hlow, hhigh, hparity⟩ := hleft.1
      exact ⟨by omega, by omega, by omega⟩
    have hgoes := above hends (by rw [show k - 2 + 1 = k - 1 by omega]; exact hleft.1)
    rw [show k - 2 + 1 = k - 1 by omega] at hgoes
    exact ⟨hends, by omega⟩
  · intro k hk hout
    have heq : r'.get k = r.enter (d + 1) k := (hextends k hk).2.resolve_right (by omega)
    have hright : Ends d (k + 1) ∧ (r'.get k : Int) - k ≤ r.get (k + 1) - k := by
      rcases (enter_spec r hk).1 with ⟨henter, hnext⟩ | ⟨henter, hnext⟩
      · exact ⟨hnext, by omega⟩
      · obtain ⟨hends, hle⟩ := h.right_of_below _ hnext (by omega)
        rw [show k - 1 + 2 = k + 1 by omega] at hends hle
        exact ⟨hends, by omega⟩
    have hends : Ends (d + 1) (k + 2) := by
      obtain ⟨hlow, hhigh, hparity⟩ := hright.1
      exact ⟨by omega, by omega, by omega⟩
    have hgoes := beside hends (by rw [show k + 2 - 1 = k + 1 by omega]; exact hright.1)
    rw [show k + 2 - 1 = k + 1 by omega] at hgoes
    exact ⟨hends, by omega⟩

/-! ## Meetings -/

/-- Whether a meeting is looked for on a diagonal by paths of some length: the other paths have been
there, and they are of the length whose paths end on it. -/
def Meets (delta : Int) (s d : Nat) (k : Int) : Prop :=
  (delta + s) % 2 = 0 ∧ (k - delta).natAbs + s ≤ d

/-- Whether the paths of some length have not met the others: then they all stand inside the ranges
on the diagonals of the others. -/
def Unmet (n m : Nat) (delta : Int) (s d : Nat) (r : Reach) : Prop :=
  ∀ k, Ends d k → Meets delta s d k → r.get k < n ∧ r.get k - k < m

/-- A table before the paths of some length are looked for. -/
structure Ready (n m : Nat) (delta : Int) (s size d : Nat) (r : Reach) : Prop where
  wide : r.Wide size
  empty : d = 0 → ∀ k, r.get k = 0
  furthest : ∀ c, d = c + 1 → Furthest n m c r ∧ Unmet n m delta s c r

/-- Where a meeting is looked for, paths enter a diagonal inside the ranges. -/
theorem Ready.within (h : Ready n m delta s size d r) (hdelta : delta = n - m) (hs : s ≤ 1)
    (hk : Ends d k) (hmeets : Meets delta s d k) :
    r.enter d k ≤ n ∧ 0 ≤ r.enter d k - k ∧ r.enter d k - k ≤ m := by
  subst hdelta
  obtain ⟨hparity, hnear⟩ := hmeets
  cases d with
  | zero =>
      obtain ⟨hlow, hhigh, -⟩ := hk
      have hzero : k = 0 := by omega
      subst hzero
      have henter : r.enter 0 0 = 0 := by simp [Reach.enter, h.empty rfl]
      rw [henter]
      omega
  | succ d =>
      -- The diagonal is entered from one beside it, on which no path of the other side was met.
      obtain ⟨hfurthest, hunmet⟩ := h.furthest d rfl
      have hmod := hk.2.2
      rcases (enter_spec r hk).1 with ⟨henter, hnext⟩ | ⟨henter, hnext⟩
      · have hahead := hfurthest.ahead _ hnext
        refine ⟨Nat.le_of_not_lt fun hout => ?_, by omega, Int.not_lt.1 fun hout => ?_⟩
        · -- Too far to the right: the diagonal to the left stands at the edge.
          obtain ⟨hends, hle⟩ := hfurthest.left_of_right _ hnext (by omega)
          rw [show k + 1 - 2 = k - 1 by omega] at hends hle
          have hbelow := hfurthest.below _ hends
          by_cases hmeets : Meets (n - m) s d (k - 1)
          · have := (hunmet _ hends hmeets).1
            omega
          · unfold Meets at hmeets
            omega
        · have hright := hfurthest.right _ hnext
          by_cases hmeets : Meets (n - m) s d (k + 1)
          · have := (hunmet _ hnext hmeets).2
            omega
          · unfold Meets at hmeets
            omega
      · have hahead := hfurthest.ahead _ hnext
        refine ⟨Nat.le_of_not_lt fun hout => ?_, by omega, Int.not_lt.1 fun hout => ?_⟩
        · have hbelow := hfurthest.below _ hnext
          by_cases hmeets : Meets (n - m) s d (k - 1)
          · have := (hunmet _ hnext hmeets).1
            omega
          · unfold Meets at hmeets
            omega
        · -- Too far below: the diagonal to the right stands at the edge.
          obtain ⟨hends, hle⟩ := hfurthest.right_of_below _ hnext (by omega)
          rw [show k - 1 + 2 = k + 1 by omega] at hends hle
          have hright := hfurthest.right _ hends
          by_cases hmeets : Meets (n - m) s d (k + 1)
          · have := (hunmet _ hends hmeets).2
            omega
          · unfold Meets at hmeets
            omega

/-! ## Rounds -/

/-- One of the two directions of the search: the table that it extends, the table of the other one,
the meeting that a place of its paths stands for, and by how many steps the other paths are
behind. -/
structure Direction where
  mine : Frontier → Reach
  other : Frontier → Reach
  place : Nat → Int → Meeting
  slack : Nat

/-- The search from the front of two ranges. -/
def Box.fromFront (b : Box) : Direction where
  mine := Frontier.forward
  other := Frontier.backward
  place x y := (b.oldStart + x, b.newStart + y.toNat)
  slack := 1

/-- The search from the back of two ranges. -/
def Box.fromBack (b : Box) : Direction where
  mine := Frontier.backward
  other := Frontier.forward
  place x y := (b.oldStop - x, b.newStop - y.toNat)
  slack := 0

namespace Direction

variable {a : Direction} {f f' g : Frontier} {ks done : List Int}

/-- What a step on a diagonal does: it extends the path there, or ends with a meeting at a place of
it. -/
inductive Steps (a : Direction) (n m d : Nat) (delta : Int) (f : Frontier) (k : Int) :
    Except Meeting Frontier → Prop
  | ok {f' : Frontier} {z : Nat} : a.other f' = a.other f → a.mine f' = (a.mine f).set k z →
      Extends n m k ((a.mine f).enter d k) z →
      (Meets delta a.slack d k → z + (a.other f).get (delta - k) < n) →
      Steps a n m d delta f k (.ok f')
  | error {w : Nat} : Meets delta a.slack d k → Extends n m k ((a.mine f).enter d k) w →
      Steps a n m d delta f k (.error (a.place w (w - k)))

/-- What the steps on some diagonals have done.  The diagonals in between, where the paths come from,
are as they were. -/
structure Passed (a : Direction) (n m d size : Nat) (delta : Int) (f : Frontier) (ks : List Int)
    (f' : Frontier) : Prop where
  ends : ∀ k ∈ ks, Ends d k
  other : a.other f' = a.other f
  wide : (a.mine f').Wide size
  kept : ∀ j, -(d + 1 : Int) ≤ j → (j - d) % 2 ≠ 0 → (a.mine f').get j = (a.mine f).get j
  extends' : ∀ k ∈ ks, Extends n m k ((a.mine f).enter d k) ((a.mine f').get k)
  unmet : ∀ k ∈ ks, Meets delta a.slack d k →
    (a.mine f').get k + (a.other f).get (delta - k) < n

theorem enter_congr (hleft : r.get (k - 1) = r'.get (k - 1))
    (hright : r.get (k + 1) = r'.get (k + 1)) : r.enter d k = r'.enter d k := by
  unfold Reach.enter
  rw [hleft, hright]

theorem Passed.enter (h : a.Passed n m d size delta f ks g) (hk : Ends d k) :
    (a.mine g).enter d k = (a.mine f).enter d k := by
  obtain ⟨hlow, hhigh, hparity⟩ := hk
  exact enter_congr (h.kept _ (by omega) (by omega)) (h.kept _ (by omega) (by omega))

theorem Passed.step (h : a.Passed n m d size delta f done g) (hd : d ≤ size) (hk : Ends d k)
    (hother : a.other f' = a.other g) {z : Nat} (hmine : a.mine f' = (a.mine g).set k z)
    (hextends : Extends n m k ((a.mine g).enter d k) z)
    (hunmet : Meets delta a.slack d k → z + (a.other g).get (delta - k) < n) :
    a.Passed n m d size delta f (done ++ [k]) f' := by
  rw [h.enter hk] at hextends
  rw [h.other] at hunmet
  obtain ⟨hlow, hhigh, hparity⟩ := hk
  -- Only the diagonal that was passed has changed.
  have here : (a.mine f').get k = z := by
    rw [hmine]
    exact h.wide.get_set (by omega) (by omega)
  have elsewhere : ∀ j, -(d + 1 : Int) ≤ j → j ≠ k → (a.mine f').get j = (a.mine g).get j := by
    intro j hj hne
    rw [hmine]
    exact h.wide.get_set_ne (by omega) (by omega) hne
  have cases : ∀ {j : Int}, j ∈ done ++ [k] → j = k ∨
      j ∈ done ∧ (a.mine f').get j = (a.mine g).get j := by
    intro j hj
    by_cases hjk : j = k
    · exact .inl hjk
    · have hj : j ∈ done := by simpa [hjk] using hj
      have := (h.ends j hj).1
      exact .inr ⟨hj, elsewhere j (by omega) hjk⟩
  refine ⟨fun j hj => ?_, hother.trans h.other, hmine ▸ h.wide.set k z, fun j hj hodd => ?_,
    fun j hj => ?_, fun j hj hmeets => ?_⟩
  · rcases cases hj with rfl | ⟨hj, -⟩
    · exact ⟨hlow, hhigh, hparity⟩
    · exact h.ends j hj
  · rw [elsewhere j hj (by rintro rfl; exact hodd hparity), h.kept j hj hodd]
  · rcases cases hj with rfl | ⟨hj, hsame⟩
    · rw [here]
      exact hextends
    · rw [hsame]
      exact h.extends' j hj
  · rcases cases hj with rfl | ⟨hj, hsame⟩
    · rw [here]
      exact hunmet hmeets
    · rw [hsame]
      exact h.unmet j hj hmeets

/-- The steps on some diagonals go on from those before them, or end with a meeting. -/
theorem Passed.steps {step : Frontier → Int → Except Meeting Frontier}
    (hstep : ∀ f k, a.Steps n m d delta f k (step f k)) (hd : d ≤ size)
    (h : a.Passed n m d size delta f done g) (hks : ∀ k ∈ ks, Ends d k) :
    (∀ f', ks.foldlM step g = .ok f' → a.Passed n m d size delta f (done ++ ks) f') ∧
      ∀ p, ks.foldlM step g = .error p → ∃ k w, Ends d k ∧ Meets delta a.slack d k ∧
        Extends n m k ((a.mine f).enter d k) w ∧ p = a.place w (w - k) := by
  induction ks generalizing done g with
  | nil =>
      refine ⟨fun f' hf' => ?_, fun p hp => ?_⟩
      · cases hf'
        rwa [List.append_nil]
      · cases hp
  | cons k ks ih =>
      have hk := hks k List.mem_cons_self
      rw [List.foldlM_cons]
      have hone := hstep g k
      generalize step g k = result at hone
      cases hone with
      | @ok g' z hother hmine hextends hunmet =>
          have hnext := h.step hd hk hother hmine hextends hunmet
          have hrest := ih hnext fun j hj => hks j (List.mem_cons_of_mem _ hj)
          rwa [List.append_assoc, List.singleton_append] at hrest
      | @error w hmeets hextends =>
          rw [h.enter hk] at hextends
          refine ⟨fun f' hf' => ?_, fun p hp => ?_⟩
          · cases hf'
          · cases hp
            exact ⟨k, w, hk, hmeets, hextends, rfl⟩

/-- A round of steps on all diagonals of a length yields the furthest paths of that length, not met
by the others, or a meeting inside the ranges. -/
theorem round {step : Frontier → Int → Except Meeting Frontier}
    (hstep : ∀ f k, a.Steps n m d delta f k (step f k)) (hd : d ≤ size) (hdelta : delta = n - m)
    (hs : a.slack ≤ 1) (hmine : Ready n m delta a.slack size d (a.mine f))
    (hother : ∀ k, Ends d k → Meets delta a.slack d k → delta - k ≤ (a.other f).get (delta - k)) :
    (∀ f', (diagonals d).foldlM step f = .ok f' → a.other f' = a.other f ∧
      (a.mine f').Wide size ∧ Furthest n m d (a.mine f') ∧
        Unmet n m delta a.slack d (a.mine f')) ∧
      ∀ p, (diagonals d).foldlM step f = .error p →
        ∃ (x : Nat) (y : Int), x ≤ n ∧ 0 ≤ y ∧ y ≤ m ∧ p = a.place x y := by
  have hbegin : a.Passed n m d size delta f [] f :=
    ⟨fun k hk => absurd hk List.not_mem_nil, rfl, hmine.wide, fun _ _ _ => rfl,
      fun k hk => absurd hk List.not_mem_nil, fun k hk => absurd hk List.not_mem_nil⟩
  obtain ⟨hok, herror⟩ := hbegin.steps hstep hd fun k hk => mem_diagonals.1 hk
  refine ⟨fun f' hf' => ?_, fun p hp => ?_⟩
  · have hpassed := hok f' hf'
    have hextends : ∀ k, Ends d k → Extends n m k ((a.mine f).enter d k) ((a.mine f').get k) :=
      fun k hk => hpassed.extends' k (mem_diagonals.2 hk)
    refine ⟨hpassed.other, hpassed.wide, ?_, fun k hk hmeets => ?_⟩
    · cases d with
      | zero =>
          have hzero := hextends 0 ⟨by omega, by omega, by omega⟩
          have henter : (a.mine f).enter 0 0 = 0 := by simp [Reach.enter, hmine.empty rfl]
          rw [henter] at hzero
          exact furthest_zero hzero
      | succ d => exact (hmine.furthest d rfl).1.step hextends
    · have hsum := hpassed.unmet k (mem_diagonals.2 hk) hmeets
      have hahead := hother k hk hmeets
      subst hdelta
      omega
  · obtain ⟨k, w, hk, hmeets, ⟨hle, hw⟩, rfl⟩ := herror p hp
    obtain ⟨hright, hahead, hbelow⟩ := hmine.within hdelta hs hk hmeets
    refine ⟨w, w - k, ?_, ?_, ?_, rfl⟩ <;> omega

end Direction

/-! ## Steps -/

theorem commonRun_le (a b : Array α) (i j limit : Nat) : commonRun a b i j limit ≤ limit := by
  induction limit generalizing i j with
  | zero => exact Nat.le_refl _
  | succ limit ih =>
      unfold commonRun
      split
      · split
        · exact Nat.succ_le_succ (ih _ _)
        · exact Nat.zero_le _
      · exact Nat.zero_le _

theorem commonRunBack_le (a b : Array α) (i j limit : Nat) :
    commonRunBack a b i j limit ≤ limit := by
  induction limit generalizing i j with
  | zero => simp [commonRunBack]
  | succ limit ih =>
      unfold commonRunBack
      split
      · split
        · split
          · exact Nat.succ_le_succ (ih _ _)
          · exact Nat.zero_le _
        · exact Nat.zero_le _
      · exact Nat.zero_le _

variable {old new : Array α} {b : Box}

/-- Kept lines at the front of two ranges leave nothing of them uncovered. -/
theorem Box.common_le (old new : Array α) (b : Box) :
    b.common old new ≤ b.oldSize ∧ b.common old new ≤ b.newSize := by
  have h := commonRun_le old new b.oldStart b.newStart (min b.oldSize b.newSize)
  exact ⟨Nat.le_trans h (Nat.min_le_left _ _), Nat.le_trans h (Nat.min_le_right _ _)⟩

theorem Box.commonBack_le (old new : Array α) (b : Box) :
    b.commonBack old new ≤ b.oldSize ∧ b.commonBack old new ≤ b.newSize := by
  have h := commonRunBack_le old new b.oldStop b.newStop (min b.oldSize b.newSize)
  exact ⟨Nat.le_trans h (Nat.min_le_left _ _), Nat.le_trans h (Nat.min_le_right _ _)⟩

/-- The number of equal lines behind a place of a path from the front. -/
def Box.run (old new : Array α) (b : Box) (x : Nat) (k : Int) : Nat :=
  if x < b.oldSize && 0 ≤ (x : Int) - k && (x : Int) - k < b.newSize then
    Box.common old new { b with
      oldStart := b.oldStart + x, newStart := b.newStart + ((x : Int) - k).toNat }
  else 0

/-- The number of equal lines before a place of a path from the back. -/
def Box.runBack (old new : Array α) (b : Box) (x : Nat) (k : Int) : Nat :=
  if x < b.oldSize && 0 ≤ (x : Int) - k && (x : Int) - k < b.newSize then
    Box.commonBack old new { b with
      oldStop := b.oldStop - x, newStop := b.newStop - ((x : Int) - k).toNat }
  else 0

/-- Following a diagonal over equal lines stays inside the ranges. -/
theorem extends_run (old new : Array α) (b : Box) (x : Nat) (k : Int) :
    Extends b.oldSize b.newSize k x (x + b.run old new x k) := by
  unfold Box.run
  split
  · rename_i hin
    have hcommon := Box.common_le old new { b with
      oldStart := b.oldStart + x, newStart := b.newStart + ((x : Int) - k).toNat }
    simp only [Bool.and_eq_true, decide_eq_true_eq] at hin
    simp only [Box.oldSize, Box.newSize] at hin hcommon ⊢
    exact ⟨by omega, .inr ⟨by omega, by omega⟩⟩
  · exact ⟨Nat.le_refl _, .inl rfl⟩

theorem extends_runBack (old new : Array α) (b : Box) (x : Nat) (k : Int) :
    Extends b.oldSize b.newSize k x (x + b.runBack old new x k) := by
  unfold Box.runBack
  split
  · rename_i hin
    have hcommon := Box.commonBack_le old new { b with
      oldStop := b.oldStop - x, newStop := b.newStop - ((x : Int) - k).toNat }
    simp only [Bool.and_eq_true, decide_eq_true_eq] at hin
    simp only [Box.oldSize, Box.newSize] at hin hcommon ⊢
    exact ⟨by omega, .inr ⟨by omega, by omega⟩⟩
  · exact ⟨Nat.le_refl _, .inl rfl⟩

theorem forwardStep_eq (old new : Array α) (b : Box) (d : Nat) (f : Frontier) (k : Int) :
    let x := f.forward.enter d k
    let delta : Int := b.oldSize - b.newSize
    forwardStep old new b d f k =
      if delta % 2 = 1 && (k - delta).natAbs + 1 ≤ d &&
          b.oldSize ≤ x + b.run old new x k + f.backward.get (delta - k) then
        .error (b.fromFront.place x (x - k))
      else .ok { f with forward := f.forward.set k (x + b.run old new x k) } := by
  have hreached : ∀ (c : Bool) (x y : Nat), (if c then x + y else x) = x + if c then y else 0 := by
    intro c x y
    cases c <;> rfl
  unfold forwardStep
  dsimp only
  rw [hreached]
  rfl

theorem backwardStep_eq (old new : Array α) (b : Box) (d : Nat) (f : Frontier) (k : Int) :
    let x := f.backward.enter d k
    let delta : Int := b.oldSize - b.newSize
    let run := b.runBack old new x k
    backwardStep old new b d f k =
      if delta % 2 = 0 && (k - delta).natAbs ≤ d &&
          b.oldSize ≤ x + run + f.forward.get (delta - k) then
        .error (b.oldStop - (x + run), b.newStop - (((x : Int) - k).toNat + run))
      else .ok { f with backward := f.backward.set k (x + run) } :=
  rfl

theorem forwardStep_steps (old new : Array α) (b : Box) (d : Nat) (f : Frontier) (k : Int) :
    b.fromFront.Steps b.oldSize b.newSize d (b.oldSize - b.newSize) f k
      (forwardStep old new b d f k) := by
  rw [forwardStep_eq]
  split
  · rename_i hmeets
    simp only [Bool.and_eq_true, decide_eq_true_eq] at hmeets
    refine .error ⟨?_, hmeets.1.2⟩ ⟨Nat.le_refl _, .inl rfl⟩
    simp only [Box.fromFront]
    omega
  · rename_i hmeets
    simp only [Bool.and_eq_true, decide_eq_true_eq] at hmeets
    refine .ok rfl rfl (extends_run old new b _ k) fun h => Nat.lt_of_not_le fun hle =>
      hmeets ⟨⟨?_, h.2⟩, hle⟩
    have hparity := h.1
    simp only [Box.fromFront] at hparity
    omega

theorem backwardStep_steps (old new : Array α) (b : Box) (d : Nat) (f : Frontier) (k : Int) :
    b.fromBack.Steps b.oldSize b.newSize d (b.oldSize - b.newSize) f k
      (backwardStep old new b d f k) := by
  rw [backwardStep_eq]
  split
  · rename_i hmeets
    simp only [Bool.and_eq_true, decide_eq_true_eq] at hmeets
    have hplace : ((f.backward.enter d k : Int) - k).toNat +
        b.runBack old new (f.backward.enter d k) k =
          (((f.backward.enter d k + b.runBack old new (f.backward.enter d k) k : Nat) : Int)
            - k).toNat := by
      by_cases hk : k ≤ f.backward.enter d k
      · omega
      · have hrun : b.runBack old new (f.backward.enter d k) k = 0 := by simp [Box.runBack, hk]
        omega
    rw [hplace]
    refine .error (a := b.fromBack) ⟨?_, hmeets.1.2⟩ (extends_runBack old new b _ k)
    simp only [Box.fromBack]
    omega
  · rename_i hmeets
    simp only [Bool.and_eq_true, decide_eq_true_eq] at hmeets
    refine .ok rfl rfl (extends_runBack old new b _ k) fun h => Nat.lt_of_not_le fun hle =>
      hmeets ⟨⟨?_, h.2⟩, hle⟩
    have hparity := h.1
    simp only [Box.fromBack] at hparity
    omega

/-! ## The search -/

/-- Whether a meeting lies inside the ranges that are compared. -/
structure Box.Within (b : Box) (p : Meeting) : Prop where
  old : b.oldStart ≤ p.1 ∧ p.1 ≤ b.oldStop
  new : b.newStart ≤ p.2 ∧ p.2 ≤ b.newStop

/-- Whether the ranges of a box run forwards. -/
structure Box.Sane (b : Box) : Prop where
  old : b.oldStart ≤ b.oldStop
  new : b.newStart ≤ b.newStop

theorem extend?_within (old new : Array α) (hb : b.Sane) {fuel d : Nat} {f : Frontier}
    (hsize : size = b.oldSize + b.newSize) (hfuel : d + fuel ≤ size + 1)
    (hforward : Ready b.oldSize b.newSize (b.oldSize - b.newSize) 1 size d f.forward)
    (hbackward : Ready b.oldSize b.newSize (b.oldSize - b.newSize) 0 size d f.backward)
    {p : Meeting} (hp : extend? old new b f d fuel = some p) : b.Within p := by
  obtain ⟨hold, hnew⟩ := hb
  induction fuel generalizing d f with
  | zero => cases hp
  | succ fuel ih =>
      -- The paths from the back are one step behind.
      have hfront := Direction.round (a := b.fromFront) (forwardStep_steps old new b d)
        (by omega) rfl (Nat.le_refl 1) hforward fun k hk hmeets => by
          obtain ⟨hparity, hnear⟩ := hmeets
          obtain ⟨hlow, hhigh, hmod⟩ := hk
          simp only [Box.fromFront] at hparity hnear
          obtain ⟨c, rfl⟩ : ∃ c, d = c + 1 := ⟨d - 1, by omega⟩
          exact (hbackward.furthest c rfl).1.ahead _ ⟨by omega, by omega, by omega⟩
      rw [extend?] at hp
      cases hforwards : (diagonals d).foldlM (forwardStep old new b d) f with
      | error q =>
          rw [hforwards] at hp
          cases hp
          obtain ⟨x, y, hx, hy, hy', rfl⟩ := hfront.2 _ hforwards
          simp only [Box.fromFront, Box.oldSize, Box.newSize] at *
          constructor <;> dsimp only <;> omega
      | ok g =>
          rw [hforwards] at hp
          dsimp only at hp
          obtain ⟨hsame, hwide, hfurthest, hunmet⟩ := hfront.1 _ hforwards
          have hsame : g.backward = f.backward := hsame
          have hfurthest : Furthest b.oldSize b.newSize d g.forward := hfurthest
          have hready : Ready b.oldSize b.newSize (b.oldSize - b.newSize) 0 size d g.backward := by
            rwa [hsame]
          have hback := Direction.round (a := b.fromBack) (f := g) (backwardStep_steps old new b d)
            (by omega) rfl (Nat.zero_le 1) hready fun k hk hmeets => by
              obtain ⟨hparity, hnear⟩ := hmeets
              obtain ⟨hlow, hhigh, hmod⟩ := hk
              simp only [Box.fromBack] at hparity hnear
              exact hfurthest.ahead _ ⟨by omega, by omega, by omega⟩
          cases hbackwards : (diagonals d).foldlM (backwardStep old new b d) g with
          | error q =>
              rw [hbackwards] at hp
              cases hp
              obtain ⟨x, y, hx, hy, hy', rfl⟩ := hback.2 _ hbackwards
              simp only [Box.fromBack, Box.oldSize, Box.newSize] at *
              constructor <;> dsimp only <;> omega
          | ok g' =>
              rw [hbackwards] at hp
              dsimp only at hp
              obtain ⟨hsame', hwide', hfurthest', hunmet'⟩ := hback.1 _ hbackwards
              have hsame' : g'.forward = g.forward := hsame'
              refine ih (d := d + 1) (f := g') (by omega) ?_ ?_ hp
              · rw [hsame']
                refine ⟨hwide, fun h => (Nat.succ_ne_zero d h).elim, fun c hc => ?_⟩
                obtain rfl : d = c := by omega
                exact ⟨hfurthest, hunmet⟩
              · refine ⟨hwide', fun h => (Nat.succ_ne_zero d h).elim, fun c hc => ?_⟩
                obtain rfl : d = c := by omega
                exact ⟨hfurthest', hunmet'⟩

/-- A meeting is found inside the ranges that are compared. -/
theorem meeting?_within (hb : b.Sane) {p : Meeting} (h : meeting? old new b = some p) :
    b.Within p := by
  have ready : ∀ s, Ready b.oldSize b.newSize (b.oldSize - b.newSize) s
      (b.oldSize + b.newSize) 0 (Reach.start (b.oldSize + b.newSize + 2)) :=
    fun s => ⟨Reach.wide_start _, fun _ k => Reach.get_start _ k, fun c hc => by cases hc⟩
  exact extend?_within old new hb rfl (Nat.le_of_eq (Nat.zero_add _)) (ready 1) (ready 0) h

end Longhand.Diff
