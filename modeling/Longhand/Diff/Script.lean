/-!
# Edit scripts

The steps that lead from one list of lines to another, found by the divide-and-conquer form of the
greedy algorithm: keep what two ranges have in common at both ends, cut the rest at a point that an
optimal path goes through, and go on with the two halves.
-/

namespace Longhand.Diff

/-- What a step does with its lines. -/
inductive Tag where
  | keep
  | delete
  | insert
  deriving Repr, DecidableEq, Inhabited

/-- A run of lines that are treated alike: where it starts among the old and among the new lines,
and how many lines it has. -/
structure Step where
  tag : Tag
  old : Nat
  new : Nat
  size : Nat
  deriving Repr, DecidableEq, Inhabited

variable {α : Type} [BEq α]

/-- The number of equal elements of two arrays from two places on, at most `limit`. -/
def commonRun (a b : Array α) (i j : Nat) : Nat → Nat
  | 0 => 0
  | limit + 1 =>
      match a[i]?, b[j]? with
      | some x, some y => if x == y then commonRun a b (i + 1) (j + 1) limit + 1 else 0
      | _, _ => 0

/-- The number of equal elements of two arrays before two places, at most `limit`. -/
def commonRunBack (a b : Array α) (i j : Nat) : Nat → Nat
  | 0 => 0
  | limit + 1 =>
      match i, j with
      | i + 1, j + 1 =>
          match a[i]?, b[j]? with
          | some x, some y => if x == y then commonRunBack a b i j limit + 1 else 0
          | _, _ => 0
      | _, _ => 0

/-- Two ranges to be compared, of the old and of the new lines. -/
structure Box where
  oldStart : Nat
  oldStop : Nat
  newStart : Nat
  newStop : Nat
  deriving Repr, DecidableEq

def Box.oldSize (b : Box) : Nat := b.oldStop - b.oldStart

def Box.newSize (b : Box) : Nat := b.newStop - b.newStart

/-- The number of equal lines at the front of two ranges. -/
def Box.common (old new : Array α) (b : Box) : Nat :=
  commonRun old new b.oldStart b.newStart (min b.oldSize b.newSize)

/-- The number of equal lines at the back of two ranges. -/
def Box.commonBack (old new : Array α) (b : Box) : Nat :=
  commonRunBack old new b.oldStop b.newStop (min b.oldSize b.newSize)

/-- How far the paths of each diagonal reach.  Diagonals are counted from `-offset`, and one that
was never reached stands at zero. -/
structure Reach where
  offset : Nat
  values : Array Nat
  deriving Inhabited

def Reach.start (offset : Nat) : Reach :=
  ⟨offset, Array.replicate (2 * offset + 1) 0⟩

def Reach.get (r : Reach) (k : Int) : Nat :=
  (r.values[(k + r.offset).toNat]?).getD 0

def Reach.set (r : Reach) (k : Int) (x : Nat) : Reach :=
  { r with values := r.values.setIfInBounds (k + r.offset).toNat x }

/-- Where the best path of length `d` enters a diagonal: from the neighbour that reaches further. -/
def Reach.enter (r : Reach) (d : Nat) (k : Int) : Nat :=
  if k = -d || (k ≠ d && r.get (k - 1) < r.get (k + 1)) then r.get (k + 1) else r.get (k - 1) + 1

/-- The reaches of the paths from the front and from the back. -/
structure Frontier where
  forward : Reach
  backward : Reach
  deriving Inhabited

/-- The diagonals that paths of length `d` end on, from the highest down. -/
def diagonals (d : Nat) : List Int :=
  (List.range (d + 1)).map fun (j : Nat) => (d : Int) - 2 * (j : Int)

/-- A place of the old and one of the new lines. -/
abbrev Meeting := Nat × Nat

/-- Extend the forward path on a diagonal; where it meets a backward path is a meeting. -/
def forwardStep (old new : Array α) (b : Box) (d : Nat) (f : Frontier) (k : Int) :
    Except Meeting Frontier :=
  let n := b.oldSize
  let delta : Int := n - b.newSize
  let x := f.forward.enter d k
  let y : Int := x - k
  let reached :=
    if x < n && 0 ≤ y && y < b.newSize then
      x + { b with oldStart := b.oldStart + x, newStart := b.newStart + y.toNat }.common old new
    else x
  let f := { f with forward := f.forward.set k reached }
  if delta % 2 = 1 && (k - delta).natAbs + 1 ≤ d && n ≤ reached + f.backward.get (delta - k) then
    .error (b.oldStart + x, b.newStart + y.toNat)
  else .ok f

/-- Extend the backward path on a diagonal; where it meets a forward path is a meeting. -/
def backwardStep (old new : Array α) (b : Box) (d : Nat) (f : Frontier) (k : Int) :
    Except Meeting Frontier :=
  let n := b.oldSize
  let delta : Int := n - b.newSize
  let x := f.backward.enter d k
  let y : Int := x - k
  let gain :=
    if x < n && 0 ≤ y && y < b.newSize then
      { b with oldStop := b.oldStop - x, newStop := b.newStop - y.toNat }.commonBack old new
    else 0
  let f := { f with backward := f.backward.set k (x + gain) }
  if delta % 2 = 0 && (k - delta).natAbs ≤ d && n ≤ x + gain + f.forward.get (delta - k) then
    .error (b.oldStop - (x + gain), b.newStop - (y.toNat + gain))
  else .ok f

/-- Search for a meeting with ever longer paths, from length `d` on. -/
def extend? (old new : Array α) (b : Box) (f : Frontier) (d : Nat) : Nat → Option Meeting
  | 0 => none
  | fuel + 1 =>
      match (diagonals d).foldlM (forwardStep old new b d) f with
      | .error m => some m
      | .ok f =>
          match (diagonals d).foldlM (backwardStep old new b d) f with
          | .error m => some m
          | .ok f => extend? old new b f (d + 1) fuel

/-- A point that an optimal path between two ranges goes through. -/
def meeting? (old new : Array α) (b : Box) : Option Meeting :=
  let size := b.oldSize + b.newSize
  extend? old new b ⟨Reach.start (size + 2), Reach.start (size + 2)⟩ 0 (size + 1)

/-- The steps that replace one range by another, as a whole. -/
def Box.replaced (b : Box) : List Step :=
  (if b.oldSize = 0 then [] else [⟨.delete, b.oldStart, b.newStart, b.oldSize⟩]) ++
    (if b.newSize = 0 then [] else [⟨.insert, b.oldStart, b.newStart, b.newSize⟩])

/-- The step that keeps some lines, if there are any. -/
def keepStep (old new size : Nat) : List Step :=
  if size = 0 then [] else [⟨.keep, old, new, size⟩]

/-- The steps between two ranges. -/
def solve (old new : Array α) (b : Box) : Nat → List Step
  | 0 => b.replaced
  | fuel + 1 =>
      let front := b.common old new
      let inner := { b with oldStart := b.oldStart + front, newStart := b.newStart + front }
      let back := inner.commonBack old new
      let inner := { inner with oldStop := inner.oldStop - back, newStop := inner.newStop - back }
      let middle :=
        if inner.oldSize = 0 || inner.newSize = 0 then inner.replaced
        else
          match meeting? old new inner with
          | none => inner.replaced
          | some (x, y) =>
              solve old new { inner with oldStop := x, newStop := y } fuel ++
                solve old new { inner with oldStart := x, newStart := y } fuel
      keepStep b.oldStart b.newStart front ++ middle ++
        keepStep inner.oldStop inner.newStop back

/-- The steps from one list of lines to another. -/
def script (old new : Array α) : List Step :=
  solve old new ⟨0, old.size, 0, new.size⟩ (old.size + new.size + 1)

end Longhand.Diff
