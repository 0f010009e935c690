import Longhand.Diff.Compact

/-!
# Regions and hunks

Neighbouring steps are joined into regions of kept and of changed lines.  Long regions of kept
lines are cut down to the context that is shown, which divides the regions into hunks.
-/

namespace Longhand.Diff

/-- A run of old lines and the run of new lines in its place. -/
structure Region where
  kept : Bool
  old : Nat
  oldSize : Nat
  new : Nat
  newSize : Nat
  deriving Repr, DecidableEq, Inhabited

/-- The changed lines met since the last kept ones: the first deletion and the first insertion give
the places, all of them the sizes. -/
structure Pending where
  deleted : Option Step
  inserted : Option Step
  deriving Inhabited

/-- Join a step to an earlier one of its kind. -/
def joinStep (first : Option Step) (s : Step) : Step :=
  match first with
  | none => s
  | some f => { f with size := f.size + s.size }

/-- The region of the changed lines met so far, if any. -/
def Pending.region : Pending → List Region
  | ⟨none, none⟩ => []
  | ⟨some d, none⟩ => [⟨false, d.old, d.size, d.new, 0⟩]
  | ⟨none, some i⟩ => [⟨false, i.old, 0, i.new, i.size⟩]
  | ⟨some d, some i⟩ => [⟨false, d.old, d.size, i.new, i.size⟩]

/-- The regions of a script, given the changed and the kept lines just met. -/
def gather (changed : Pending) (kept : Option Step) : List Step → List Region
  | [] => changed.region ++ (kept.map fun k => ⟨true, k.old, k.size, k.new, k.size⟩).toList
  | s :: rest =>
      match s.tag with
      | .keep => changed.region ++ gather ⟨none, none⟩ (some (joinStep kept s)) rest
      | .delete =>
          (kept.map fun k => ⟨true, k.old, k.size, k.new, k.size⟩).toList ++
            gather { changed with deleted := some (joinStep changed.deleted s) } none rest
      | .insert =>
          (kept.map fun k => ⟨true, k.old, k.size, k.new, k.size⟩).toList ++
            gather { changed with inserted := some (joinStep changed.inserted s) } none rest

/-- The regions of a script. -/
def regions (steps : List Step) : List Region :=
  gather ⟨none, none⟩ none steps

/-- A region of kept lines without its first ones. -/
def Region.dropLines (r : Region) (n : Nat) : Region :=
  { r with
    old := r.old + n, oldSize := r.oldSize - n, new := r.new + n, newSize := r.newSize - n }

/-- The first lines of a region of kept lines. -/
def Region.takeLines (r : Region) (n : Nat) : Region :=
  { r with oldSize := min r.oldSize n, newSize := min r.newSize n }

/-- Cut the kept lines at the front down to the context. -/
def trimFront (context : Nat) : List Region → List Region
  | r :: rest => if r.kept then r.dropLines (r.oldSize - context) :: rest else r :: rest
  | [] => []

/-- Cut the kept lines at the back down to the context. -/
def trimBack (context : Nat) : List Region → List Region
  | [] => []
  | [r] => if r.kept then [r.takeLines context] else [r]
  | r :: rest => r :: trimBack context rest

/-- A list of regions that are shown together. -/
abbrev Hunk := List Region

/-- The regions before the first long run of kept lines, and the hunks from there on.  A last hunk
of kept lines alone is left out. -/
def split (context : Nat) : List Region → Hunk × List Hunk
  | [] => ([], [])
  | r :: rest =>
      let (group, hunks) := split context rest
      if r.kept && 2 * context < r.oldSize then
        let next := r.dropLines (r.oldSize - context) :: group
        ([r.takeLines context],
          if hunks.isEmpty && group.isEmpty then [] else next :: hunks)
      else (r :: group, hunks)

/-- The hunks of some regions. -/
def hunks (context : Nat) (rs : List Region) : List Hunk :=
  let (group, rest) := split context (trimBack context (trimFront context rs))
  match group, rest with
  | [], [] => []
  | [r], [] => if r.kept then [] else [[r]]
  | group, rest => group :: rest

end Longhand.Diff
