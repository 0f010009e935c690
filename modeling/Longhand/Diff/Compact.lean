import Longhand.Diff.Script

/-!
# Compact edit scripts

Insertions are moved as far down as the lines allow, steps that are alike are joined, and deletions
and insertions change places on the way.  What a script does to the lines stays the same.
-/

namespace Longhand.Diff

variable {α : Type} [BEq α]

/-- A script with one step picked out: the steps before it from the nearest on, the step, and the
steps after it. -/
structure Focus where
  before : List Step
  step : Step
  after : List Step
  deriving Inhabited

/-- The lines that a step keeps, deletes or inserts count as much as the step itself. -/
def weight (steps : List Step) : Nat :=
  steps.foldr (fun s n => s.size + 1 + n) 0

/-- Extend the first step upwards by some kept lines, or put a new one there. -/
def keepAbove (old new size : Nat) : List Step → List Step
  | s :: rest =>
      if s.tag = .keep then ⟨.keep, s.old - size, s.new - size, s.size + size⟩ :: rest
      else ⟨.keep, old, new, size⟩ :: s :: rest
  | [] => [⟨.keep, old, new, size⟩]

/-- Extend the first step downwards by some kept lines, or put a new one there. -/
def keepBelow (old new size : Nat) : List Step → List Step
  | s :: rest =>
      if s.tag = .keep then { s with size := s.size + size } :: rest
      else ⟨.keep, old, new, size⟩ :: s :: rest
  | [] => [⟨.keep, old, new, size⟩]

/-- Move a step upwards past kept lines that equal its own and past steps of the other kind, and
join it with one of its own kind. -/
def moveUp (old new : Array α) : Nat → Focus → Focus
  | 0, f => f
  | fuel + 1, f =>
      match f.before with
      | [] => f
      | p :: before =>
          let t := f.step
          if p.tag = .keep then
            let shift :=
              if t.tag = .insert then
                commonRunBack old new (p.old + p.size) (t.new + t.size) (min p.size t.size)
              else 0
            if shift = 0 then f
            else
              let after :=
                keepAbove (p.old + p.size - shift) (t.new + t.size - shift) shift f.after
              let moved := { t with old := t.old - shift, new := t.new - shift }
              let before :=
                if p.size = shift then before else { p with size := p.size - shift } :: before
              moveUp old new fuel ⟨before, moved, after⟩
          else if p.tag = t.tag then
            moveUp old new fuel ⟨before, { p with size := p.size + t.size }, f.after⟩
          else moveUp old new fuel ⟨before, t, p :: f.after⟩

/-- Move a step downwards past kept lines that equal its own and past steps of the other kind, and
join it with one of its own kind. -/
def moveDown (old new : Array α) : Nat → Focus → Focus
  | 0, f => f
  | fuel + 1, f =>
      match f.after with
      | [] => f
      | x :: after =>
          let t := f.step
          if x.tag = .keep then
            let shift :=
              if t.tag = .insert then commonRun old new x.old t.new (min x.size t.size) else 0
            if shift = 0 then f
            else
              let before := keepBelow x.old t.new shift f.before
              let moved := { t with old := t.old + shift, new := t.new + shift }
              let after :=
                if x.size = shift then after
                else ⟨.keep, x.old + shift, x.new + shift, x.size - shift⟩ :: after
              moveDown old new fuel ⟨before, moved, after⟩
          else if x.tag = t.tag then
            moveDown old new fuel ⟨f.before, { t with size := t.size + x.size }, after⟩
          else moveDown old new fuel ⟨x :: f.before, t, after⟩

/-- Move each step of one kind, from the first on. -/
def compactTag (old new : Array α) (tag : Tag) : Nat → List Step → List Step → List Step
  | 0, before, after => before.reverse ++ after
  | _, before, [] => before.reverse
  | fuel + 1, before, t :: after =>
      if t.tag = tag then
        let up := moveUp old new (weight before) ⟨before, t, after⟩
        let down := moveDown old new (weight up.after) up
        compactTag old new tag fuel (down.step :: down.before) down.after
      else compactTag old new tag fuel (t :: before) after

/-- Move the deletions of a script, then its insertions. -/
def compact (old new : Array α) (steps : List Step) : List Step :=
  let fuel := 2 * (old.size + new.size) + steps.length
  let steps := compactTag old new .delete fuel [] steps
  compactTag old new .insert fuel [] steps

end Longhand.Diff
