import Longhand.Proofs.Keyword
import Longhand.Proofs.Walk

/-!
# Names of a tree

The scope of a call is one whose region holds the whole call, and so are the scopes around it.  What
a name is found to stand for there is what some binding of one of these scopes says.
-/

namespace Longhand.Scope

open Syntax Text

variable {tracked : Tracked.Set} {root t u v : Tree} {g : Draft}

/-! ## Scopes of a tree -/

/-- The scope of a whole text. -/
def moduleFrame (root : Tree) : Frame :=
  ⟨.module, none, ⟨0, root.span.stop⟩⟩

/-- The regions of all scopes of a tree. -/
def framesOf (tracked : Tracked.Set) (root : Tree) : List Frame :=
  moduleFrame root :: (walk tracked ⟨0, 0, []⟩ ⟨1, 0⟩ root).frames

/-- The bindings of all scopes of a tree. -/
def eventsOf (tracked : Tracked.Set) (root : Tree) : List Event :=
  (walk tracked ⟨0, 0, []⟩ ⟨1, 0⟩ root).events

/-- The scope with a number: its region, and the bindings that the walk made in it in the order of
their offsets. -/
def scopeOf (tracked : Tracked.Set) (root : Tree) (frame : Frame) (id : Nat) : Scope :=
  ⟨frame, stableSort (fun a b => a.offset ≤ b.offset)
    ((eventsOf tracked root).filter fun e => e.scope = id)⟩

theorem resolve_scopes : (resolve tracked root).scopes =
    (framesOf tracked root).zipIdx.map fun (frame, id) => scopeOf tracked root frame id :=
  rfl

theorem resolve_scopes_length :
    (resolve tracked root).scopes.length = (framesOf tracked root).length := by
  rw [resolve_scopes, List.length_map, List.length_zipIdx]

theorem resolve_getElem? (i : Nat) : (resolve tracked root).scopes[i]? =
    ((framesOf tracked root)[i]?).map fun frame => scopeOf tracked root frame i := by
  rw [resolve_scopes, List.getElem?_map, List.getElem?_zipIdx, Option.map_map, Nat.zero_add]
  rfl

theorem walk_sane {root' : Tree} (hroot : g.Twin root root') :
    Sane tracked (framesOf tracked root) root (walk tracked ⟨0, 0, []⟩ ⟨1, 0⟩ root) := by
  refine walk_fits hroot ⟨0, 0, []⟩ ⟨1, 0⟩ .self ⟨moduleFrame root, rfl, ?_⟩ ?_
  · exact ⟨Nat.zero_le _, Nat.le_refl _⟩
  · exact ⟨[moduleFrame root], [], by simp [framesOf], rfl⟩

end Longhand.Scope
