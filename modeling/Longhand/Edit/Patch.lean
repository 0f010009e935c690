import Longhand.Order
import Longhand.Text.Span

/-!
# Applying edits

An edit replaces a span of a text.  Edits are applied in one pass from left to right, and every byte
outside their spans is kept.  The pass fails when two edits overlap or when a span does not fit the
text.
-/

namespace Longhand

/-- A replacement of one span of a text. -/
structure Edit where
  span : Text.Span
  text : List Char
  deriving Repr, DecidableEq, Inhabited

namespace Edit

/-- The order of edits: by the start of their spans, then by the stop. -/
def le (a b : Edit) : Bool :=
  a.span.start < b.span.start || (a.span.start == b.span.start && a.span.stop ≤ b.span.stop)

/-- Why edits cannot be applied. -/
inductive PatchError where
  | overlap (first second : Edit)
  | misfit
  deriving Repr, DecidableEq

/-- The first two neighbours of a list of edits such that the later starts before the earlier
stops. -/
def overlap? : List Edit → Option (Edit × Edit)
  | a :: b :: rest =>
      if b.span.start < a.span.stop then some (a, b) else overlap? (b :: rest)
  | _ => none

/-- The source from an offset on, with sorted edits applied to it. -/
def applySorted (source : List Char) (cursor : Nat) : List Edit → Option (List Char)
  | [] =>
      match Text.splitAt? source cursor with
      | none => none
      | some (_, rest) => some rest
  | e :: rest =>
      match Text.slice? source ⟨cursor, e.span.start⟩, applySorted source e.span.stop rest with
      | some kept, some done => some (kept ++ e.text ++ done)
      | _, _ => none

/-- Apply edits, in whatever order they are given. -/
def patch (source : List Char) (edits : List Edit) : Except PatchError (List Char) :=
  let sorted := stableSort le edits
  match overlap? sorted with
  | some (a, b) => .error (.overlap a b)
  | none =>
      match applySorted source 0 sorted with
      | none => .error .misfit
      | some done => .ok done

end Edit

end Longhand
