import Longhand.Text.CharTable.Alphabetic
import Longhand.Text.CharTable.Numeric
import Longhand.Text.CharTable.IdentifierStart
import Longhand.Text.CharTable.IdentifierContinue
import Longhand.Text.CharTable.Extending
import Longhand.Text.CharTable.Unprintable

/-!
# Character classes

Membership in the tables of Unicode properties.  Two pairs of classes look alike and differ: a flag
name is made of alphabetic and numeric characters, an identifier of a parsed file of identifier
starts and continuations.
-/

namespace Longhand.Text

/-- Whether a code point lies in one of some ascending, disjoint ranges. -/
def CharTable.contains : List (Nat × Nat) → Nat → Bool
  | [], _ => false
  | (low, high) :: rest, n =>
      if n < low then false else if n ≤ high then true else contains rest n

theorem CharTable.exists_of_contains {ranges : List (Nat × Nat)} {n : Nat}
    (h : contains ranges n = true) : ∃ r ∈ ranges, r.1 ≤ n ∧ n ≤ r.2 := by
  induction ranges with
  | nil => simp [contains] at h
  | cons r rest ih =>
      obtain ⟨low, high⟩ := r
      unfold contains at h
      split at h
      · simp at h
      · split at h
        · exact ⟨(low, high), by simp, by omega, by assumption⟩
        · obtain ⟨r, hr, hlow, hhigh⟩ := ih h
          exact ⟨r, List.mem_cons_of_mem _ hr, hlow, hhigh⟩

/-- The white space of Unicode: what is trimmed around a module spec. -/
def CharTable.blank : List (Nat × Nat) :=
  [(0x9, 0xd), (0x20, 0x20), (0x85, 0x85), (0xa0, 0xa0), (0x1680, 0x1680), (0x2000, 0x200a),
    (0x2028, 0x2029), (0x202f, 0x202f), (0x205f, 0x205f), (0x3000, 0x3000)]

def isAlphabetic (c : Char) : Bool :=
  CharTable.contains CharTable.alphabetic c.toNat

def isNumeric (c : Char) : Bool :=
  CharTable.contains CharTable.numeric c.toNat

def isAlphanumeric (c : Char) : Bool :=
  isAlphabetic c || isNumeric c

def isBlank (c : Char) : Bool :=
  CharTable.contains CharTable.blank c.toNat

/-- A character that may begin an identifier of a parsed file. -/
def isIdentifierStart (c : Char) : Bool :=
  c == '_' || CharTable.contains CharTable.identifierStart c.toNat

/-- A character that may follow the first one of an identifier of a parsed file. -/
def isIdentifierPart (c : Char) : Bool :=
  c == '_' || CharTable.contains CharTable.identifierContinue c.toNat

/-- A character that joins the one before it. -/
def isExtending (c : Char) : Bool :=
  CharTable.contains CharTable.extending c.toNat

/-- A character that has a printed form of its own. -/
def isPrintable (c : Char) : Bool :=
  !CharTable.contains CharTable.unprintable c.toNat

end Longhand.Text
