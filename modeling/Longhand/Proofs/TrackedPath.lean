import Longhand.Scope.Resolve

/-!
# Paths of tracked modules

Paths are compared as texts, with a dot behind the shorter one, and name by name that comes to the
same: a path is a package of a set of modules if its names begin those of a longer path.  A module
that is added to a set comes behind the others and leaves them where they are.
-/

namespace Longhand

namespace Text

theorem splitOn_append (separator : Char) (a b : List Char) :
    splitOn separator (a ++ separator :: b) = splitOn separator a ++ splitOn separator b := by
  induction a with
  | nil => simp [splitOn]
  | cons c rest ih =>
      rw [List.cons_append, splitOn, splitOn]
      split
      · rw [ih, List.cons_append]
      · rw [ih]
        cases hrest : splitOn separator rest with
        | nil => exact absurd hrest (splitOn_ne_nil separator rest)
        | cons part parts => rfl

end Text

namespace Tracked

/-! ## Names of a path -/

/-- The names of a dotted path. -/
def pathNames (path : String) : List String :=
  (Text.splitOn '.' path.toList).map String.ofList

theorem pathNames_ne_nil (path : String) : pathNames path ≠ [] := by
  simp [pathNames, Text.splitOn_ne_nil]

theorem pathNames_append (p q : String) :
    pathNames (p ++ "." ++ q) = pathNames p ++ pathNames q := by
  have hlist : (p ++ "." ++ q).toList = p.toList ++ '.' :: q.toList := by simp
  rw [pathNames, hlist, Text.splitOn_append, List.map_append]
  rfl

theorem dotted_pathNames (path : String) : Scope.dotted (pathNames path) = path := by
  apply String.toList_inj.1
  rw [Scope.dotted, String.toList_intercalate, pathNames, List.map_map]
  have hid : String.toList ∘ String.ofList = id := by
    funext cs
    simp
  rw [hid, List.map_id]
  exact Text.joinWith_splitOn '.' path.toList

theorem pathNames_inj {p q : String} (h : pathNames p = pathNames q) : p = q := by
  rw [← dotted_pathNames p, h, dotted_pathNames]

theorem dotted_append {names names' : List String} (h : names ≠ []) (h' : names' ≠ []) :
    Scope.dotted (names ++ names') = Scope.dotted names ++ "." ++ Scope.dotted names' :=
  String.intercalate_append_of_ne_nil h h'

/-- The names of one path begin those of another if and only if the paths are the same, or the one
with a dot behind it begins the other. -/
theorem pathNames_prefix_iff {p q : String} :
    pathNames p <+: pathNames q ↔ p = q ∨ ∃ r, q = p ++ "." ++ r := by
  constructor
  · rintro ⟨rest, hrest⟩
    by_cases hnil : rest = []
    · left
      rw [hnil, List.append_nil] at hrest
      exact pathNames_inj hrest
    · right
      refine ⟨Scope.dotted rest, ?_⟩
      rw [← dotted_pathNames q, ← hrest, dotted_append (pathNames_ne_nil p) hnil, dotted_pathNames]
  · rintro (rfl | ⟨r, rfl⟩)
    · exact List.prefix_refl _
    · rw [pathNames_append]
      exact List.prefix_append _ _

/-! ## Sets of modules -/

namespace Set

variable {s : Set} {p : String} {place : Nat}

theorem find?_eq_none_iff : s.find? p = none ↔ p ∉ s.paths := by
  rw [find?, List.idxOf?_eq_none_iff]

theorem path?_eq : s.path? place = s.paths[place]? := by
  rw [path?, paths, List.getElem?_map]

theorem path?_of_find? (h : s.find? p = some place) : s.path? place = some p := by
  obtain ⟨hlt, hget, -⟩ := List.idxOf?_eq_some_iff.1 h
  rw [path?_eq, List.getElem?_eq_getElem hlt, hget]

theorem mem_of_find? (h : s.find? p = some place) : p ∈ s.paths := by
  have hpath := path?_of_find? h
  rw [path?_eq] at hpath
  exact List.mem_of_getElem? hpath

/-- A path is a package if a longer path begins with it and a dot. -/
theorem hasPackage_iff : s.hasPackage p = true ↔ ∃ r, p ++ "." ++ r ∈ s.paths := by
  rw [hasPackage, List.any_eq_true]
  constructor
  · rintro ⟨q, hq, hprefix⟩
    obtain ⟨rest, hrest⟩ := List.isPrefixOf_iff_prefix.1 hprefix
    refine ⟨String.ofList rest, ?_⟩
    have heq : p ++ "." ++ String.ofList rest = q := by
      apply String.toList_inj.1
      rw [← hrest]
      simp
    rw [heq]
    exact hq
  · rintro ⟨r, hr⟩
    refine ⟨_, hr, List.isPrefixOf_iff_prefix.2 ⟨r.toList, ?_⟩⟩
    simp

end Set

end Tracked

end Longhand
