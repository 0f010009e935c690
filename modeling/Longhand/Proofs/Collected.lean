import Longhand.Files.Collect
import Longhand.Proofs.Files

/-!
# Which files are collected twice

The collected paths have pairwise different components.  So two of them lead to one file only if
they are spelled in different ways: with a step upwards, from the root and from the working
directory, or with and without a dot at the front.
-/

namespace Longhand.Files

open Std

variable {t : Tree} {path other : String} {paths : List String}

/-! ### The order of paths -/

/-- The name that a component is. -/
def Component.text : Component → String
  | .name n => n
  | _ => ""

/-- Components are in the order of their kinds, and then of their names. -/
theorem Component.compare_eq :
    Component.compare = compareLex (compareOn Component.rank) (compareOn Component.text) := by
  funext a b
  cases a <;> cases b <;> rfl

instance : TransCmp Component.compare := by
  rw [Component.compare_eq]
  infer_instance

instance : LawfulEqCmp Component.compare where
  eq_of_compare {a b} h := by
    rw [Component.compare_eq] at h
    cases a <;> cases b <;>
      simp_all [compareLex, compareOn, Component.rank, Component.text, Ordering.then_eq_eq]

theorem compareComponents_eq : compareComponents = List.compareLex Component.compare := by
  funext a b
  rw [compareComponents]
  induction a generalizing b with
  | nil => cases b <;> rfl
  | cons c rest ih =>
      cases b with
      | nil => rfl
      | cons d rest' => rw [compareLists, List.compareLex_cons_cons, ih]

instance : TransCmp compareComponents := by
  rw [compareComponents_eq]
  infer_instance

instance : LawfulEqCmp compareComponents := by
  rw [compareComponents_eq]
  infer_instance

/-- A path with its components may stand before another one. -/
def le (a b : List Component × String) : Bool :=
  compareComponents a.1 b.1 != .gt

theorem le_iff {a b : List Component × String} :
    le a b = true ↔ (compareComponents a.1 b.1).isLE = true := by
  rw [le]
  cases compareComponents a.1 b.1 <;> simp

theorem le_total (a b : List Component × String) : le a b = true ∨ le b a = true := by
  have hswap : compareComponents b.1 a.1 = (compareComponents a.1 b.1).swap :=
    OrientedCmp.eq_swap
  rw [le_iff, le_iff, hswap]
  cases compareComponents a.1 b.1 <;> simp

theorem le_trans (a b c : List Component × String) (hab : le a b = true) (hbc : le b c = true) :
    le a c = true :=
  le_iff.mpr (TransCmp.isLE_trans (le_iff.mp hab) (le_iff.mp hbc))

theorem le_antisymm {a b : List Component × String} (hab : le a b = true) (hba : le b a = true) :
    a.1 = b.1 :=
  LawfulEqCmp.eq_of_compare (OrientedCmp.isLE_antisymm (le_iff.mp hab) (le_iff.mp hba))

theorem mem_of_mem_withoutRepeats {last : List Component} {l : List (List Component × String)}
    {a : List Component × String} (h : a ∈ withoutRepeats last l) : a ∈ l := by
  induction l generalizing last with
  | nil => exact h
  | cons b rest ih =>
      rw [withoutRepeats] at h
      split at h
      · exact .tail _ (ih h)
      · rcases List.mem_cons.mp h with rfl | h
        · exact .head _
        · exact .tail _ (ih h)

theorem mem_of_mem_cons_withoutRepeats {first a : List Component × String}
    {l : List (List Component × String)} (h : a ∈ first :: withoutRepeats first.1 l) :
    a ∈ first :: l := by
  rcases List.mem_cons.mp h with rfl | h
  · exact .head _
  · exact .tail _ (mem_of_mem_withoutRepeats h)

/-- Sorted paths without repeats have pairwise different components. -/
theorem withoutRepeats_distinct {first : List Component × String}
    {l : List (List Component × String)}
    (hsorted : (first :: l).Pairwise fun a b => le a b = true) :
    (first :: withoutRepeats first.1 l).Pairwise fun a b => a.1 ≠ b.1 := by
  induction l generalizing first with
  | nil => simp [withoutRepeats]
  | cons a rest ih =>
      obtain ⟨hfirst, hrest⟩ := List.pairwise_cons.mp hsorted
      obtain ⟨ha, hrest'⟩ := List.pairwise_cons.mp hrest
      rw [withoutRepeats]
      split
      · exact ih (List.pairwise_cons.mpr ⟨fun b hb => hfirst b (.tail _ hb), hrest'⟩)
      · rename_i hne
        refine List.pairwise_cons.mpr ⟨fun b hb heq => ?_, ih hrest⟩
        rcases List.mem_cons.mp hb with rfl | hb
        · exact hne heq.symm
        · -- A path equal to the first one would stand before the second one, too.
          have hba : le b a = true := by
            simpa [le, heq] using hfirst a (.head _)
          have hab := ha b (mem_of_mem_withoutRepeats hb)
          exact hne ((le_antisymm hab hba).trans heq.symm)

/-- Paths in order have pairwise different components. -/
theorem inOrder_distinct (paths : List String) :
    (inOrder paths).Pairwise fun p q => components p ≠ components q := by
  have hsorted := stableSort_pairwise le_total le_trans
    (paths.map fun path => (components path, path))
  have hspelled : ∀ a ∈ stableSort le (paths.map fun path => (components path, path)),
      a.1 = components a.2 := by
    intro a ha
    obtain ⟨path, -, rfl⟩ := List.mem_map.mp (mem_stableSort.mp ha)
    rfl
  simp only [inOrder]
  split
  · exact .nil
  · rename_i first rest heq
    rw [show stableSort le _ = first :: rest from heq] at hsorted hspelled
    refine List.pairwise_map.mpr ((withoutRepeats_distinct hsorted).imp_of_mem ?_)
    intro a b ha hb hne
    rwa [← hspelled a (mem_of_mem_cons_withoutRepeats ha),
      ← hspelled b (mem_of_mem_cons_withoutRepeats hb)]

/-! ### Where a path leads -/

/-- What a step counts for the order. -/
def Step.component? : Step → Option Component
  | .here => none
  | .up => some .up
  | .name n => some (.name n)

/-- The name that a step is. -/
def Step.name? : Step → Option String
  | .name n => some n
  | _ => none

/-- What a path begins with, besides names and steps upwards. -/
def front (path : String) : List Component :=
  if isAbsolute path then [.root]
  else if (Text.splitOn '/' path.toList).head? == some ['.'] then [.here] else []

theorem components_eq (path : String) :
    components path = front path ++ (steps path).filterMap Step.component? :=
  rfl

theorem up_mem_components : .up ∈ components path ↔ .up ∈ steps path := by
  have hfront : .up ∉ front path := by
    rw [front]
    split
    · simp
    · split <;> simp
  have hstep (s : Step) : s.component? = some .up ↔ s = .up := by
    cases s <;> simp [Step.component?]
  simp [components_eq, hfront, hstep]

theorem here_mem_components : .here ∈ components path ↔ .here ∈ front path := by
  have hstep (s : Step) : s.component? ≠ some .here := by
    cases s <;> simp [Step.component?]
  simp [components_eq, hstep]

/-- Paths that both begin at the root, or do not, begin alike if both or none have a dot there. -/
theorem front_congr (habsolute : isAbsolute path = isAbsolute other)
    (hhere : .here ∈ front path ↔ .here ∈ front other) : front path = front other := by
  by_cases habs : isAbsolute other
  · simp [front, habsolute, habs]
  · by_cases hpath : (Text.splitOn '/' path.toList).head? = some ['.'] <;>
      by_cases hother : (Text.splitOn '/' other.toList).head? = some ['.'] <;>
      simp_all [front]

theorem component?_of_ne_up {l : List Step} (hup : .up ∉ l) :
    l.filterMap Step.component? = (l.filterMap Step.name?).map .name := by
  induction l with
  | nil => rfl
  | cons s rest ih =>
      have hrest := ih fun hs => hup (.tail _ hs)
      cases s with
      | here => exact hrest
      | up => exact absurd (.head _) hup
      | name n => exact congrArg (.name n :: ·) hrest

/-- Without steps upwards, steps lead to the place that their names spell. -/
theorem follow_eq {place place' : List String} {l : List Step} (hup : .up ∉ l)
    (h : t.follow place l = .ok place') : place' = place ++ l.filterMap Step.name? := by
  induction l generalizing place with
  | nil =>
      cases h
      simp
  | cons s rest ih =>
      have hrest : .up ∉ rest := fun hs => hup (.tail _ hs)
      rw [Tree.follow_cons] at h
      split at h
      · cases h
      · cases h
      · cases s with
        | here => exact ih hrest h
        | up => exact absurd (.head _) hup
        | name n =>
            simp only at h
            split at h
            · rw [ih hrest h]
              simp [Step.name?]
            · cases h

/-- Paths to one place have the same components, unless they are spelled in different ways. -/
theorem components_of_place {place : List String} (hpath : t.resolve path = .ok place)
    (hother : t.resolve other = .ok place) (hup : .up ∉ components path)
    (hup' : .up ∉ components other) (habsolute : isAbsolute path = isAbsolute other)
    (hhere : .here ∈ components path ↔ .here ∈ components other) :
    components path = components other := by
  rw [up_mem_components] at hup hup'
  rw [here_mem_components, here_mem_components] at hhere
  simp only [Tree.resolve] at hpath hother
  split at hpath
  · cases hpath
  · split at hother
    · cases hother
    · have hplace := follow_eq hup hpath
      have hplace' := follow_eq hup' hother
      rw [habsolute] at hplace
      have hnames := List.append_cancel_left (hplace.symm.trans hplace')
      rw [components_eq, components_eq, front_congr habsolute hhere, component?_of_ne_up hup,
        component?_of_ne_up hup', hnames]

/-! ### The collected paths -/

/-- Two collected paths have different components.  If they lead to one file, one of them has a step
upwards, or one begins at the root and one does not, or one begins with a dot and one does not. -/
theorem collect_distinct {sources : List String} {x : Exclusions}
    (h : collect t sources x = .ok paths) :
    paths.Pairwise fun p q => components p ≠ components q ∧
      (t.Apart p q ∨ .up ∈ components p ∨ .up ∈ components q ∨ isAbsolute p ≠ isAbsolute q ∨
        ¬(.here ∈ components p ↔ .here ∈ components q)) := by
  have hdistinct : paths.Pairwise fun p q => components p ≠ components q := by
    simp only [collect, bind, Except.bind, pure, Except.pure] at h
    split at h
    · cases h
    · split at h
      · cases h
      · cases h
        exact (inOrder_distinct _).sublist List.filter_sublist
  refine hdistinct.imp fun {p q} hne => ⟨hne, ?_⟩
  by_cases hup : .up ∈ components p
  · exact .inr (.inl hup)
  by_cases hup' : .up ∈ components q
  · exact .inr (.inr (.inl hup'))
  by_cases habsolute : isAbsolute p = isAbsolute q
  · by_cases hhere : .here ∈ components p ↔ .here ∈ components q
    · refine .inl fun place hp hq => hne ?_
      exact components_of_place hp hq hup hup' habsolute hhere
    · exact .inr (.inr (.inr (.inr hhere)))
  · exact .inr (.inr (.inr (.inl habsolute)))

/-- A directory with a file beside another file. -/
def sourceTree : Tree :=
  ⟨.directory [("a.py", .file ⟨[], true, true⟩),
    ("lib", .directory [("b.py", .file ⟨[], true, true⟩)])], []⟩

/-- A file that is named, and found in a directory that is searched, is collected once, and apart
from the other one. -/
theorem collect_distinct_named_and_found :
    collect sourceTree ["lib/b.py", "lib", "lib//b.py", "a.py"] {} = .ok ["a.py", "lib/b.py"] ∧
      components "a.py" ≠ components "lib/b.py" ∧ sourceTree.Apart "a.py" "lib/b.py" := by
  have h : collect sourceTree ["lib/b.py", "lib", "lib//b.py", "a.py"] {}
      = .ok ["a.py", "lib/b.py"] := by rfl
  obtain ⟨hne, hapart⟩ := (List.pairwise_cons.mp (collect_distinct h)).1 "lib/b.py" (by simp)
  refine ⟨h, hne, hapart.resolve_right ?_⟩
  decide +kernel

/-- A file that is found below the working directory has a dot at its front there, and is collected
once more if it is named without. -/
theorem collected_twice :
    collect sourceTree ["a.py", "."] {} = .ok ["./a.py", "./lib/b.py", "a.py"] ∧
      ¬sourceTree.Apart "./a.py" "a.py" := by
  refine ⟨rfl, fun h => ?_⟩
  have hplace : sourceTree.resolve "./a.py" = .ok ["a.py"] := rfl
  exact h ["a.py"] hplace rfl

end Longhand.Files
