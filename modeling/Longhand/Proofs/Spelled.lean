import Longhand.Proofs.Collected
import Longhand.Proofs.SpecText

/-!
# How paths are spelled

A name behind a path adds a step to it.  A path is plainly spelled if no slash in it is doubled or
at its end and no part behind the first one is a single dot.  Plainly spelled paths with the same
components are the same text, and a name behind a plainly spelled path is plainly spelled.
-/

namespace Longhand.Files

variable {path p q name : String} {names : List String} {part : List Char}

/-! ### Parts and steps -/

/-- The step that a part of a path between slashes is. -/
def stepOf (part : List Char) : Step :=
  match String.ofList part with
  | "" | "." => .here
  | ".." => .up
  | n => .name n

theorem steps_eq (path : String) : steps path = (Text.splitOn '/' path.toList).map stepOf :=
  rfl

/-- A text that names an entry of a directory: it is not empty, contains no slash, and is none of
the dots that stand for the directory itself and the one above. -/
structure IsName (n : String) : Prop where
  nonempty : n ≠ ""
  slash : '/' ∉ n.toList
  here : n ≠ "."
  up : n ≠ ".."

instance (n : String) : Decidable (IsName n) :=
  decidable_of_iff (n ≠ "" ∧ '/' ∉ n.toList ∧ n ≠ "." ∧ n ≠ "..")
    ⟨fun ⟨nonempty, slash, here, up⟩ => ⟨nonempty, slash, here, up⟩,
      fun ⟨nonempty, slash, here, up⟩ => ⟨nonempty, slash, here, up⟩⟩

theorem IsName.stepOf (h : IsName name) : stepOf name.toList = .name name := by
  rw [Files.stepOf, String.ofList_toList]
  split
  · exact absurd rfl h.nonempty
  · exact absurd rfl h.here
  · exact absurd rfl h.up
  · rfl

theorem splitOn_of_notMem (h : '/' ∉ part) : Text.splitOn '/' part = [part] := by
  simpa using Text.splitOn_append_of_notMem h (rfl : Text.splitOn '/' [] = [[]])

/-! ### A name behind a path -/

/-- A path with a name behind it has one slash in front of the name, which may be the last of the
path. -/
theorem exists_join (hpath : path ≠ "") (hslash : '/' ∉ name.toList) : ∃ before,
    (path.toList = before ++ ['/'] ∨ path.toList = before ∧ before.getLast? ≠ some '/') ∧
      (join path name).toList = before ++ '/' :: name.toList := by
  have habsolute : isAbsolute name = false := by
    rw [isAbsolute, beq_eq_false_iff_ne]
    exact fun h => hslash (List.mem_of_mem_head? h)
  have hempty : path.isEmpty = false := by simpa using hpath
  by_cases hlast : path.toList.getLast? = some '/'
  · obtain ⟨before, hbefore⟩ := List.getLast?_eq_some_iff.1 hlast
    refine ⟨before, .inl hbefore, ?_⟩
    simp [join, habsolute, hempty, hbefore]
  · refine ⟨path.toList, .inr ⟨rfl, hlast⟩, ?_⟩
    simp [join, habsolute, hempty, hlast]

/-- The step of the name comes behind those of the path that go anywhere. -/
theorem filterMap_steps_join {β : Type} (f : Step → Option β) (hf : f .here = none)
    (hpath : path ≠ "") (hslash : '/' ∉ name.toList) :
    (steps (join path name)).filterMap f =
      (steps path).filterMap f ++ (f (stepOf name.toList)).toList := by
  obtain ⟨before, hbefore, hjoin⟩ := exists_join hpath hslash
  have hhere : f (stepOf []) = none := hf
  rw [steps_eq, hjoin, Text.splitOn_append, splitOn_of_notMem hslash, steps_eq]
  rcases hbefore with hbefore | ⟨hbefore, -⟩
  · -- Behind the slash at the end of the path is an empty part, which is no step to anywhere.
    rw [hbefore, Text.splitOn_append]
    cases hname : f (stepOf name.toList) <;> simp [Text.splitOn, hhere, hname]
  · rw [hbefore]
    cases hname : f (stepOf name.toList) <;> simp [hname]

theorem join_ne_empty (hpath : path ≠ "") (hslash : '/' ∉ name.toList) : join path name ≠ "" := by
  obtain ⟨before, -, hjoin⟩ := exists_join hpath hslash
  intro hempty
  rw [hempty] at hjoin
  simp at hjoin

/-! ### Plain spellings -/

/-- Whether a path has no doubled slash, none at its end, and no dot behind its first part.  The
root is a slash. -/
def Plain (path : String) : Prop :=
  path = "/" ∨ ∀ part ∈ (Text.splitOn '/' path.toList).tail, part ≠ [] ∧ part ≠ ['.']

instance : DecidablePred Plain := fun path => by
  unfold Plain
  infer_instance

/-- A plain path that ends with a slash is the root. -/
theorem Plain.eq_root (h : Plain path) {before : List Char}
    (hpath : path.toList = before ++ ['/']) : path = "/" := by
  refine h.resolve_right fun hparts => (hparts [] ?_).1 rfl
  obtain ⟨first, rest, hsplit⟩ := List.exists_cons_of_ne_nil (Text.splitOn_ne_nil '/' before)
  rw [hpath, Text.splitOn_append, hsplit]
  simp [Text.splitOn]

theorem Plain.join (h : Plain path) (hpath : path ≠ "") (hname : IsName name) :
    Plain (join path name) := by
  obtain ⟨before, hbefore, hjoin⟩ := exists_join hpath hname.slash
  have hlast : name.toList ≠ [] ∧ name.toList ≠ ['.'] := by
    constructor
    · simpa using hname.nonempty
    · exact fun heq => hname.here (String.toList_inj.1 heq)
  refine .inr ?_
  rw [hjoin, Text.splitOn_append, splitOn_of_notMem hname.slash]
  rcases hbefore with hbefore | ⟨rfl, hend⟩
  · -- The path is the root, so that the name is the only part behind the slash.
    obtain rfl : before = [] := by
      have hroot := h.eq_root hbefore
      rw [hroot] at hbefore
      simpa using congrArg List.dropLast hbefore.symm
    simpa [Text.splitOn] using hlast
  · rcases h with rfl | hparts
    · exact absurd rfl hend
    · obtain ⟨first, rest, hsplit⟩ :=
        List.exists_cons_of_ne_nil (Text.splitOn_ne_nil '/' path.toList)
      rw [hsplit] at hparts ⊢
      intro part hpart
      rcases List.mem_append.1 hpart with hpart | hpart
      · exact hparts part hpart
      · rw [List.mem_singleton.1 hpart]
        exact hlast

theorem Plain.foldl_join (h : Plain path) (hpath : path ≠ "") (hnames : ∀ n ∈ names, IsName n) :
    Plain (names.foldl Files.join path) := by
  induction names generalizing path with
  | nil => exact h
  | cons n rest ih =>
      have hn := hnames n List.mem_cons_self
      exact ih (h.join hpath hn) (join_ne_empty hpath hn.slash)
        fun m hm => hnames m (List.mem_cons_of_mem _ hm)

/-- The part of a path that a component is spelled as. -/
def Component.spelling : Component → List Char
  | .root => []
  | .here => ['.']
  | .up => ['.', '.']
  | .name n => n.toList

theorem component?_stepOf (hempty : part ≠ []) (hhere : part ≠ ['.']) :
    ((stepOf part).component?).map Component.spelling = some part := by
  have hne : ∀ text : String, part ≠ text.toList → String.ofList part ≠ text := by
    rintro text htext rfl
    exact htext (String.toList_ofList).symm
  rw [stepOf]
  split
  · rename_i heq
    exact absurd heq (hne "" hempty)
  · rename_i heq
    exact absurd heq (hne "." hhere)
  · rename_i heq
    simpa [Step.component?, Component.spelling] using (congrArg String.toList heq).symm
  · simp [Step.component?, Component.spelling]

theorem spelling_components {parts : List (List Char)}
    (h : ∀ part ∈ parts, part ≠ [] ∧ part ≠ ['.']) :
    ((parts.map stepOf).filterMap Step.component?).map Component.spelling = parts := by
  induction parts with
  | nil => rfl
  | cons part rest ih =>
      obtain ⟨hempty, hhere⟩ := h part List.mem_cons_self
      obtain ⟨c, hc, hspelling⟩ := Option.map_eq_some_iff.1 (component?_stepOf hempty hhere)
      rw [List.map_cons, List.filterMap_cons_some hc, List.map_cons, hspelling,
        ih fun q hq => h q (List.mem_cons_of_mem _ hq)]

/-- A plain path other than the root is spelled by its components. -/
theorem Plain.toList_eq (h : Plain path) (hroot : path ≠ "/") :
    path.toList = Text.joinWith ['/'] ((components path).map Component.spelling) := by
  have hparts := h.resolve_left hroot
  obtain ⟨first, rest, hsplit⟩ :=
    List.exists_cons_of_ne_nil (Text.splitOn_ne_nil '/' path.toList)
  rw [hsplit] at hparts
  have hrest : ((rest.map stepOf).filterMap Step.component?).map Component.spelling = rest :=
    spelling_components hparts
  have hpath : path.toList = Text.joinWith ['/'] (first :: rest) := by
    rw [← hsplit, Text.joinWith_splitOn]
  rw [components_eq, front, steps_eq, hsplit, List.map_cons, List.map_append]
  -- Only the first part may be spelled in a way that is no component.
  by_cases habsolute : isAbsolute path
  · -- The first part is the empty one in front of the first slash.
    obtain rfl : first = [] := by
      obtain ⟨after, hafter⟩ := List.head?_eq_some_iff.1 (by simpa [isAbsolute] using habsolute)
      rw [hafter, Text.splitOn_cons_self] at hsplit
      exact (List.cons.inj hsplit).1.symm
    rw [if_pos habsolute, List.filterMap_cons_none rfl, hrest]
    exact hpath
  · rw [if_neg habsolute]
    by_cases hdot : first = ['.']
    · subst hdot
      rw [List.head?_cons, beq_self_eq_true, if_pos rfl, List.filterMap_cons_none rfl, hrest]
      exact hpath
    · rw [if_neg (by simpa using hdot)]
      by_cases hempty : first = []
      · -- A path that begins with an empty part, but not with a slash, is empty.
        subst hempty
        cases hlist : path.toList with
        | nil =>
            rw [hlist] at hsplit
            obtain rfl : rest = [] := (List.cons.inj hsplit).2.symm
            rfl
        | cons c after =>
            rw [hlist, Text.splitOn] at hsplit
            split at hsplit
            · rename_i hc
              simp [isAbsolute, hlist, beq_iff_eq.1 hc] at habsolute
            · split at hsplit <;> cases hsplit
      · obtain ⟨c, hc, hspelling⟩ := Option.map_eq_some_iff.1 (component?_stepOf hempty hdot)
        rw [List.filterMap_cons_some hc, List.map_cons, hspelling, hrest]
        exact hpath

/-- The root is the only plain path with its components. -/
theorem Plain.components_ne_root (h : Plain path) (hroot : path ≠ "/") :
    components path ≠ [.root] := by
  intro heq
  have hlist := h.toList_eq hroot
  rw [heq] at hlist
  have hempty : path = "" := String.toList_inj.1 hlist
  rw [hempty] at heq
  cases heq

/-- Plain paths with the same components are the same. -/
theorem Plain.ext (hp : Plain p) (hq : Plain q) (h : components p = components q) : p = q := by
  by_cases hproot : p = "/"
  · by_contra hne
    rw [hproot] at h hne
    exact hq.components_ne_root (Ne.symm hne) h.symm
  · have hqroot : q ≠ "/" := by
      rintro rfl
      exact hp.components_ne_root hproot h
    rw [← String.toList_inj, hp.toList_eq hproot, hq.toList_eq hqroot, h]

end Longhand.Files
