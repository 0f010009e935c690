import Longhand.Proofs.Fatal
import Longhand.Proofs.Spelled

/-!
# Which files are found

The files below a directory are those that some names lead to from it.  A source without wildcards
leads to itself if it is a file, and else to the files below it with the right extension, hidden
ones apart.  What is collected from such sources are exactly these files, without those excluded, in
the order of paths, whatever the order of the sources.
-/

namespace Longhand

theorem Text.occursIn_iff {part cs : List Char} : occursIn part cs = true ↔ part <:+: cs := by
  induction cs with
  | nil => simp [occursIn]
  | cons c rest ih =>
      rw [occursIn, Bool.or_eq_true, List.isPrefixOf_iff_prefix, ih, List.infix_cons_iff]

namespace Files

variable {t : Tree} {e d : Entry} {entries : List (String × Entry)} {name p q source : String}
  {names sources paths : List String} {hidden : Bool} {x : Exclusions}

/-! ### Below a directory -/

namespace Entry

@[simp] theorem find?_nil (e : Entry) : e.find? [] = some e := rfl

theorem mem_descendantsIn_cons :
    (name :: names, d) ∈ descendantsIn entries ↔
      ∃ e, (name, e) ∈ entries ∧ (names = [] ∧ d = e ∨ (names, d) ∈ e.descendants) := by
  induction entries with
  | nil => simp [descendantsIn]
  | cons entry rest ih =>
      obtain ⟨n, e⟩ := entry
      rw [descendantsIn, List.cons_append, List.mem_cons, List.mem_append, ih]
      constructor
      · rintro (hself | hbelow | ⟨e', he', hrest⟩)
        · cases hself
          exact ⟨d, List.mem_cons_self, .inl ⟨rfl, rfl⟩⟩
        · obtain ⟨⟨names', d'⟩, hmem, heq⟩ := List.mem_map.1 hbelow
          cases heq
          exact ⟨e, List.mem_cons_self, .inr hmem⟩
        · exact ⟨e', List.mem_cons_of_mem _ he', hrest⟩
      · rintro ⟨e', he', hrest⟩
        rcases List.mem_cons.1 he' with heq | he'
        · cases heq
          rcases hrest with ⟨rfl, rfl⟩ | hmem
          · exact .inl rfl
          · exact .inr (.inl (List.mem_map.2 ⟨_, hmem, rfl⟩))
        · exact .inr (.inr ⟨e', he', hrest⟩)

theorem nil_notMem_descendantsIn : ([], d) ∉ descendantsIn entries := by
  induction entries with
  | nil => simp [descendantsIn]
  | cons entry rest ih =>
      obtain ⟨n, e⟩ := entry
      rw [descendantsIn, List.cons_append, List.mem_cons, List.mem_append, not_or, not_or]
      exact ⟨by simp, by simp, ih⟩

/-- The entries of each directory have names, different ones in one directory. -/
def Sound (e : Entry) : Prop :=
  ∀ place entries, e.find? place = some (.directory entries) →
    (entries.map Prod.fst).Nodup ∧ ∀ name ∈ entries.map Prod.fst, IsName name

theorem Sound.file (f : File) : (Entry.file f).Sound := by
  intro place entries hfind
  cases place <;> cases hfind

/-- A directory of sound entries with different names is sound. -/
theorem Sound.directory (hnodup : (entries.map Prod.fst).Nodup)
    (hnames : ∀ name ∈ entries.map Prod.fst, IsName name)
    (hentries : ∀ entry ∈ entries, entry.2.Sound) : (Entry.directory entries).Sound := by
  intro place inner hfind
  cases place with
  | nil =>
      cases hfind
      exact ⟨hnodup, hnames⟩
  | cons name rest =>
      obtain ⟨_, e, hentry, hlookup, hrest⟩ := exists_inner hfind
      cases hentry
      exact hentries _ (Flag.mem_of_lookup hlookup) rest inner hrest

theorem lookup_eq_some_iff_of_nodup (hnodup : (entries.map Prod.fst).Nodup) :
    entries.lookup name = some e ↔ (name, e) ∈ entries := by
  refine ⟨Flag.mem_of_lookup, fun hmem => ?_⟩
  cases hlookup : entries.lookup name with
  | none => simpa using List.lookup_eq_none_iff.1 hlookup _ hmem
  | some found =>
      have heq : (name, found) = (name, e) :=
        List.inj_on_of_nodup_map hnodup (Flag.mem_of_lookup hlookup) hmem rfl
      rw [(Prod.mk.inj heq).2]

theorem Sound.of_find? (h : e.Sound) (hfind : e.find? names = some d) : d.Sound := by
  intro place entries hplace
  refine h (names ++ place) entries ?_
  rw [find?_append, hfind]
  exact hplace

theorem Sound.nodup (h : (Entry.directory entries).Sound) : (entries.map Prod.fst).Nodup :=
  (h [] entries rfl).1

theorem Sound.isName (h : e.Sound) (hfind : e.find? names = some d) :
    ∀ n ∈ names, IsName n := by
  induction names generalizing e with
  | nil => simp
  | cons name rest ih =>
      obtain ⟨entries, inner, rfl, hlookup, hrest⟩ := exists_inner hfind
      have hname : IsName name :=
        (h [] entries rfl).2 name (List.mem_map_of_mem (Flag.mem_of_lookup hlookup))
      have hfind : (Entry.directory entries).find? [name] = some inner := by simp [hlookup]
      have hinner : inner.Sound := h.of_find? hfind
      exact List.forall_mem_cons.2 ⟨hname, ih hinner hrest⟩

/-- What is below an entry is what some names lead to. -/
theorem mem_descendants_iff (h : e.Sound) :
    (names, d) ∈ e.descendants ↔ names ≠ [] ∧ e.find? names = some d := by
  -- The induction is on the names, as what is below an entry is listed by the first of them.
  induction names generalizing e with
  | nil =>
      cases e with
      | file f => simp [descendants]
      | directory entries => simp [descendants, nil_notMem_descendantsIn]
  | cons name rest ih =>
      cases e with
      | file f => simp [descendants]
      | directory entries =>
          rw [descendants, mem_descendantsIn_cons, find?_directory_cons, Option.bind_eq_some_iff]
          simp only [ne_eq, reduceCtorEq, not_false_eq_true, true_and,
            lookup_eq_some_iff_of_nodup h.nodup]
          refine exists_congr fun inner => and_congr_right fun hmem => ?_
          have hlookup := (lookup_eq_some_iff_of_nodup h.nodup).2 hmem
          have hfind : (Entry.directory entries).find? [name] = some inner := by simp [hlookup]
          rw [ih (h.of_find? hfind)]
          cases rest with
          | nil => simp [eq_comm]
          | cons => simp

end Entry

/-- The names in each directory of a tree can name entries, and are different. -/
def Tree.Sound (t : Tree) : Prop :=
  t.root.Sound

/-- A directory that a path leads to. -/
theorem Tree.Sound.entry (h : t.Sound) (hentry : t.entry source = .ok e) : e.Sound := by
  rw [Tree.entry] at hentry
  split at hentry
  · cases hentry
  · split at hentry
    · cases hentry
      exact Entry.Sound.of_find? h ‹_›
    · cases hentry

/-- A file with the right extension is found below a directory, some names further down, none of
them hidden unless those count. -/
inductive FoundBelow (t : Tree) (hidden : Bool) (source : String) : String → Prop
  | intro {entries : List (String × Entry)} {names : List String} {f : File}
      (hdirectory : t.entry source = .ok (.directory entries))
      (hfile : (Entry.directory entries).find? names = some (.file f))
      (hvisible : hidden = true ∨ ∀ n ∈ names, isHidden n = false)
      (hsource : isSource (names.foldl join source) = true) :
      FoundBelow t hidden source (names.foldl join source)

/-- A search finds exactly the files below a directory. -/
theorem mem_walk_iff (h : t.Sound) : p ∈ walk t hidden source ↔ FoundBelow t hidden source p := by
  rw [walk, Tree.list]
  cases hentry : t.entry source with
  | error =>
      simp only [List.not_mem_nil, false_iff]
      rintro ⟨hdirectory, -, -, -⟩
      simp [hentry] at hdirectory
  | ok e =>
      cases e with
      | file f =>
          simp only [List.not_mem_nil, false_iff]
          rintro ⟨hdirectory, -, -, -⟩
          simp [hentry] at hdirectory
      | directory entries =>
          have hsound := h.entry hentry
          simp only [List.mem_filter, List.mem_map, Prod.exists]
          constructor
          · rintro ⟨⟨names, e, ⟨hmem, hcounts⟩, rfl⟩, hsource⟩
            obtain ⟨-, hfind⟩ := (Entry.mem_descendants_iff hsound).1 hmem
            cases e with
            | directory => simp [Entry.isDirectory] at hcounts
            | file f =>
                exact .intro hentry hfind (by simpa [Entry.isDirectory] using hcounts) hsource
          · rintro ⟨hdirectory, hfile, hvisible, hsource⟩
            rename_i entries' names f
            rw [hentry] at hdirectory
            cases hdirectory
            refine ⟨⟨names, .file f, ⟨(Entry.mem_descendants_iff hsound).2 ⟨?_, hfile⟩, ?_⟩, rfl⟩,
              hsource⟩
            · rintro rfl
              cases hfile
            · simpa [Entry.isDirectory] using hvisible

/-- A source without wildcards leads to itself, if it is a file, and else to the files below it. -/
theorem filesOf_of_plain (hidden : Bool) (h : t.Sound) (hglob : isGlob source.toList = false) :
    ∃ found, filesOf t hidden source = .ok found ∧
      ∀ p, p ∈ found ↔ p = source ∧ t.isFile source = true ∨ FoundBelow t hidden source p := by
  rw [filesOf, if_neg (by simp [hglob])]
  by_cases hfile : t.isFile source
  · refine ⟨[source], if_pos hfile, fun p => ?_⟩
    -- Nothing is below a file.
    have hbelow : ¬FoundBelow t hidden source p := by
      rintro ⟨hdirectory, -, -, -⟩
      simp [Tree.isFile, hdirectory] at hfile
    simp [hbelow, hfile]
  · refine ⟨walk t hidden source, if_neg hfile, fun p => ?_⟩
    simp [hfile, mem_walk_iff h]

/-! ### The order of paths -/

/-- Each path is left, or is equal to the last one or to one that is left. -/
theorem exists_mem_withoutRepeats (last : List Component) {l : List (List Component × String)}
    {a : List Component × String} (ha : a ∈ l) :
    a.1 = last ∨ ∃ b ∈ withoutRepeats last l, b.1 = a.1 := by
  induction l generalizing last with
  | nil => cases ha
  | cons b rest ih =>
      rw [withoutRepeats]
      split
      · rename_i hlast
        rcases List.mem_cons.1 ha with rfl | ha
        · exact .inl hlast
        · exact ih last ha
      · right
        rcases List.mem_cons.1 ha with rfl | ha
        · exact ⟨a, List.mem_cons_self, rfl⟩
        · rcases ih b.1 ha with heq | ⟨c, hc, heq⟩
          · exact ⟨b, List.mem_cons_self, heq.symm⟩
          · exact ⟨c, List.mem_cons_of_mem _ hc, heq⟩

theorem withoutRepeats_sublist (last : List Component) (l : List (List Component × String)) :
    (withoutRepeats last l).Sublist l := by
  induction l generalizing last with
  | nil => exact .refl _
  | cons b rest ih =>
      rw [withoutRepeats]
      split
      · exact (ih last).cons b
      · exact (ih b.1).cons_cons b

theorem inOrder_eq (paths : List String) : inOrder paths =
    (match stableSort le (paths.map fun path => (components path, path)) with
      | [] => []
      | first :: rest => first :: withoutRepeats first.1 rest).map Prod.snd :=
  rfl

/-- Paths in order are some of the given ones, sorted, and stand for all of them. -/
theorem exists_inOrder (paths : List String) :
    ∃ l : List (List Component × String), inOrder paths = l.map Prod.snd ∧
      (l.Pairwise fun a b => le a b = true) ∧
      (∀ a ∈ l, a.1 = components a.2 ∧ a.2 ∈ paths) ∧
      ∀ p ∈ paths, ∃ a ∈ l, a.1 = components p := by
  have hsorted := stableSort_pairwise le_total le_trans
    (paths.map fun path => (components path, path))
  have hmem : ∀ a, a ∈ stableSort le (paths.map fun path => (components path, path)) ↔
      ∃ p ∈ paths, (components p, p) = a := by
    intro a
    rw [mem_stableSort, List.mem_map]
  cases hsort : stableSort le (paths.map fun path => (components path, path)) with
  | nil =>
      rw [hsort] at hmem
      refine ⟨[], ?_, .nil, by simp, fun p hp => ?_⟩
      · rw [inOrder_eq, hsort]
      · cases (hmem (components p, p)).2 ⟨p, hp, rfl⟩
  | cons first rest =>
      rw [hsort] at hsorted hmem
      refine ⟨first :: withoutRepeats first.1 rest, ?_, ?_, fun a ha => ?_, fun p hp => ?_⟩
      · rw [inOrder_eq, hsort]
      · exact hsorted.sublist ((withoutRepeats_sublist _ _).cons_cons _)
      · obtain ⟨p, hp, rfl⟩ := (hmem a).1 (mem_of_mem_cons_withoutRepeats ha)
        exact ⟨rfl, hp⟩
      · rcases List.mem_cons.1 ((hmem (components p, p)).2 ⟨p, hp, rfl⟩) with heq | hrest
        · exact ⟨first, List.mem_cons_self, by rw [← heq]⟩
        · rcases exists_mem_withoutRepeats first.1 hrest with heq | ⟨b, hb, heq⟩
          · exact ⟨first, List.mem_cons_self, heq.symm⟩
          · exact ⟨b, List.mem_cons_of_mem _ hb, heq⟩

theorem mem_of_mem_inOrder (h : p ∈ inOrder paths) : p ∈ paths := by
  obtain ⟨l, heq, -, hspelled, -⟩ := exists_inOrder paths
  rw [heq] at h
  obtain ⟨a, ha, rfl⟩ := List.mem_map.1 h
  exact (hspelled a ha).2

/-- Each path is there, perhaps in another spelling. -/
theorem exists_mem_inOrder (h : p ∈ paths) : ∃ q ∈ inOrder paths, components q = components p := by
  obtain ⟨l, heq, -, hspelled, hall⟩ := exists_inOrder paths
  obtain ⟨a, ha, hcomponents⟩ := hall p h
  refine ⟨a.2, ?_, (hspelled a ha).1.symm.trans hcomponents⟩
  rw [heq]
  exact List.mem_map_of_mem ha

/-- Paths ascend, none equal to another. -/
def Ascending (paths : List String) : Prop :=
  paths.Pairwise fun p q => compareComponents (components p) (components q) = .lt

theorem ascending_inOrder (paths : List String) : Ascending (inOrder paths) := by
  have hdistinct := inOrder_distinct paths
  obtain ⟨l, heq, hsorted, hspelled, -⟩ := exists_inOrder paths
  rw [heq] at hdistinct
  rw [Ascending, heq]
  -- Sorted paths do not descend, and of those with the same components one is left.
  refine List.pairwise_map.2 ((hsorted.and (List.pairwise_map.1 hdistinct)).imp_of_mem ?_)
  rintro a b ha hb ⟨hle, hne⟩
  rw [le_iff, (hspelled a ha).1, (hspelled b hb).1] at hle
  cases hcompare : compareComponents (components a.2) (components b.2) with
  | lt => rfl
  | eq => exact absurd (Std.LawfulEqCmp.eq_of_compare hcompare) hne
  | gt => simp [hcompare] at hle

/-- Ascending paths are determined by their members. -/
theorem Ascending.eq {paths' : List String} (h : Ascending paths) (h' : Ascending paths')
    (hmem : ∀ p, p ∈ paths ↔ p ∈ paths') : paths = paths' := by
  have hnodup : ∀ {l : List String}, Ascending l → l.Nodup := by
    intro l hl
    refine hl.imp fun {p q} hlt heq => ?_
    have hself : compareComponents (components q) (components q) = .eq :=
      Std.ReflCmp.compare_self
    rw [heq, hself] at hlt
    cases hlt
  -- Both lists are sorted, without repeats, and have the same members.
  refine List.Perm.eq_of_pairwise (fun p q _ _ hpq hqp => ?_) h h'
    ((List.perm_ext_iff_of_nodup (hnodup h) (hnodup h')).2 hmem)
  have hswap : compareComponents (components p) (components q) =
      (compareComponents (components q) (components p)).swap :=
    Std.OrientedCmp.eq_swap
  rw [hswap, hqp] at hpq
  cases hpq

/-! ### What is collected -/

/-- A path that is not excluded: it matches no pattern, contains no text, and leads elsewhere than
the excluded files. -/
structure Kept (t : Tree) (x : Exclusions) (path : String) : Prop where
  unmatched : ∀ s ∈ x.patterns, isGlob s.toList = true →
    ∀ pattern, Pattern.parse s.toList = .ok pattern → pattern.matches path.toList = false
  uncontained : ∀ s ∈ x.patterns, isGlob s.toList = false → ¬s.toList <:+: path.toList
  elsewhere : ∀ s ∈ x.files, t.Apart s path

theorem mem_places_iff {place : List String} {files : List String} :
    place ∈ files.filterMap (fun s => (t.resolve s).toOption) ↔
      ∃ s ∈ files, t.resolve s = .ok place := by
  rw [List.mem_filterMap]
  refine exists_congr fun s => and_congr_right fun _ => ?_
  cases t.resolve s <;> simp [Except.toOption]

/-- A path that is not left out is kept. -/
theorem isExcluded_eq_false_iff {patterns : List Pattern}
    (hpatterns : ∀ pattern, pattern ∈ patterns ↔
      ∃ s ∈ x.patterns, isGlob s.toList = true ∧ Pattern.parse s.toList = .ok pattern) :
    isExcluded t patterns (x.patterns.filter fun s => !isGlob s.toList)
      (x.files.filterMap fun s => (t.resolve s).toOption) p = false ↔ Kept t x p := by
  rw [isExcluded, Bool.or_eq_false_iff, Bool.or_eq_false_iff, List.any_eq_false, List.any_eq_false]
  constructor
  · rintro ⟨⟨hmatch, htext⟩, hplace⟩
    constructor
    · intro s hs hglob pattern hparse
      simpa using hmatch pattern ((hpatterns pattern).2 ⟨s, hs, hglob, hparse⟩)
    · intro s hs hglob
      rw [← Text.occursIn_iff]
      exact htext s (List.mem_filter.2 ⟨hs, by simp [hglob]⟩)
    · intro s hs place hresolved hpath
      have hmem := mem_places_iff.2 ⟨s, hs, hresolved⟩
      rw [hpath] at hplace
      simp only [List.contains_eq_mem, decide_eq_false_iff_not] at hplace
      exact hplace hmem
  · rintro ⟨hmatch, htext, hplace⟩
    refine ⟨⟨fun pattern hpattern => ?_, fun s hs => ?_⟩, ?_⟩
    · obtain ⟨s, hs, hglob, hparse⟩ := (hpatterns pattern).1 hpattern
      simpa using hmatch s hs hglob pattern hparse
    · obtain ⟨hs, hglob⟩ := List.mem_filter.1 hs
      rw [Text.occursIn_iff]
      exact htext s hs (by simpa using hglob)
    · cases hpath : t.resolve p with
      | error => rfl
      | ok place =>
          simp only [List.contains_eq_mem, decide_eq_false_iff_not]
          intro hmem
          obtain ⟨s, hs, hresolved⟩ := mem_places_iff.1 hmem
          exact hplace s hs place hresolved hpath

theorem mem_iff_of_mapM {α β ε : Type} {f : α → Except ε β} {l : List α} {ys : List β} {y : β}
    (h : l.mapM f = .ok ys) : y ∈ ys ↔ ∃ a ∈ l, f a = .ok y := by
  have hread := Tracked.Spec.mapM_eq_ok_iff.1 h
  clear h
  induction hread with
  | nil => simp
  | cons hfirst _ ih => simp [ih, hfirst, eq_comm]

theorem mapError_eq_ok_iff {α ε ε' : Type} {f : ε → ε'} {r : Except ε α} {a : α} :
    r.mapError f = .ok a ↔ r = .ok a := by
  cases r <;> simp [Except.mapError]

/-- If all sources and all patterns are read, the files found are collected in order, less those
that are excluded. -/
theorem exists_collect
    (hsources : ∀ s ∈ sources, ∃ found, filesOf t x.includeHidden s = .ok found)
    (hpatterns : ∀ s ∈ x.patterns, isGlob s.toList = true →
      ∃ pattern, Pattern.parse s.toList = .ok pattern) :
    ∃ found keeps, collect t sources x = .ok ((inOrder found).filter keeps) ∧
      (∀ p, p ∈ found ↔ ∃ s ∈ sources, ∃ l, filesOf t x.includeHidden s = .ok l ∧ p ∈ l) ∧
      ∀ p, keeps p = true ↔ Kept t x p := by
  obtain ⟨found, hfound⟩ : ∃ found, sources.mapM
      (fun s => (filesOf t x.includeHidden s).mapError (CollectError.source s)) = .ok found := by
    refine exists_mapM_iff.2 fun s hs => ?_
    obtain ⟨l, hl⟩ := hsources s hs
    exact ⟨l, mapError_eq_ok_iff.2 hl⟩
  obtain ⟨patterns, hread⟩ : ∃ patterns, (x.patterns.filter fun s => isGlob s.toList).mapM
      (fun s => (Pattern.parse s.toList).mapError (CollectError.exclusion s)) = .ok patterns := by
    refine exists_mapM_iff.2 fun s hs => ?_
    obtain ⟨hs, hglob⟩ := List.mem_filter.1 hs
    obtain ⟨pattern, hpattern⟩ := hpatterns s hs hglob
    exact ⟨pattern, mapError_eq_ok_iff.2 hpattern⟩
  refine ⟨found.flatten,
    fun p => !isExcluded t patterns (x.patterns.filter fun s => !isGlob s.toList)
      (x.files.filterMap fun s => (t.resolve s).toOption) p, ?_, fun p => ?_, fun p => ?_⟩
  · rw [collect]
    simp only [hfound, hread, bind, Except.bind, pure, Except.pure]
  · rw [List.mem_flatten]
    constructor
    · rintro ⟨l, hl, hp⟩
      obtain ⟨s, hs, hl⟩ := (mem_iff_of_mapM hfound).1 hl
      exact ⟨s, hs, l, mapError_eq_ok_iff.1 hl, hp⟩
    · rintro ⟨s, hs, l, hl, hp⟩
      exact ⟨l, (mem_iff_of_mapM hfound).2 ⟨s, hs, mapError_eq_ok_iff.2 hl⟩, hp⟩
  · rw [Bool.not_eq_true', isExcluded_eq_false_iff]
    intro pattern
    rw [mem_iff_of_mapM hread]
    simp only [List.mem_filter, mapError_eq_ok_iff, and_assoc]

/-- What is found from some sources: those that are files, and the files below the others. -/
inductive Found (t : Tree) (hidden : Bool) (sources : List String) (p : String) : Prop
  | named (hp : p ∈ sources) (hfile : t.isFile p = true)
  | below {source : String} (hsource : source ∈ sources) (hbelow : FoundBelow t hidden source p)

theorem FoundBelow.plain (ht : t.Sound) (hsource : Plain source)
    (h : FoundBelow t hidden source p) : Plain p := by
  obtain ⟨hdirectory, hfile, -, -⟩ := h
  refine hsource.foldl_join ?_ ((ht.entry hdirectory).isName hfile)
  rintro rfl
  cases hdirectory

/-- Plainly spelled sources without wildcards lead to what is found from them. -/
theorem exists_collect_plain (ht : t.Sound)
    (hsources : ∀ s ∈ sources, isGlob s.toList = false ∧ Plain s)
    (hpatterns : ∀ s ∈ x.patterns, isGlob s.toList = true →
      ∃ pattern, Pattern.parse s.toList = .ok pattern) :
    ∃ paths, collect t sources x = .ok paths ∧ Ascending paths ∧
      ∀ p, p ∈ paths ↔ Found t x.includeHidden sources p ∧ Kept t x p := by
  have hread : ∀ s ∈ sources, ∃ found, filesOf t x.includeHidden s = .ok found := fun s hs =>
    (filesOf_of_plain _ ht (hsources s hs).1).imp fun _ h => h.1
  obtain ⟨found, keeps, hcollect, hfound, hkeeps⟩ := exists_collect hread hpatterns
  have hmem : ∀ p, p ∈ found ↔ Found t x.includeHidden sources p := by
    intro p
    rw [hfound]
    constructor
    · rintro ⟨s, hs, l, hl, hp⟩
      obtain ⟨l', hl', hleads⟩ := filesOf_of_plain x.includeHidden ht (hsources s hs).1
      rw [hl'] at hl
      cases hl
      rcases (hleads p).1 hp with ⟨rfl, hfile⟩ | hbelow
      · exact .named hs hfile
      · exact .below hs hbelow
    · intro hp
      obtain ⟨s, hs, hleads⟩ : ∃ s ∈ sources,
          p = s ∧ t.isFile s = true ∨ FoundBelow t x.includeHidden s p := by
        cases hp with
        | named hp hfile => exact ⟨p, hp, .inl ⟨rfl, hfile⟩⟩
        | below hsource hbelow => exact ⟨_, hsource, .inr hbelow⟩
      obtain ⟨l, hl, hall⟩ := filesOf_of_plain x.includeHidden ht (hsources s hs).1
      exact ⟨s, hs, l, hl, (hall p).2 hleads⟩
  have hplain : ∀ p ∈ found, Plain p := by
    intro p hp
    cases (hmem p).1 hp with
    | named hp _ => exact (hsources p hp).2
    | below hsource hbelow => exact hbelow.plain ht (hsources _ hsource).2
  -- No path is left out for one with the same components, as these have one plain spelling.
  have hinOrder : ∀ p, p ∈ inOrder found ↔ p ∈ found := by
    refine fun p => ⟨mem_of_mem_inOrder, fun hp => ?_⟩
    obtain ⟨q, hq, hcomponents⟩ := exists_mem_inOrder hp
    rwa [← (hplain q (mem_of_mem_inOrder hq)).ext (hplain p hp) hcomponents]
  refine ⟨_, hcollect, (ascending_inOrder found).sublist List.filter_sublist, fun p => ?_⟩
  rw [List.mem_filter, hinOrder, hmem, hkeeps]

/-- A working directory with a hidden directory in it, and one with files to be excluded. -/
def workTree : Tree :=
  ⟨.directory [("w", .directory [
    ("a.py", .file ⟨[], true, true⟩), (".venv", .directory [("e.py", .file ⟨[], true, true⟩)]),
    ("notes.txt", .file ⟨[], true, true⟩),
    ("sub", .directory [("b.py", .file ⟨[], true, true⟩), ("gen_c.py", .file ⟨[], true, true⟩),
      ("d.py", .file ⟨[], true, true⟩)])])], ["w"]⟩

theorem sound_workTree : workTree.Sound := by
  have file := Entry.Sound.file ⟨[], true, true⟩
  have hidden : (Entry.directory [("e.py", .file ⟨[], true, true⟩)]).Sound :=
    .directory (by decide) (by decide) (by simpa using file)
  have sub : (Entry.directory [("b.py", .file ⟨[], true, true⟩),
      ("gen_c.py", .file ⟨[], true, true⟩), ("d.py", .file ⟨[], true, true⟩)]).Sound :=
    .directory (by decide) (by decide) (by simpa using file)
  refine .directory (by decide) (by decide) (List.forall_mem_singleton.2 ?_)
  exact .directory (by decide) (by decide) (by simpa using ⟨file, hidden, file, sub⟩)

end Files

end Longhand
