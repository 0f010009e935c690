import Longhand.Config.Modules
import Longhand.Proofs.Added
import Longhand.Proofs.SpecText

/-!
# The tables of the modules of a run

Modules are mentioned in the list of specs and in the items that give tables.  Each module that is
mentioned is there once, in the order of the first mentions, and is found by its path.  Its table is
that of the last item that names it, in either spelling, or else the default one.
-/

namespace Longhand

/-! ## The first of each kind -/

section FirstOfEach

variable {α β : Type} [BEq β] {l : List α} {ps : List β} {p : β}

theorem firstOfEach_map (key : α → β) :
    (firstOfEach (fun a b => key a == key b) l).map key = firstOfEach (· == ·) (l.map key) := by
  induction l with
  | nil => rfl
  | cons a rest ih =>
      rw [firstOfEach, List.map_cons, List.map_cons, firstOfEach, ← ih, List.filter_map]
      rfl

variable [LawfulBEq β]

/-- What is looked for by its key is found among the first of each key. -/
theorem firstOfEach_find? (key : α → β) :
    (firstOfEach (fun a b => key a == key b) l).find? (key · == p) = l.find? (key · == p) := by
  induction l with
  | nil => rfl
  | cons a rest ih =>
      rw [firstOfEach]
      by_cases ha : key a = p
      · rw [List.find?_cons_of_pos (by simpa using ha), List.find?_cons_of_pos (by simpa using ha)]
      · rw [List.find?_cons_of_neg (by simpa using ha), List.find?_cons_of_neg (by simpa using ha),
          List.find?_filter, ← ih]
        congr 1
        funext b
        by_cases hb : key b = p <;> simp [hb, ha]

theorem mem_firstOfEach_iff : p ∈ firstOfEach (· == ·) ps ↔ p ∈ ps := by
  induction ps with
  | nil => rfl
  | cons q rest ih =>
      rw [firstOfEach, List.mem_cons, List.mem_cons, List.mem_filter, ih]
      by_cases hp : q = p
      · simp [hp]
      · simp [hp, Ne.symm hp]

/-- The first of each kind come in the order in which they first occur. -/
theorem pairwise_firstOfEach :
    (firstOfEach (· == ·) ps).Pairwise fun p q => ps.idxOf p < ps.idxOf q := by
  induction ps with
  | nil => exact .nil
  | cons a rest ih =>
      have hapart : ∀ q ∈ (firstOfEach (· == ·) rest).filter (fun b => !(a == b)),
          (a :: rest).idxOf q = rest.idxOf q + 1 := by
        intro q hq
        exact List.idxOf_cons_ne _ (by simpa using (List.mem_filter.1 hq).2)
      refine List.pairwise_cons.2 ⟨fun q hq => ?_, ?_⟩
      · rw [List.idxOf_cons_self, hapart q hq]
        exact Nat.succ_pos _
      · refine (ih.filter _).imp_of_mem fun {p q} hp hq hlt => ?_
        rw [hapart p hp, hapart q hq]
        exact Nat.succ_lt_succ hlt

/-- A further mention changes nothing. -/
theorem firstOfEach_append_of_mem (hp : p ∈ ps) :
    firstOfEach (· == ·) (ps ++ [p]) = firstOfEach (· == ·) ps := by
  induction ps with
  | nil => cases hp
  | cons q rest ih =>
      rw [List.cons_append, firstOfEach, firstOfEach]
      by_cases hrest : p ∈ rest
      · rw [ih hrest]
      · obtain rfl : p = q := (List.mem_cons.1 hp).resolve_right hrest
        have hfresh : ∀ b ∈ rest, (b == p) = false := by
          intro b hb
          rw [beq_eq_false_iff_ne]
          rintro rfl
          exact hrest hb
        rw [Scope.firstOfEach_append hfresh, List.filter_append]
        simp

end FirstOfEach

/-! ## Blanks around a text -/

theorem Text.trim_trim (cs : List Char) : trim (trim cs) = trim cs := by
  have hfront : (trim cs).dropWhile isBlank = trim cs := by
    have hbegins : trim cs <+: cs.dropWhile isBlank := List.rdropWhile_prefix _ _
    rw [List.dropWhile_eq_self_iff]
    intro hpos
    rw [hbegins.getElem hpos]
    have hdrop := List.dropWhile_eq_self_iff.1 (List.dropWhile_idempotent isBlank cs)
    exact hdrop (Nat.lt_of_lt_of_le hpos hbegins.length_le)
  conv_lhs => rw [trim, hfront]
  exact List.rdropWhile_idempotent _ _

namespace Config

open Tracked (Member Spec)

variable {t : Files.Tree} {specs item p : String} {items : List String} {default table : Flag.Table}
  {o : Override} {os : List Override} {ms : List Member} {s : Tracked.Set} {place : Nat}

/-! ## The paths that are mentioned -/

/-- The path that a spec names: a colon counts as a dot, blanks around the spec do not count. -/
def namedPath (written : List Char) : String :=
  String.ofList ((Text.trim written).map fun c => if c = ':' then '.' else c)

/-- The path that an item `SPEC=FILE` names. -/
def itemPath (item : String) : String :=
  namedPath (item.toList.takeWhile (· != '='))

/-- The file that an item `SPEC=FILE` names. -/
def itemFile (item : String) : String :=
  String.ofList (Text.trim ((item.toList.dropWhile (· != '=')).drop 1))

/-- The paths that the specs and the items of a run name, one after the other. -/
def mentioned (specs : String) (items : List String) : List String :=
  (Spec.items specs).map namedPath ++ items.map itemPath

theorem path_of_parse {written : List Char} {spec : Spec} (h : Spec.parse written = .ok spec) :
    spec.path = namedPath written := by
  obtain ⟨hsound, hwritten⟩ := Spec.parse_eq_ok_iff.1 h
  obtain ⟨hentry, hpackage⟩ := hsound.notMem (d := ':') (by simp)
  have keeps : ∀ cs : List Char, ':' ∉ cs → cs.map (fun c => if c = ':' then '.' else c) = cs := by
    intro cs hcs
    refine (List.map_congr_left fun c hc => if_neg ?_).trans (List.map_id' cs)
    rintro rfl
    exact hcs hc
  have hpackage := keeps _ (hpackage (by decide))
  have hentry := keeps _ hentry
  have hpath : (Text.trim written).map (fun c => if c = ':' then '.' else c) = spec.path.toList := by
    rw [Spec.toList_path]
    rcases hwritten with heq | heq
    · rw [heq, Spec.toList_text, List.map_append, List.map_cons, hpackage, hentry]
      rfl
    · rw [heq, Spec.toList_path, List.map_append, List.map_cons, hpackage, hentry]
      rfl
  rw [namedPath, hpath, String.ofList_toList]

/-- An item that is read names the path of its module and the file of its table. -/
theorem readOverride_spec (h : readOverride t item = .ok o) :
    o.spec.path = itemPath item ∧ loadTable t (itemFile item) = .ok o.table := by
  unfold readOverride at h
  split at h
  · cases h
  rename_i written file hcut
  obtain ⟨hitem, hnot⟩ := Text.cutFirst?_eq_some_iff.1 hcut
  have hkept : ∀ c ∈ written, (c != '=') = true := by
    intro c hc
    rw [bne_iff_ne]
    rintro rfl
    exact hnot hc
  split at h
  · cases h
  rename_i spec hspec
  have hpath : spec.path = itemPath item := by
    rw [path_of_parse hspec, itemPath, hitem, List.takeWhile_append_of_pos hkept,
      List.takeWhile_cons_of_neg (by simp), List.append_nil, namedPath, Text.trim_trim, namedPath]
  have hfile : String.ofList (Text.trim file) = itemFile item := by
    rw [itemFile, hitem, List.dropWhile_append_of_pos hkept, List.dropWhile_cons_of_neg (by simp)]
    rfl
  dsimp only at h
  rw [hfile] at h
  split at h
  · cases h
  rename_i table htable
  cases h
  exact ⟨hpath, htable⟩

theorem paths_of_parseList {parsed : List Spec} (h : Spec.parseList specs = .ok parsed) :
    parsed.map Spec.path = (Spec.items specs).map namedPath := by
  have hread : List.Forall₂ (fun part s => Spec.parse part = .ok s) (Spec.items specs) parsed :=
    Spec.mapM_eq_ok_iff.1 h
  clear h
  generalize Spec.items specs = parts at hread
  induction hread with
  | nil => rfl
  | cons hparse _ ih => rw [List.map_cons, List.map_cons, ih, path_of_parse hparse]

/-! ## Giving tables -/

/-- The paths of modules are those of before, and that of the item if it is new. -/
theorem paths_assign :
    (assign o ms).map (·.spec.path) = if o.spec.path ∈ ms.map (·.spec.path)
      then ms.map (·.spec.path) else ms.map (·.spec.path) ++ [o.spec.path] := by
  induction ms with
  | nil => rfl
  | cons m rest ih =>
      rw [assign]
      by_cases hm : m.spec.path = o.spec.path
      · rw [if_pos (by simpa using hm), if_pos (by simp [hm]), List.map_cons, List.map_cons]
      · rw [if_neg (by simpa using hm), List.map_cons, ih, List.map_cons]
        by_cases hmem : o.spec.path ∈ rest.map (·.spec.path)
        · rw [if_pos hmem, if_pos (List.mem_cons_of_mem _ hmem)]
        · rw [if_neg hmem, if_neg fun h => (List.mem_cons.1 h).elim (fun heq => hm heq.symm) hmem]
          rfl

/-- After all items the modules are those of the list and of the items, first mentions counting. -/
theorem paths_foldl_assign :
    firstOfEach (· == ·) ((os.foldl (fun ms o => assign o ms) ms).map (·.spec.path)) =
      firstOfEach (· == ·) (ms.map (·.spec.path) ++ os.map (·.spec.path)) := by
  induction os using List.reverseRecOn with
  | nil => rw [List.foldl_nil, List.map_nil, List.append_nil]
  | append_singleton os o ih =>
      have hmem : o.spec.path ∈ (os.foldl (fun ms o => assign o ms) ms).map (·.spec.path) ↔
          o.spec.path ∈ ms.map (·.spec.path) ++ os.map (·.spec.path) := by
        rw [← mem_firstOfEach_iff, ih, mem_firstOfEach_iff]
      rw [List.foldl_append, List.foldl_cons, List.foldl_nil, paths_assign, List.map_append,
        ← List.append_assoc, List.map_singleton]
      by_cases hold : o.spec.path ∈ ms.map (·.spec.path) ++ os.map (·.spec.path)
      · rw [if_pos (hmem.2 hold), ih, firstOfEach_append_of_mem hold]
      · have hfresh : ∀ l : List String, o.spec.path ∉ l → ∀ q ∈ l, (q == o.spec.path) = false := by
          intro l hl q hq
          rw [beq_eq_false_iff_ne]
          rintro rfl
          exact hl hq
        rw [if_neg (mt hmem.1 hold), Scope.firstOfEach_append (hfresh _ (mt hmem.1 hold)), ih,
          Scope.firstOfEach_append (hfresh _ hold)]

/-- The table that the first module with a path has for itself, if there is a module. -/
def ownTable? (p : String) (ms : List Member) : Option (Option Flag.Table) :=
  (ms.find? (·.spec.path == p)).map (·.table)

theorem ownTable?_assign :
    ownTable? p (assign o ms) = if o.spec.path = p then some (some o.table) else ownTable? p ms := by
  induction ms with
  | nil =>
      by_cases ho : o.spec.path = p <;> simp [ownTable?, assign, ho]
  | cons m rest ih =>
      rw [assign]
      by_cases hm : m.spec.path = o.spec.path
      · by_cases ho : o.spec.path = p <;> simp [ownTable?, hm, ho]
      · rw [if_neg (by simpa using hm)]
        by_cases hp : m.spec.path = p
        · have ho : o.spec.path ≠ p := fun ho => hm (hp.trans ho.symm)
          simp [ownTable?, hp, ho]
        · have hskip : ∀ l, ownTable? p (m :: l) = ownTable? p l := by
            intro l
            rw [ownTable?, List.find?_cons_of_neg (by simpa using hp), ownTable?]
          rw [hskip, hskip, ih]

/-- Whether an item is the last one of a list that names a path. -/
def IsLast (p item : String) (items : List String) : Prop :=
  ∃ earlier later, items = earlier ++ item :: later ∧ itemPath item = p ∧
    ∀ other ∈ later, itemPath other ≠ p

theorem IsLast.unique {item' : String} (h : IsLast p item items) (h' : IsLast p item' items) :
    item = item' := by
  obtain ⟨earlier, later, rfl, hitem, hlater⟩ := h
  obtain ⟨earlier', later', heq, hitem', hlater'⟩ := h'
  rcases List.append_eq_append_iff.1 heq with ⟨more, -, hmore⟩ | ⟨more, -, hmore⟩
  · cases more with
    | nil => exact (List.cons.inj hmore).1
    | cons first more =>
        obtain ⟨rfl, rfl⟩ := List.cons.inj hmore
        exact absurd hitem' (hlater item' (by simp))
  · cases more with
    | nil => exact (List.cons.inj hmore).1.symm
    | cons first more =>
        obtain ⟨rfl, rfl⟩ := List.cons.inj hmore
        exact absurd hitem (hlater' item (by simp))

/-- A module gets the table of the last item that names it, and keeps what it has if none does. -/
theorem ownTable?_foldl_assign
    (h : List.Forall₂ (fun item o => readOverride t item = .ok o) items os) :
    ((∀ item ∈ items, itemPath item ≠ p) ∧
        ownTable? p (os.foldl (fun ms o => assign o ms) ms) = ownTable? p ms) ∨
      ∃ item table, IsLast p item items ∧ loadTable t (itemFile item) = .ok table ∧
        ownTable? p (os.foldl (fun ms o => assign o ms) ms) = some (some table) := by
  induction h generalizing ms with
  | nil => exact .inl ⟨fun _ hitem => (List.not_mem_nil hitem).elim, rfl⟩
  | @cons item o items os hread _ ih =>
      obtain ⟨hpath, htable⟩ := readOverride_spec hread
      rw [List.foldl_cons]
      rcases @ih (assign o ms) with ⟨hnone, hown⟩ |
        ⟨last, table, ⟨earlier, later, rfl, hlast⟩, hload, hown⟩
      · by_cases hp : itemPath item = p
        · refine .inr ⟨item, o.table, ⟨[], items, rfl, hp, hnone⟩, htable, ?_⟩
          rw [hown, ownTable?_assign, if_pos (hpath.trans hp)]
        · refine .inl ⟨List.forall_mem_cons.2 ⟨hp, hnone⟩, ?_⟩
          rw [hown, ownTable?_assign, if_neg (by rwa [hpath])]
      · exact .inr ⟨last, table, ⟨item :: earlier, later, rfl, hlast⟩, hload, hown⟩

/-! ## The modules of a run -/

theorem loadModules_eq_ok (h : loadModules t specs items default = .ok s) :
    ∃ parsed os, Spec.parseList specs = .ok parsed ∧
      List.Forall₂ (fun item o => readOverride t item = .ok o) items os ∧
      s = .ofList (os.foldl (fun ms o => assign o ms) (parsed.map fun spec => ⟨spec, none⟩))
        default := by
  unfold loadModules at h
  split at h
  · cases h
  rename_i parsed hparsed
  split at h
  · cases h
  rename_i os hos
  cases h
  exact ⟨parsed, os, hparsed, Spec.mapM_eq_ok_iff.1 hos, rfl⟩

theorem paths_ofList : (Tracked.Set.ofList ms default).paths =
    firstOfEach (· == ·) (ms.map (·.spec.path)) :=
  firstOfEach_map fun m : Member => m.spec.path

/-- The modules that are loaded are those that are mentioned, first mentions counting. -/
theorem paths_of_loaded (default : Flag.Table) {parsed : List Spec}
    (hparsed : Spec.parseList specs = .ok parsed)
    (hread : List.Forall₂ (fun item o => readOverride t item = .ok o) items os) :
    (Tracked.Set.ofList (os.foldl (fun ms o => assign o ms)
        (parsed.map fun spec => ⟨spec, none⟩)) default).paths =
      firstOfEach (· == ·) (mentioned specs items) := by
  have hitems : os.map (·.spec.path) = items.map itemPath := by
    clear hparsed
    induction hread with
    | nil => rfl
    | cons h _ ih => rw [List.map_cons, List.map_cons, ih, (readOverride_spec h).1]
  have hspecs : (parsed.map fun spec => (⟨spec, none⟩ : Member)).map (·.spec.path) =
      (Spec.items specs).map namedPath := by
    rw [List.map_map]
    exact paths_of_parseList hparsed
  rw [paths_ofList, paths_foldl_assign, hspecs, hitems, mentioned]

/-- The paths of a set, which are different, tell where its modules are. -/
theorem find?_eq_some_iff (h : s.paths.Nodup) :
    s.find? p = some place ↔ s.paths[place]? = some p := by
  constructor
  · intro hfind
    rw [← Tracked.Set.path?_eq]
    exact Tracked.Set.path?_of_find? hfind
  · intro hget
    obtain ⟨hlt, hget⟩ := List.getElem?_eq_some_iff.1 hget
    refine List.idxOf?_eq_some_iff.2 ⟨hlt, hget, fun j hj hsame => ?_⟩
    exact Nat.ne_of_lt hj (h.getElem_inj_iff.1 (hsame.trans hget.symm))

/-- The module that is found by its path has its own table, or else the default one. -/
theorem table?_of_find? (h : (Tracked.Set.ofList ms default).find? p = some place) :
    ∃ own, ownTable? p ms = some own ∧
      (Tracked.Set.ofList ms default).table? place = some (own.getD default) := by
  obtain ⟨hlt, hget, hfirst⟩ := List.idxOf?_eq_some_iff.1 h
  have hlt' : place < (Tracked.Set.ofList ms default).members.length := by
    simpa [Tracked.Set.paths] using hlt
  have hfound : (Tracked.Set.ofList ms default).members.find? (·.spec.path == p) =
      some (Tracked.Set.ofList ms default).members[place] := by
    refine List.find?_eq_some_iff_getElem.2 ⟨?_, place, hlt', rfl, fun j hj => ?_⟩
    · simpa [Tracked.Set.paths] using hget
    · simpa [Tracked.Set.paths] using hfirst j hj
  have hown : (Tracked.Set.ofList ms default).members.find? (·.spec.path == p) =
      ms.find? (·.spec.path == p) :=
    firstOfEach_find? fun m : Member => m.spec.path
  refine ⟨(Tracked.Set.ofList ms default).members[place].table, ?_, ?_⟩
  · rw [ownTable?, ← hown, hfound, Option.map_some]
  · rw [Tracked.Set.table?, List.getElem?_eq_getElem hlt']
    rfl

theorem ownTable?_of_specs {parsed : List Spec} {own : Option Flag.Table}
    (h : ownTable? p (parsed.map fun spec => ⟨spec, none⟩) = some own) : own = none := by
  obtain ⟨m, hfind, rfl⟩ := Option.map_eq_some_iff.1 h
  obtain ⟨spec, -, rfl⟩ := List.mem_map.1 (List.mem_of_find?_eq_some hfind)
  rfl

/-- The modules that are loaded have different paths, which are those that the specs and then the items
mention, in the order of the first mentions.  A module is found by its path.  It has the table of the
last item that names it, or the default one if none does. -/
theorem loadModules_assigns (h : loadModules t specs items default = .ok s) :
    s.paths.Nodup ∧ (∀ p, p ∈ s.paths ↔ p ∈ mentioned specs items) ∧
      s.paths.Pairwise
        (fun p q => (mentioned specs items).idxOf p < (mentioned specs items).idxOf q) ∧
      (∀ p place, s.find? p = some place ↔ s.paths[place]? = some p) ∧
      ∀ p place, s.find? p = some place →
        ((∀ item ∈ items, itemPath item ≠ p) → s.table? place = some default) ∧
          ∀ item, IsLast p item items →
            ∃ table, loadTable t (itemFile item) = .ok table ∧ s.table? place = some table := by
  obtain ⟨parsed, os, hparsed, hread, rfl⟩ := loadModules_eq_ok h
  have hpaths := paths_of_loaded default hparsed hread
  have hordered : (firstOfEach (· == ·) (mentioned specs items)).Pairwise
      fun p q => (mentioned specs items).idxOf p < (mentioned specs items).idxOf q :=
    pairwise_firstOfEach
  have hnodup : (firstOfEach (· == ·) (mentioned specs items)).Nodup := by
    refine hordered.imp ?_
    rintro p _ hlt rfl
    exact Nat.lt_irrefl _ hlt
  rw [← hpaths] at hordered hnodup
  refine ⟨hnodup, fun p => ?_, hordered, fun p place => find?_eq_some_iff hnodup, ?_⟩
  · rw [hpaths, mem_firstOfEach_iff]
  intro p place hfind
  obtain ⟨own, hown, htable⟩ := table?_of_find? hfind
  rcases ownTable?_foldl_assign (p := p) hread with
    ⟨hnone, hkept⟩ | ⟨last, table, hlast, hload, hgiven⟩
  · rw [hkept] at hown
    obtain rfl := ownTable?_of_specs hown
    refine ⟨fun _ => htable, ?_⟩
    rintro item ⟨earlier, later, rfl, hitem, -⟩
    exact absurd hitem (hnone item (by simp))
  · rw [hgiven] at hown
    cases hown
    refine ⟨fun hnone => ?_, fun item hitem => ?_⟩
    · obtain ⟨earlier, later, rfl, hnamed, -⟩ := hlast
      exact absurd hnamed (hnone last (by simp))
    · obtain rfl := hlast.unique hitem
      exact ⟨table, hload, htable⟩

/-- A tree with two tables. -/
def tablesTree : Files.Tree :=
  ⟨.directory
    [("a.json", .file ⟨Text.bytes "{}", true, true⟩),
      ("b.json", .file ⟨Text.bytes "\x7b\"ls\": \x7b\"sl\": \"selection\"\x7d\x7d", true, true⟩)], []⟩

def tablesItems : List String :=
  ["maya.cmds=b.json", "extra:cmds = b.json", "maya:cmds=a.json"]

/-- A module that the specs mention twice and the items twice, in both spellings, one that no item
mentions, and one that an item adds. -/
theorem loadModules_assigns_respelled :
    ∃ s, loadModules tablesTree " maya:cmds, studio.tools.cmds,maya.cmds," tablesItems .empty =
        .ok s ∧
      s.paths = ["maya.cmds", "studio.tools.cmds", "extra.cmds"] ∧ s.paths.Nodup ∧
      (∃ table, loadTable tablesTree "a.json" = .ok table ∧ s.table? 0 = some table) ∧
      s.table? 1 = some .empty ∧
      ∃ table, loadTable tablesTree "b.json" = .ok table ∧ s.table? 2 = some table := by
  have hrun : (loadModules tablesTree " maya:cmds, studio.tools.cmds,maya.cmds," tablesItems
      .empty).toOption.map (·.paths) = some ["maya.cmds", "studio.tools.cmds", "extra.cmds"] := by
    decide +kernel
  obtain ⟨s, hs, hpaths⟩ := Option.map_eq_some_iff.1 hrun
  have hload : loadModules tablesTree " maya:cmds, studio.tools.cmds,maya.cmds," tablesItems
      .empty = .ok s := by
    revert hs
    cases loadModules tablesTree " maya:cmds, studio.tools.cmds,maya.cmds," tablesItems .empty with
    | error e => exact fun hs => nomatch hs
    | ok s' => exact fun hs => congrArg _ (Option.some.inj hs)
  obtain ⟨hother, hfileA, hfileB⟩ : (∀ item ∈ tablesItems, itemPath item ≠ "studio.tools.cmds") ∧
      itemFile "maya:cmds=a.json" = "a.json" ∧ itemFile "extra:cmds = b.json" = "b.json" := by
    decide +kernel
  obtain ⟨hnodup, -, -, hfind, htables⟩ := loadModules_assigns hload
  have hplaced : ∀ place p, s.paths[place]? = some p → s.find? p = some place :=
    fun place p => (hfind p place).2
  rw [hpaths] at hplaced
  obtain ⟨a, ha, htableA⟩ := (htables _ _ (hplaced 0 _ rfl)).2 "maya:cmds=a.json"
    ⟨["maya.cmds=b.json", "extra:cmds = b.json"], [], rfl, by decide +kernel, by simp⟩
  obtain ⟨b, hb, htableB⟩ := (htables _ _ (hplaced 2 _ rfl)).2 "extra:cmds = b.json"
    ⟨["maya.cmds=b.json"], ["maya:cmds=a.json"], rfl, by decide +kernel, by decide +kernel⟩
  rw [hfileA] at ha
  rw [hfileB] at hb
  exact ⟨s, hload, hpaths, hnodup, ⟨a, ha, htableA⟩, (htables _ _ (hplaced 1 _ rfl)).1 hother,
    b, hb, htableB⟩

end Config

end Longhand
