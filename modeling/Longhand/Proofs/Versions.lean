import Longhand.Config.Version
import Longhand.Proofs.Distance
import Longhand.Proofs.ModuleTables
import Mathlib.Data.List.MinMax
import Mathlib.Data.Prod.Lex
import Mathlib.Data.String.Basic
import Mathlib.Order.Lex

/-!
# The choice of a version

Versions are ranked by the runs of digits in them, and by their text where these are equal.  This is
a strict order of all texts, so the versions of a directory are the same list in whatever order its
entries are listed.  The highest one is chosen, or the one that is asked for.  For one that is not
there the closest one is suggested, the lowest of those that are equally close.
-/

namespace Longhand

/-- A name is cut at its last dot, unless there is nothing in front of that. -/
theorem Files.splitName?_eq_some_iff {name stem extension : String} :
    splitName? name = some (stem, extension) ↔
      stem ≠ "" ∧ '.' ∉ extension.toList ∧ name = stem ++ "." ++ extension := by
  have hcut : name = stem ++ "." ++ extension ∧ '.' ∉ extension.toList ↔
      Text.cutLast? '.' name.toList = some (stem.toList, extension.toList) := by
    rw [Text.cutLast?_eq_some_iff, ← String.toList_inj]
    simp
  constructor
  · intro h
    unfold splitName? at h
    split at h
    · cases h
    · rename_i before after hbefore heq
      cases h
      obtain ⟨hname, hdot⟩ := hcut.2 (by simpa using heq)
      exact ⟨by simpa using hbefore, hdot, hname⟩
    · cases h
  · rintro ⟨hne, hdot, hname⟩
    rw [splitName?, hcut.1 ⟨hname, hdot⟩]
    split
    · rename_i heq
      simp [hne] at heq
    · rename_i heq
      cases heq
      simp
    · rename_i heq
      cases heq

namespace Config

variable {t u : Files.Tree} {directory name version v a b : String} {c : Versioned}
  {configs : List Versioned} {entries entries' : List (String × Files.Entry)}

/-! ### The order of versions -/

/-- The number that some digits continue. -/
def digitsFrom (number : Nat) (run : List Char) : Nat :=
  run.foldl (fun n c => n * 10 + (c.toNat - '0'.toNat)) number

/-- The number that a run of digits stands for, large ones being equal to the limit. -/
def runValue (run : List Char) : Nat :=
  min (digitsFrom 0 run) numberLimit

/-- The values of the runs of digits between other characters. -/
def runValues (version : String) : List Nat :=
  ((version.toList.splitOnP (!·.isDigit)).filter (!·.isEmpty)).map runValue

/-- What versions are ordered by: the values of their runs of digits, then their text. -/
def rank (version : String) : List Nat ×ₗ String :=
  toLex (runValues version, version)

theorem numbersFrom_eq (cs : List Char) : ∃ first rest,
    cs.splitOnP (!·.isDigit) = first :: rest ∧
      numbersFrom none cs = ((first :: rest).filter (!·.isEmpty)).map runValue ∧
      ∀ n, numbersFrom (some (min n numberLimit)) cs =
        min (digitsFrom n first) numberLimit :: (rest.filter (!·.isEmpty)).map runValue := by
  -- The last part is about a text behind digits that stand for a number; the run goes on there.
  induction cs with
  | nil => exact ⟨[], [], rfl, rfl, fun n => rfl⟩
  | cons c cs ih =>
      obtain ⟨first, rest, hsplit, hnone, hsome⟩ := ih
      rw [List.splitOnP_cons_eq_if_modifyHead, hsplit]
      by_cases hc : c.isDigit
      · refine ⟨c :: first, rest, by simp [hc], ?_, fun n => ?_⟩
        · rw [numbersFrom, if_pos hc, hsome]
          rfl
        · -- A number above the limit may be cut down to it before or after the next digit.
          have hcap : ∀ d, min (min n numberLimit * 10 + d) numberLimit =
              min (n * 10 + d) numberLimit := by
            intro d
            omega
          rw [numbersFrom, if_pos hc, Option.getD_some, hcap, hsome]
          rfl
      · refine ⟨[], first :: rest, by simp [hc], ?_, fun n => ?_⟩
        · rw [numbersFrom, if_neg hc, hnone]
          rfl
        · rw [numbersFrom, if_neg hc, hnone]
          rfl

theorem numbers_eq (version : String) : numbers version = runValues version := by
  obtain ⟨first, rest, hsplit, hnone, -⟩ := numbersFrom_eq version.toList
  rw [numbers, hnone, runValues, hsplit]

theorem compareLists_eq_eq_iff {l l' : List Nat} : compareLists compare l l' = .eq ↔ l = l' := by
  induction l generalizing l' with
  | nil => cases l' <;> simp [compareLists]
  | cons n rest ih =>
      cases l' with
      | nil => simp [compareLists]
      | cons m rest' => simp [compareLists, Ordering.then_eq_eq, ih]

theorem compareLists_eq_gt_iff {l l' : List Nat} : compareLists compare l l' = .gt ↔ l' < l := by
  induction l generalizing l' with
  | nil => cases l' <;> simp [compareLists]
  | cons n rest ih =>
      cases l' with
      | nil => simp [compareLists]
      | cons m rest' =>
          rw [compareLists, Ordering.then_eq_gt, ih, List.cons_lt_cons_iff, Nat.compare_eq_gt,
            Nat.compare_eq_eq, eq_comm (a := n)]

theorem compareVersions_eq_gt_iff : compareVersions a b = .gt ↔ rank b < rank a := by
  rw [compareVersions, Ordering.then_eq_gt, compareLists_eq_gt_iff, compareLists_eq_eq_iff,
    numbers_eq, numbers_eq, rank, rank, Prod.Lex.toLex_lt_toLex, eq_comm (a := runValues a)]
  rw [show compare a b = .gt ↔ b < a from compare_gt_iff_gt]

theorem compareVersions_ne_gt_iff : (compareVersions a b != .gt) = true ↔ rank a ≤ rank b := by
  rw [bne_iff_ne, Ne, compareVersions_eq_gt_iff, not_lt]

theorem rank_injective : Function.Injective rank :=
  fun _ _ h => (Prod.mk.inj (toLex.injective h)).2

/-! ### The versions of a directory -/

/-- The extensions of files with tables. -/
def extensions : List String := ["json", "yaml", "yml"]

/-- A file in a directory holds the table of a version: it is named after the version, with one of
the extensions of tables. -/
structure IsTable (directory : String) (entries : List (String × Files.Entry)) (c : Versioned) :
    Prop where
  named : c.version ≠ ""
  listed : ∃ extension ∈ extensions, ∃ f,
    (c.version ++ "." ++ extension, Files.Entry.file f) ∈ entries ∧
      c.path = Files.join directory (c.version ++ "." ++ extension)

/-- The tables in the order in which they are listed. -/
def found (directory : String) (entries : List (String × Files.Entry)) : List Versioned :=
  entries.filterMap fun (name, e) =>
    if e.isDirectory then none
    else (version? name).map fun version => ⟨version, Files.join directory name⟩

/-- The tables of different versions from the lowest to the highest one. -/
def ordered (l : List Versioned) : List Versioned :=
  stableSort (fun a b => compareVersions a.version b.version != .gt)
    (firstOfEach (fun a b => a.version == b.version) l)

theorem available_of_list (h : t.list directory = .ok entries) :
    available t directory = .ok (ordered (found directory entries)) := by
  rw [available, h]
  rfl

theorem version?_eq_some_iff :
    version? name = some v ↔ v ≠ "" ∧ ∃ extension ∈ extensions, name = v ++ "." ++ extension := by
  have hcut : version? name = some v ↔
      ∃ extension ∈ extensions, Files.splitName? name = some (v, extension) := by
    rw [version?]
    split <;> simp_all [extensions]
  have hdot : ∀ extension ∈ extensions, '.' ∉ extension.toList := by decide
  rw [hcut]
  constructor
  · rintro ⟨extension, hextension, hname⟩
    obtain ⟨hne, -, rfl⟩ := Files.splitName?_eq_some_iff.1 hname
    exact ⟨hne, extension, hextension, rfl⟩
  · rintro ⟨hne, extension, hextension, hname⟩
    exact ⟨extension, hextension,
      Files.splitName?_eq_some_iff.2 ⟨hne, hdot extension hextension, hname⟩⟩

theorem mem_found_iff : c ∈ found directory entries ↔ IsTable directory entries c := by
  rw [found, List.mem_filterMap]
  constructor
  · rintro ⟨⟨name, e⟩, hmem, he⟩
    cases e with
    | directory => simp [Files.Entry.isDirectory] at he
    | file f =>
        obtain ⟨version, hversion, rfl⟩ := Option.map_eq_some_iff.1 he
        obtain ⟨hne, extension, hextension, rfl⟩ := version?_eq_some_iff.1 hversion
        exact ⟨hne, extension, hextension, f, hmem, rfl⟩
  · rintro ⟨hne, extension, hextension, f, hmem, hpath⟩
    refine ⟨_, hmem, ?_⟩
    have hversion := version?_eq_some_iff.2 ⟨hne, extension, hextension, rfl⟩
    simp only [Files.Entry.isDirectory, hversion, ← hpath]
    rfl

variable {l l' : List Versioned}

theorem mem_ordered_iff (h : ∀ a ∈ l, ∀ b ∈ l, a.version = b.version → a = b) :
    c ∈ ordered l ↔ c ∈ l := by
  rw [ordered, mem_stableSort]
  refine ⟨Scope.mem_of_mem_firstOfEach, fun hc => ?_⟩
  have hversion : c.version ∈ (firstOfEach (fun a b => a.version == b.version) l).map
      Versioned.version := by
    rw [firstOfEach_map, mem_firstOfEach_iff]
    exact List.mem_map_of_mem hc
  obtain ⟨d, hd, heq⟩ := List.mem_map.1 hversion
  rwa [h c hc d (Scope.mem_of_mem_firstOfEach hd) heq.symm]

/-- The versions ascend strictly. -/
theorem pairwise_ordered (l : List Versioned) :
    (ordered l).Pairwise fun a b => rank a.version < rank b.version := by
  have htotal : ∀ a b : Versioned, (compareVersions a.version b.version != .gt) = true ∨
      (compareVersions b.version a.version != .gt) = true := by
    intro a b
    rw [compareVersions_ne_gt_iff, compareVersions_ne_gt_iff]
    exact le_total _ _
  have htrans : ∀ a b c : Versioned, (compareVersions a.version b.version != .gt) = true →
      (compareVersions b.version c.version != .gt) = true →
      (compareVersions a.version c.version != .gt) = true := by
    intro a b c
    rw [compareVersions_ne_gt_iff, compareVersions_ne_gt_iff, compareVersions_ne_gt_iff]
    exact le_trans
  have hsorted :=
    stableSort_pairwise htotal htrans (firstOfEach (fun a b => a.version == b.version) l)
  have hdistinct : ((ordered l).map Versioned.version).Nodup := by
    rw [ordered, ((stableSort_perm _ _).map _).nodup_iff, firstOfEach_map]
    refine pairwise_firstOfEach.imp fun hlt heq => ?_
    rw [heq] at hlt
    exact lt_irrefl _ hlt
  -- Of two texts with the same rank only one is listed.
  refine (hsorted.and (List.pairwise_map.1 hdistinct)).imp fun ⟨hle, hne⟩ => ?_
  exact lt_of_le_of_ne (compareVersions_ne_gt_iff.1 hle) fun heq => hne (rank_injective heq)

theorem nodup_ordered (l : List Versioned) : (ordered l).Nodup := by
  refine (pairwise_ordered l).imp fun {a b} hlt heq => ?_
  rw [heq] at hlt
  exact lt_irrefl _ hlt

/-- The order in which tables of different versions are listed does not count. -/
theorem ordered_congr (h : ∀ a ∈ l, ∀ b ∈ l, a.version = b.version → a = b)
    (hmem : ∀ c, c ∈ l' ↔ c ∈ l) : ordered l' = ordered l := by
  have h' : ∀ a ∈ l', ∀ b ∈ l', a.version = b.version → a = b := fun a ha b hb =>
    h a ((hmem a).1 ha) b ((hmem b).1 hb)
  refine List.Perm.eq_of_pairwise (fun a b _ _ hab hba => absurd hab hba.not_gt)
    (pairwise_ordered l') (pairwise_ordered l) ?_
  refine (List.perm_ext_iff_of_nodup (nodup_ordered l') (nodup_ordered l)).2 fun c => ?_
  rw [mem_ordered_iff h, mem_ordered_iff h', hmem]

/-! ### The version that is chosen -/

/-- What is suggested for a version that is not there: one at the least distance, which is three at
most, and the lowest of those. -/
inductive Suggests (v : String) (versions : List String) : Option String → Prop
  | closest {b : String} {n : Nat} (hb : b ∈ versions)
      (hn : Text.IsDistance v.toList b.toList n) (hle : n ≤ 3)
      (hleast : ∀ c ∈ versions, ∀ m, Text.IsDistance v.toList c.toList m →
        n < m ∨ n = m ∧ rank b ≤ rank c) : Suggests v versions (some b)
  | none (hfar : ∀ c ∈ versions, ∀ n, Text.IsDistance v.toList c.toList n → 3 < n) :
      Suggests v versions none

/-- In a sorted list what comes first is lower. -/
theorem rank_le_of_idxOf_le {versions : List String}
    (hsorted : versions.Pairwise fun a b => rank a < rank b) (ha : a ∈ versions) (hb : b ∈ versions)
    (hle : versions.idxOf a ≤ versions.idxOf b) : rank a ≤ rank b := by
  rcases Nat.lt_or_eq_of_le hle with hlt | heq
  · have hpair := List.pairwise_iff_getElem.1 hsorted _ _ (List.idxOf_lt_length_of_mem ha)
      (List.idxOf_lt_length_of_mem hb) hlt
    rw [List.getElem_idxOf, List.getElem_idxOf] at hpair
    exact hpair.le
  · rw [(List.idxOf_inj ha).1 heq]

theorem suggestion?_eq (v : String) (versions : List String) :
    suggestion? v versions =
      (versions.filter fun c => Text.distance v.toList c.toList ≤ suggestionLimit).argmin
        fun c => Text.distance v.toList c.toList := by
  rw [suggestion?, List.argmin]
  congr
  funext best c
  cases best <;> rfl

theorem suggests_suggestion? {versions : List String}
    (hsorted : versions.Pairwise fun a b => rank a < rank b) :
    Suggests v versions (suggestion? v versions) := by
  have hdistance : ∀ {c : String} {n : Nat}, Text.IsDistance v.toList c.toList n →
      n = Text.distance v.toList c.toList :=
    fun h => h.unique (Text.isDistance_distance _ _)
  cases hs : suggestion? v versions with
  | none =>
      rw [suggestion?_eq, List.argmin_eq_none, List.filter_eq_nil_iff] at hs
      refine .none fun c hc n hn => ?_
      have hfar : suggestionLimit < Text.distance v.toList c.toList := by simpa using hs c hc
      rwa [hdistance hn]
  | some b =>
      rw [suggestion?_eq, ← Option.mem_def, List.mem_argmin_iff] at hs
      obtain ⟨hb, hleast, hfirst⟩ := hs
      obtain ⟨hbmem, hclose⟩ := List.mem_filter.1 hb
      have hclose : Text.distance v.toList b.toList ≤ 3 := of_decide_eq_true hclose
      refine .closest hbmem (Text.isDistance_distance _ _) hclose fun c hc m hm => ?_
      rw [hdistance hm]
      by_cases hfar : 3 < Text.distance v.toList c.toList
      · exact .inl (lt_of_le_of_lt hclose hfar)
      · have hcmem : c ∈ versions.filter fun c =>
            Text.distance v.toList c.toList ≤ suggestionLimit :=
          List.mem_filter.2 ⟨hc, decide_eq_true (not_lt.1 hfar)⟩
        -- Of equally close versions the first one is taken, which has the lowest rank.
        refine (hleast c hcmem).lt_or_eq.imp_right fun heq => ⟨heq, ?_⟩
        exact rank_le_of_idxOf_le (hsorted.filter _) hb hcmem (hfirst c hcmem heq.ge)

/-- What is chosen from the tables of a directory, given from the lowest to the highest version. -/
structure Chooses (t : Files.Tree) (directory : String) (configs : List Versioned) : Prop where
  listed : available t directory = .ok configs
  highest : ∀ c, resolve t directory none = .ok c ↔
    c ∈ configs ∧ ∀ d ∈ configs, rank d.version ≤ rank c.version
  asked : ∀ v c, resolve t directory (some v) = .ok c ↔ c ∈ configs ∧ c.version = v
  unknown : ∀ v, configs ≠ [] → (∀ c ∈ configs, c.version ≠ v) →
    ∃ suggestion, Suggests v (configs.map (·.version)) suggestion ∧
      resolve t directory (some v) =
        .error (.unknownVersion v (configs.map (·.version)) suggestion)
  nothing : configs = [] → ∀ version, resolve t directory version = .error (.noConfigs directory)

/-- The last of a sorted list is the highest one. -/
theorem getLast?_eq_some_iff_highest (hsorted : configs.Pairwise fun a b =>
    rank a.version < rank b.version) :
    configs.getLast? = some c ↔ c ∈ configs ∧ ∀ d ∈ configs, rank d.version ≤ rank c.version := by
  constructor
  · intro h
    obtain ⟨front, rfl⟩ := List.getLast?_eq_some_iff.1 h
    refine ⟨by simp, fun d hd => ?_⟩
    rcases List.mem_append.1 hd with hd | hd
    · exact ((List.pairwise_append.1 hsorted).2.2 d hd c (by simp)).le
    · rw [List.mem_singleton.1 hd]
  · rintro ⟨hc, hhighest⟩
    obtain ⟨front, last, rfl⟩ :=
      (List.eq_nil_or_concat' configs).resolve_left (List.ne_nil_of_mem hc)
    rcases List.mem_append.1 hc with hfront | hlast
    · have hlt := (List.pairwise_append.1 hsorted).2.2 c hfront last (by simp)
      exact absurd (hhighest last (by simp)) hlt.not_ge
    · rw [List.mem_singleton.1 hlast, List.getLast?_concat]

theorem resolve_of_nil (hlisted : available t directory = .ok []) (version : Option String) :
    resolve t directory version = .error (.noConfigs directory) := by
  rw [resolve, hlisted]
  rfl

theorem resolve_none (hlisted : available t directory = .ok configs) :
    resolve t directory none = configs.getLast?.elim (.error (.noConfigs directory)) .ok := by
  rw [resolve, hlisted]
  cases hlast : configs.getLast? <;> simp [hlast]

theorem resolve_some (hlisted : available t directory = .ok configs) (hne : configs ≠ []) :
    resolve t directory (some v) = (configs.find? (·.version == v)).elim
      (.error (.unknownVersion v (configs.map (·.version))
        (suggestion? v (configs.map (·.version))))) .ok := by
  obtain ⟨highest, hlast⟩ := Option.ne_none_iff_exists'.1 (mt List.getLast?_eq_none_iff.1 hne)
  rw [resolve, hlisted]
  cases hfound : configs.find? (·.version == v) <;> simp [hlast, hfound]

/-- Each version is looked up where it is listed. -/
theorem find?_eq_some_iff_version (hsorted : configs.Pairwise fun a b =>
    rank a.version < rank b.version) :
    configs.find? (·.version == v) = some c ↔ c ∈ configs ∧ c.version = v := by
  have hnodup : (configs.map Versioned.version).Nodup :=
    List.pairwise_map.2 (hsorted.imp fun hlt heq => hlt.ne (congrArg rank heq))
  constructor
  · intro h
    exact ⟨List.mem_of_find?_eq_some h, by simpa using List.find?_some h⟩
  · rintro ⟨hc, hversion⟩
    cases hfound : configs.find? (·.version == v) with
    | none => exact absurd hversion (by simpa using List.find?_eq_none.1 hfound c hc)
    | some d =>
        have hd : d.version = v := by simpa using List.find?_some hfound
        rw [List.inj_on_of_nodup_map hnodup (List.mem_of_find?_eq_some hfound) hc
          (hd.trans hversion.symm)]

theorem chooses_of_available (hlisted : available t directory = .ok configs)
    (hsorted : configs.Pairwise fun a b => rank a.version < rank b.version) :
    Chooses t directory configs where
  listed := hlisted
  highest c := by
    rw [resolve_none hlisted, ← getLast?_eq_some_iff_highest hsorted]
    cases configs.getLast? <;> simp
  asked v c := by
    rw [← find?_eq_some_iff_version hsorted]
    by_cases hne : configs = []
    · subst hne
      simp [resolve_of_nil hlisted]
    · rw [resolve_some hlisted hne]
      cases configs.find? (·.version == v) <;> simp
  unknown v hne hunknown := by
    have hnone : configs.find? (·.version == v) = none :=
      List.find?_eq_none.2 fun c hc => by simpa using hunknown c hc
    refine ⟨_, suggests_suggestion? (List.pairwise_map.2 hsorted), ?_⟩
    rw [resolve_some hlisted hne, hnone]
    rfl
  nothing hnil version := resolve_of_nil (hnil ▸ hlisted) version

/-- The tables of a directory with pairwise different versions are available in the order of their
ranks, in whatever order they are listed, and the choice is made from this list. -/
theorem choice_in_any_order
    (hdistinct : ∀ a b, IsTable directory entries a → IsTable directory entries b →
      a.version = b.version → a = b) :
    ∃ configs, (∀ c, c ∈ configs ↔ IsTable directory entries c) ∧
      (configs.Pairwise fun a b => rank a.version < rank b.version) ∧
      ∀ t entries', t.list directory = .ok entries' → entries'.Perm entries →
        Chooses t directory configs := by
  have hfound : ∀ a ∈ found directory entries, ∀ b ∈ found directory entries,
      a.version = b.version → a = b := by
    intro a ha b hb
    exact hdistinct a b (mem_found_iff.1 ha) (mem_found_iff.1 hb)
  refine ⟨ordered (found directory entries), fun c => ?_, pairwise_ordered _, ?_⟩
  · rw [mem_ordered_iff hfound, mem_found_iff]
  · intro t entries' hlist hperm
    refine chooses_of_available ?_ (pairwise_ordered _)
    have hmem : ∀ c, c ∈ found directory entries' ↔ c ∈ found directory entries :=
      fun c => (hperm.filterMap _).mem_iff
    rw [available_of_list hlist, ordered_congr hfound hmem]

/-- Files in a directory: two versions with numbers above the limit, one with zeros in front, and
files and directories that are no tables. -/
def shelf : List (String × Files.Entry) :=
  [("99999999999999999999.yml", .file ⟨[], true, true⟩), ("notes.txt", .file ⟨[], true, true⟩),
    ("2020.1.json", .file ⟨[], true, true⟩), ("2019.json", .directory []),
    ("18446744073709551615.json", .file ⟨[], true, true⟩), ("009.yaml", .file ⟨[], true, true⟩),
    (".json", .file ⟨[], true, true⟩)]

/-- Numbers above the limit are equal, so that the text decides. -/
theorem choice_in_any_order_above_limit :
    (∀ a b, IsTable "d" shelf a → IsTable "d" shelf b → a.version = b.version → a = b) ∧
      ∀ entries ∈ [shelf, shelf.reverse],
        Chooses ⟨.directory [("d", .directory entries)], []⟩ "d"
          [⟨"009", "d/009.yaml"⟩, ⟨"2020.1", "d/2020.1.json"⟩,
            ⟨"18446744073709551615", "d/18446744073709551615.json"⟩,
            ⟨"99999999999999999999", "d/99999999999999999999.yml"⟩] := by
  have hfound : ∀ a ∈ found "d" shelf, ∀ b ∈ found "d" shelf, a.version = b.version → a = b := by
    decide +kernel
  have hdistinct : ∀ a b, IsTable "d" shelf a → IsTable "d" shelf b → a.version = b.version →
      a = b :=
    fun a b ha hb => hfound a (mem_found_iff.2 ha) b (mem_found_iff.2 hb)
  refine ⟨hdistinct, fun entries hentries => ?_⟩
  have hperm : entries.Perm shelf := by
    rcases List.mem_pair.1 hentries with rfl | rfl
    · exact .refl _
    · exact List.reverse_perm _
  obtain ⟨configs, -, -, hchoice⟩ := choice_in_any_order hdistinct
  have hlist : ∀ entries, (⟨.directory [("d", .directory entries)], []⟩ : Files.Tree).list "d" =
      .ok entries := fun _ => rfl
  have hlisted := (hchoice _ _ (hlist shelf) (.refl _)).listed
  have hconfigs : configs = ordered (found "d" shelf) := by
    rw [available_of_list (hlist shelf)] at hlisted
    exact (Except.ok.inj hlisted).symm
  have hordered : ordered (found "d" shelf) =
      [⟨"009", "d/009.yaml"⟩, ⟨"2020.1", "d/2020.1.json"⟩,
        ⟨"18446744073709551615", "d/18446744073709551615.json"⟩,
        ⟨"99999999999999999999", "d/99999999999999999999.yml"⟩] := by
    decide +kernel
  rw [← hordered, ← hconfigs]
  exact hchoice _ entries (hlist entries) hperm

end Config

end Longhand
