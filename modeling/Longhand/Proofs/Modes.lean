import Longhand.Proofs.Changed
import Longhand.Proofs.Parallel
import Longhand.Proofs.Utf8
import Longhand.Run.Summary

/-!
# Runs that write and runs that only report

Whatever a run is asked for, it judges its files alike, so its totals and its exit code are the same.
A run that is to check or to show diffs leaves every file as it is.  A run that is to write changes the
files that it counts as changed, and no others.
-/

namespace Longhand.Files.Tree

variable {t u : Tree} {path : String} {place : List String}

/-- The file at the place of a path is the one that the path leads to. -/
theorem file?_of_resolve (h : t.resolve path = .ok place) :
    t.root.file? place = (t.target path).toOption.map Prod.snd := by
  simp only [target, Entry.file?, h]
  cases t.root.find? place with
  | none => rfl
  | some e => cases e <;> rfl

/-- What is done at one path leaves the files at other places as they are. -/
theorem Touches.file? (h : t.Touches path u) (hplace : t.resolve path ≠ .ok place) :
    u.root.file? place = t.root.file? place := by
  cases h with
  | none => rfl
  | file hfile g =>
      obtain ⟨hpath, hfound⟩ := target_eq_ok_iff.1 hfile
      apply Entry.file?_replaceWith_ne hfound
      rintro rfl
      exact hplace hpath

/-- A file that is overwritten is found with its new contents. -/
theorem target_overwrite {f : File} (h : t.target path = .ok (place, f)) (g : File) :
    (t.overwrite place g).target path = .ok (place, g) := by
  have halike : t.Alike (t.overwrite place g) := (Touches.file h g).alike
  obtain ⟨hpath, hfound⟩ := target_eq_ok_iff.1 h
  apply target_eq_ok_iff.2
  exact ⟨(halike.resolve path).trans hpath, Entry.find?_replaceWith_self hfound g⟩

end Longhand.Files.Tree

namespace Longhand.Run

open Files (Tree File)

variable {tracked : Tracked.Set} {mode : Diff.Mode} {t u : Tree} {path other source : String}
  {paths : List String} {place : List String} {r : Rewrite} {o : Outcome} {e : FileError}

/-! ## Totals -/

/-- Whether a file failed. -/
def failed : Except FileError Outcome → Bool
  | .error _ => true
  | .ok _ => false

/-- Whether a file did not fail and has another text after its rewriting. -/
def changes : Except FileError Outcome → Bool
  | .error _ => false
  | .ok o => o.changed

/-- Whether a file did not fail and keeps its text. -/
def keeps : Except FileError Outcome → Bool
  | .error _ => false
  | .ok o => !o.changed

/-- The number of renames in a file. -/
def renameCount : Except FileError Outcome → Nat
  | .error _ => 0
  | .ok o => o.renames.length

/-- The number of conflicts in a file. -/
def conflictCount : Except FileError Outcome → Nat
  | .error _ => 0
  | .ok o => o.conflicts.length

theorem foldl_add (results : List (Except FileError Outcome)) (s : Summary) :
    (results.foldl Summary.add s).changed = s.changed + results.countP changes ∧
      (results.foldl Summary.add s).unchanged = s.unchanged + results.countP keeps ∧
      (results.foldl Summary.add s).failed = s.failed + results.countP failed ∧
      (results.foldl Summary.add s).renames = s.renames + (results.map renameCount).sum ∧
      (results.foldl Summary.add s).conflicts = s.conflicts + (results.map conflictCount).sum := by
  induction results generalizing s with
  | nil => simp
  | cons result rest ih =>
      obtain ⟨hchanged, hunchanged, hfailed, hrenames, hconflicts⟩ := ih (s.add result)
      simp only [List.foldl_cons, hchanged, hunchanged, hfailed, hrenames, hconflicts,
        List.countP_cons, List.map_cons, List.sum_cons]
      cases result with
      | error e => simp [Summary.add, changes, keeps, failed, renameCount, conflictCount]; omega
      | ok o =>
          cases hchange : o.changed <;>
            simp [Summary.add, changes, keeps, failed, renameCount, conflictCount, hchange] <;> omega

/-- Each total is the number of files, renames or conflicts that it stands for. -/
theorem summarise_eq (results : List (Except FileError Outcome)) :
    (summarise results).changed = results.countP changes ∧
      (summarise results).unchanged = results.countP keeps ∧
      (summarise results).failed = results.countP failed ∧
      (summarise results).renames = (results.map renameCount).sum ∧
      (summarise results).conflicts = (results.map conflictCount).sum := by
  simpa [summarise] using foldl_add results {}

/-- Every file is counted once. -/
theorem summarise_total (results : List (Except FileError Outcome)) :
    (summarise results).changed + (summarise results).unchanged + (summarise results).failed
      = results.length := by
  obtain ⟨hchanged, hunchanged, hfailed, -, -⟩ := summarise_eq results
  rw [hchanged, hunchanged, hfailed]
  clear hchanged hunchanged hfailed
  induction results with
  | nil => rfl
  | cons result rest ih =>
      simp only [List.countP_cons, List.length_cons]
      cases result with
      | error e => simp [changes, keeps, failed]; omega
      | ok o => cases hchange : o.changed <;> simp [changes, keeps, failed, hchange] <;> omega

/-- The exit code tells of a failed file first, and of a changed one otherwise. -/
theorem exitCode_summarise (results : List (Except FileError Outcome)) :
    (summarise results).exitCode =
      if results.any failed then 2 else if results.any changes then 1 else 0 := by
  obtain ⟨hchanged, -, hfailed, -, -⟩ := summarise_eq results
  simp only [Summary.exitCode, hchanged, hfailed, List.countP_pos_iff, List.any_eq_true]

/-! ## The verdict on a file -/

/-- The text of a file and its rewriting.  It is the same in all modes. -/
def judge (tracked : Tracked.Set) (t : Tree) (path : String) :
    Except FileError (String × Rewrite) :=
  match sourceOf path (t.read path) with
  | .error e => .error e
  | .ok source =>
      match Rewrite.ofSource tracked source with
      | .error e => .error (.rewrite path e)
      | .ok r => .ok (source, r)

theorem judge_eq_ok (h : judge tracked t path = .ok (source, r)) :
    sourceOf path (t.read path) = .ok source ∧ Rewrite.ofSource tracked source = .ok r := by
  unfold judge at h
  split at h
  · cases h
  · rename_i hsource
    split at h
    · cases h
    · rename_i hr
      cases h
      exact ⟨hsource, hr⟩

/-- A file that cannot be judged is named, and it was not to be written yet. -/
theorem judge_eq_error (h : judge tracked t path = .error e) :
    e.path = path ∧ ∀ other fault, e ≠ .write other fault := by
  unfold judge sourceOf at h
  cases hread : t.read path with
  | error fault =>
      simp only [hread] at h
      cases h
      exact ⟨rfl, nofun⟩
  | ok bytes =>
      cases htext : Text.ofBytes bytes with
      | error fault =>
          simp only [hread, htext] at h
          cases h
          exact ⟨rfl, nofun⟩
      | ok source =>
          simp only [hread, htext] at h
          split at h
          · cases h
            exact ⟨rfl, nofun⟩
          · cases h

theorem examine_of_ok (mode : Diff.Mode) (h : judge tracked t path = .ok (source, r)) :
    examine tracked mode path (t.read path) =
      ⟨.ok (outcomeOf path source mode r).1, (outcomeOf path source mode r).2, rewriteLog r⟩ := by
  obtain ⟨hsource, hr⟩ := judge_eq_ok h
  simp only [examine, hsource, hr]

theorem examine_of_error (mode : Diff.Mode) (h : judge tracked t path = .error e) :
    examine tracked mode path (t.read path) = ⟨.error e, none, []⟩ := by
  unfold judge at h
  split at h
  · rename_i hsource
    cases h
    simp only [examine, hsource]
  · rename_i hsource
    split at h
    · rename_i hr
      cases h
      simp only [examine, hsource, hr]
    · cases h

/-- A new text is to be written only if it is one and the run is to write. -/
theorem outcomeOf_contents : (outcomeOf path source mode r).2 =
    if mode = .write ∧ r.output ≠ source then some r.output else none := by
  unfold outcomeOf Diff.report
  split
  · rename_i hsame
    simp [hsame]
  · rename_i hne
    cases mode <;> simp [Ne.symm hne]

theorem outcomeOf_path : (outcomeOf path source mode r).1.path = path := rfl

/-- A file that nothing is to be written to is left alone. -/
theorem processFile_of_none
    (h : (examine tracked mode path (t.read path)).contents = none) :
    processFile tracked mode t path =
      (t, ⟨(examine tracked mode path (t.read path)).result,
        (examine tracked mode path (t.read path)).log⟩) := by
  simp only [processFile, Verdict.carryOut, h]

theorem processFile_of_error (mode : Diff.Mode) (h : judge tracked t path = .error e) :
    (processFile tracked mode t path).1 = t ∧
      (processFile tracked mode t path).2.result = .error e := by
  have hexamine := examine_of_error mode h
  rw [processFile_of_none (by rw [hexamine]), hexamine]
  exact ⟨rfl, rfl⟩

theorem processFile_of_unwritten (h : judge tracked t path = .ok (source, r))
    (hnone : mode ≠ .write ∨ r.output = source) :
    (processFile tracked mode t path).1 = t ∧
      (processFile tracked mode t path).2.result = .ok (outcomeOf path source mode r).1 := by
  have hexamine := examine_of_ok mode h
  have hcontents : (outcomeOf path source mode r).2 = none := by
    rw [outcomeOf_contents, if_neg]
    rintro ⟨hwrite, hne⟩
    exact hnone.elim (· hwrite) (hne ·)
  rw [processFile_of_none (by rw [hexamine, hcontents]), hexamine]
  exact ⟨rfl, rfl⟩

/-- A file with a new text is overwritten with it, unless that fails. -/
theorem processFile_of_written (h : judge tracked t path = .ok (source, r))
    (hne : r.output ≠ source) :
    (∃ fault, (processFile tracked .write t path).2.result = .error (.write path fault)) ∨
      (processFile tracked .write t path).2.result = .ok (outcomeOf path source .write r).1 ∧
      ∃ place f, t.target path = .ok (place, f) ∧
        (processFile tracked .write t path).1
          = t.overwrite place { f with contents := Text.bytes r.output } := by
  have hcontents : (outcomeOf path source .write r).2 = some r.output := by
    rw [outcomeOf_contents, if_pos ⟨rfl, hne⟩]
  simp only [processFile, examine_of_ok .write h, Verdict.carryOut, hcontents, Tree.write_eq]
  cases htarget : t.target path with
  | error fault => exact .inl ⟨fault, rfl⟩
  | ok found =>
      obtain ⟨place, f⟩ := found
      cases hwritable : f.writable with
      | false => exact .inl ⟨.denied, by simp [Except.bind, hwritable]⟩
      | true =>
          refine .inr ⟨by simp [Except.bind, hwritable], place, f, rfl, ?_⟩
          simp [Except.bind, hwritable]

/-! ## What a run does to the files -/

/-- A run that is not to write leaves all files as they are. -/
theorem processFiles_of_dry (hmode : mode ≠ .write) (t : Tree) (paths : List String) :
    (processFiles tracked mode t paths).1 = t := by
  induction paths with
  | nil => rfl
  | cons path rest ih =>
      have hfirst : (processFile tracked mode t path).1 = t := by
        cases h : judge tracked t path with
        | error e => exact (processFile_of_error mode h).1
        | ok judged => exact (processFile_of_unwritten h (.inl hmode)).1
      show (processFiles tracked mode (processFile tracked mode t path).1 rest).1 = t
      rw [hfirst, ih]

/-- A run leaves the files alone that none of its paths leads to. -/
theorem processFiles_file? (hplace : ∀ path ∈ paths, t.resolve path ≠ .ok place) :
    (processFiles tracked mode t paths).1.root.file? place = t.root.file? place := by
  induction paths generalizing t with
  | nil => rfl
  | cons path rest ih =>
      have htouches := Verdict.carryOut_touches (examine tracked mode path (t.read path)) path t
      refine (ih fun other hother hresolve => ?_).trans (htouches.file? (hplace path (by simp)))
      exact hplace other (by simp [hother]) ((htouches.alike.resolve other).symm.trans hresolve)

/-- What becomes of a file depends on that file only. -/
theorem processFile_target (hu : u.target path = t.target path) :
    (processFile tracked mode u path).1.target path
      = (processFile tracked mode t path).1.target path := by
  have hread : u.read path = t.read path := by rw [Tree.read_eq, Tree.read_eq, hu]
  simp only [processFile, hread]
  obtain ⟨result, h | ⟨place, f, g, hfound, h⟩⟩ :=
    (examine tracked mode path (t.read path)).carryOut_cases path t
  · rw [h u hu, h t rfl, hu]
  · rw [h u hu, h t rfl, Tree.target_overwrite (hu.trans hfound), Tree.target_overwrite hfound]

/-- In a run over files that are apart, each is left as it would be if it were the only one. -/
theorem processFiles_target_mem (hapart : paths.Pairwise t.Apart) (hpath : path ∈ paths) :
    (processFiles tracked mode t paths).1.target path
      = (processFile tracked mode t path).1.target path := by
  obtain ⟨before, after, rfl⟩ := List.append_of_mem hpath
  obtain ⟨-, hpair, hbefore⟩ := List.pairwise_append.1 hapart
  obtain ⟨hafter, -⟩ := List.pairwise_cons.1 hpair
  have halike := processFiles_alike tracked mode t before
  have htouches := Verdict.carryOut_touches (examine tracked mode path
    ((processFiles tracked mode t before).1.read path)) path (processFiles tracked mode t before).1
  rw [processFiles_append]
  show (processFiles tracked mode
    (processFile tracked mode (processFiles tracked mode t before).1 path).1 after).1.target path = _
  rw [processFiles_target, processFile_target]
  · exact processFiles_target fun other hother => hbefore other hother path (by simp)
  · intro other hother
    apply htouches.alike.apart
    apply halike.apart
    exact (hafter other hother).symm

/-- The results of a run of files that are apart. -/
def results (tracked : Tracked.Set) (mode : Diff.Mode) (t : Tree) (paths : List String) :
    List (Except FileError Outcome) :=
  (processFiles tracked mode t paths).2.map (·.result)

theorem results_eq (hapart : paths.Pairwise t.Apart) :
    results tracked mode t paths
      = paths.map fun path => (processFile tracked mode t path).2.result := by
  rw [results, processFiles_results hapart, List.map_map]
  rfl

/-! ## The same run in different modes -/

/-- What a result tells apart from a diff. -/
def told : Except FileError Outcome → Except FileError Outcome
  | .error e => .error e
  | .ok o => .ok { o with diff := none, stats := {} }

/-- A file is judged alike in all modes; whether it can be written is known only when it is to be. -/
theorem told_result
    (h : ∀ fault, (processFile tracked mode t path).2.result ≠ .error (.write path fault)) :
    told (processFile tracked mode t path).2.result
      = told (processFile tracked .check t path).2.result := by
  cases hjudge : judge tracked t path with
  | error e => rw [(processFile_of_error mode hjudge).2, (processFile_of_error .check hjudge).2]
  | ok judged =>
      obtain ⟨source, r⟩ := judged
      have hcheck : (processFile tracked .check t path).2.result
          = .ok (outcomeOf path source .check r).1 :=
        (processFile_of_unwritten hjudge (.inl (by decide))).2
      have hmode : (processFile tracked mode t path).2.result
          = .ok (outcomeOf path source mode r).1 := by
        by_cases hnone : mode ≠ .write ∨ r.output = source
        · exact (processFile_of_unwritten hjudge hnone).2
        · simp only [not_or, Decidable.not_not] at hnone
          obtain ⟨rfl, hne⟩ := hnone
          rcases processFile_of_written hjudge hne with ⟨fault, hfault⟩ | ⟨hok, -⟩
          · exact absurd hfault (h fault)
          · exact hok
      rw [hmode, hcheck]
      have hchanged : (outcomeOf path source mode r).1.changed
          = (outcomeOf path source .check r).1.changed := by
        rw [Bool.eq_iff_iff, outcomeOf_changed, outcomeOf_changed]
      show Except.ok (Outcome.mk path (outcomeOf path source mode r).1.changed none {} _ _) = _
      rw [hchanged]
      rfl

/-- Results that tell the same have the same totals and the same exit code. -/
theorem summarise_congr {rs rs' : List (Except FileError Outcome)}
    (h : rs.map told = rs'.map told) :
    (summarise rs).changed = (summarise rs').changed ∧
      (summarise rs).unchanged = (summarise rs').unchanged ∧
      (summarise rs).failed = (summarise rs').failed ∧
      (summarise rs).renames = (summarise rs').renames ∧
      (summarise rs).conflicts = (summarise rs').conflicts ∧
      (summarise rs).exitCode = (summarise rs').exitCode := by
  have hchanges : changes ∘ told = changes := by
    funext result
    cases result <;> rfl
  have hkeeps : keeps ∘ told = keeps := by
    funext result
    cases result <;> rfl
  have hfailed : failed ∘ told = failed := by
    funext result
    cases result <;> rfl
  have hrenames : renameCount ∘ told = renameCount := by
    funext result
    cases result <;> rfl
  have hconflicts : conflictCount ∘ told = conflictCount := by
    funext result
    cases result <;> rfl
  -- Each total counts the results by what they tell.
  have hcount : ∀ (p : Except FileError Outcome → Bool), p ∘ told = p →
      rs.countP p = rs'.countP p := by
    intro p hp
    rw [← hp, ← List.countP_map, ← List.countP_map, h]
  have hsum : ∀ (n : Except FileError Outcome → Nat), n ∘ told = n →
      (rs.map n).sum = (rs'.map n).sum := by
    intro n hn
    rw [← hn, ← List.map_map, ← List.map_map, h]
  obtain ⟨hc, hu, hf, hr, hk⟩ := summarise_eq rs
  obtain ⟨hc', hu', hf', hr', hk'⟩ := summarise_eq rs'
  have hsame : (summarise rs).changed = (summarise rs').changed := by
    rw [hc, hc', hcount changes hchanges]
  have hsame' : (summarise rs).failed = (summarise rs').failed := by
    rw [hf, hf', hcount failed hfailed]
  refine ⟨hsame, ?_, hsame', ?_, ?_, ?_⟩
  · rw [hu, hu', hcount keeps hkeeps]
  · rw [hr, hr', hsum renameCount hrenames]
  · rw [hk, hk', hsum conflictCount hconflicts]
  · simp only [Summary.exitCode, hsame, hsame']

/-- A run that meets no file that cannot be written tells what a check tells. -/
theorem told_results (hapart : paths.Pairwise t.Apart)
    (h : ∀ path fault, .error (.write path fault) ∉ results tracked mode t paths) :
    (results tracked mode t paths).map told = (results tracked .check t paths).map told := by
  rw [results_eq hapart] at h ⊢
  rw [results_eq hapart, List.map_map, List.map_map]
  apply List.map_congr_left
  intro path hpath
  apply told_result
  intro fault hfault
  exact h path fault (List.mem_map.2 ⟨path, hpath, hfault⟩)

/-- Only a run that is to write meets files that cannot be written. -/
theorem not_write_of_dry (hapart : paths.Pairwise t.Apart) (hmode : mode ≠ .write) (path : String)
    (fault : Files.AccessError) : .error (.write path fault) ∉ results tracked mode t paths := by
  rw [results_eq hapart]
  intro hmem
  obtain ⟨other, -, hother⟩ := List.mem_map.1 hmem
  cases hjudge : judge tracked t other with
  | error e =>
      rw [(processFile_of_error mode hjudge).2] at hother
      cases hother
      exact (judge_eq_error hjudge).2 path fault rfl
  | ok judged =>
      rw [(processFile_of_unwritten hjudge (.inl hmode)).2] at hother
      cases hother

/-! ## The files of a run that writes -/

/-- A file that is counted as changed has another text before than after a run that writes. -/
theorem changed_file (h : (processFile tracked .write t path).2.result = .ok o)
    (hchanged : o.changed = true) :
    ∃ source r place f, o.path = path ∧ sourceOf path (t.read path) = .ok source ∧
      Rewrite.ofSource tracked source = .ok r ∧ r.output ≠ source ∧
      t.target path = .ok (place, f) ∧
      (processFile tracked .write t path).1.target path
        = .ok (place, { f with contents := Text.bytes r.output }) := by
  cases hjudge : judge tracked t path with
  | error e =>
      rw [(processFile_of_error .write hjudge).2] at h
      cases h
  | ok judged =>
      obtain ⟨source, r⟩ := judged
      obtain ⟨hsource, hr⟩ := judge_eq_ok hjudge
      by_cases hsame : r.output = source
      · rw [(processFile_of_unwritten hjudge (.inr hsame)).2] at h
        cases h
        exact absurd hsame (outcomeOf_changed.1 hchanged)
      · rcases processFile_of_written hjudge hsame with ⟨fault, hfault⟩ | ⟨hok, place, f, htarget, ht⟩
        · rw [hfault] at h
          cases h
        · rw [hok] at h
          cases h
          refine ⟨source, r, place, f, outcomeOf_path, hsource, hr, hsame, htarget, ?_⟩
          rw [ht]
          exact Tree.target_overwrite htarget _

/-- A file that is not counted as changed is left as it is. -/
theorem unchanged_file
    (h : ∀ o, (processFile tracked .write t path).2.result = .ok o → o.changed = false) :
    (processFile tracked .write t path).1 = t ∨
      ∃ fault, (processFile tracked .write t path).2.result = .error (.write path fault) := by
  cases hjudge : judge tracked t path with
  | error e => exact .inl (processFile_of_error .write hjudge).1
  | ok judged =>
      obtain ⟨source, r⟩ := judged
      by_cases hsame : r.output = source
      · exact .inl (processFile_of_unwritten hjudge (.inr hsame)).1
      · rcases processFile_of_written hjudge hsame with ⟨fault, hfault⟩ | ⟨hok, -⟩
        · exact .inr ⟨fault, hfault⟩
        · have hfalse := h _ hok
          rw [← Bool.not_eq_true, outcomeOf_changed] at hfalse
          exact absurd hsame hfalse

/-- The text that was read from a file has other bytes than any other text. -/
theorem contents_ne {f : File} {text : String} (htarget : t.target path = .ok (place, f))
    (hsource : sourceOf path (t.read path) = .ok source) (hne : text ≠ source) :
    f.contents ≠ Text.bytes text := by
  rintro hsame
  rw [Tree.read_eq, htarget] at hsource
  simp only [Except.bind] at hsource
  cases hreadable : f.readable with
  | false => simp [hreadable, sourceOf] at hsource
  | true =>
      simp only [hreadable, if_true, sourceOf, hsame, Text.ofBytes_bytes, Except.ok.injEq] at hsource
      exact hne hsource

theorem mem_results_iff (hapart : paths.Pairwise t.Apart) {result : Except FileError Outcome} :
    result ∈ results tracked mode t paths ↔
      ∃ path ∈ paths, (processFile tracked mode t path).2.result = result := by
  rw [results_eq hapart, List.mem_map]

/-- The files that a run changes are those that it counts as changed. -/
theorem processFiles_file?_ne_iff (hapart : paths.Pairwise t.Apart)
    (hwritten : ∀ path fault, .error (.write path fault) ∉ results tracked .write t paths) :
    (processFiles tracked .write t paths).1.root.file? place ≠ t.root.file? place ↔
      ∃ o, .ok o ∈ results tracked .write t paths ∧ o.changed = true ∧
        t.resolve o.path = .ok place := by
  have halike := processFiles_alike tracked .write t paths
  constructor
  · intro hne
    -- Some path of the run leads to the place, and its file is counted as changed.
    obtain ⟨path, hpath, hplace⟩ : ∃ path ∈ paths, t.resolve path = .ok place := by
      by_contra hnone
      refine hne (processFiles_file? fun path hpath hplace => ?_)
      exact hnone ⟨path, hpath, hplace⟩
    have hmem : (processFile tracked .write t path).2.result ∈ results tracked .write t paths :=
      (mem_results_iff hapart).2 ⟨path, hpath, rfl⟩
    by_contra hnone
    have hsame : (processFile tracked .write t path).1 = t := by
      refine (unchanged_file fun o ho => ?_).resolve_right ?_
      · cases hchanged : o.changed with
        | false => rfl
        | true =>
            obtain ⟨_, _, _, _, hname, -⟩ := changed_file ho hchanged
            exact absurd ⟨o, ho ▸ hmem, hchanged, hname ▸ hplace⟩ hnone
      · rintro ⟨fault, hfault⟩
        exact hwritten path fault (hfault ▸ hmem)
    apply hne
    rw [Tree.file?_of_resolve hplace, Tree.file?_of_resolve ((halike.resolve path).trans hplace),
      processFiles_target_mem hapart hpath, hsame]
  · rintro ⟨o, ho, hchanged, hplace⟩
    obtain ⟨path, hpath, hresult⟩ := (mem_results_iff hapart).1 ho
    obtain ⟨source, r, place', f, rfl, hsource, -, hne, htarget, hafter⟩ :=
      changed_file hresult hchanged
    rw [Tree.file?_of_resolve hplace,
      Tree.file?_of_resolve ((halike.resolve o.path).trans hplace),
      processFiles_target_mem hapart hpath, hafter, htarget]
    intro hsame
    simp only [Except.toOption, Option.map_some, Option.some.injEq] at hsame
    apply contents_ne htarget hsource hne
    rw [← hsame]

/-- A file that is counted as changed holds the rewriting of its text after the run. -/
theorem processFiles_read (hapart : paths.Pairwise t.Apart)
    (ho : .ok o ∈ results tracked .write t paths) (hchanged : o.changed = true) :
    ∃ source r, sourceOf o.path (t.read o.path) = .ok source ∧
      Rewrite.ofSource tracked source = .ok r ∧
      (processFiles tracked .write t paths).1.read o.path = .ok (Text.bytes r.output) := by
  obtain ⟨path, hpath, hresult⟩ := (mem_results_iff hapart).1 ho
  obtain ⟨source, r, place, f, rfl, hsource, hr, -, htarget, hafter⟩ :=
    changed_file hresult hchanged
  have hreadable : f.readable = true := by
    rw [Tree.read_eq, htarget] at hsource
    cases hreadable : f.readable with
    | false => simp [Except.bind, hreadable, sourceOf] at hsource
    | true => rfl
  refine ⟨source, r, hsource, hr, ?_⟩
  rw [Tree.read_eq, processFiles_target_mem hapart hpath, hafter]
  simp only [Except.bind, hreadable, if_true]

/-- A file that failed is left as it is. -/
theorem processFiles_target_failed (hapart : paths.Pairwise t.Apart)
    (he : .error e ∈ results tracked .write t paths) (hwrite : ∀ path fault, e ≠ .write path fault) :
    (processFiles tracked .write t paths).1.target e.path = t.target e.path := by
  obtain ⟨path, hpath, hresult⟩ := (mem_results_iff hapart).1 he
  cases hjudge : judge tracked t path with
  | error e' =>
      obtain ⟨hsame, hfile⟩ := processFile_of_error .write hjudge
      rw [hfile] at hresult
      cases hresult
      have hname := (judge_eq_error hjudge).1
      subst hname
      rw [processFiles_target_mem hapart hpath, hsame]
  | ok judged =>
      obtain ⟨source, r⟩ := judged
      by_cases hsame : r.output = source
      · rw [(processFile_of_unwritten hjudge (.inr hsame)).2] at hresult
        cases hresult
      · rcases processFile_of_written hjudge hsame with ⟨fault, hfault⟩ | ⟨hok, -⟩
        · rw [hfault] at hresult
          cases hresult
          exact absurd rfl (hwrite path fault)
        · rw [hok] at hresult
          cases hresult

/-! ## All modes -/

/-- Runs over files that are apart, of which none is found to be protected, agree in all modes: they
have the same totals, count each file once, and end with the same exit code, which tells of failed
files first and of changed ones otherwise.  Only a run that is to write touches the files.  It changes
exactly those that it counts as changed, each to the rewriting of its text, and leaves those that
failed as they are. -/
theorem modes_agree (tracked : Tracked.Set) (t : Tree) (paths : List String)
    (hapart : paths.Pairwise t.Apart)
    (hwritten : ∀ path fault, .error (.write path fault) ∉ results tracked .write t paths) :
    let summary := fun mode => summarise (results tracked mode t paths)
    let after := fun mode => (processFiles tracked mode t paths).1
    (∀ mode mode', (summary mode).changed = (summary mode').changed ∧
      (summary mode).unchanged = (summary mode').unchanged ∧
      (summary mode).failed = (summary mode').failed ∧
      (summary mode).renames = (summary mode').renames ∧
      (summary mode).conflicts = (summary mode').conflicts ∧
      (summary mode).exitCode = (summary mode').exitCode) ∧
    (∀ mode, (summary mode).changed + (summary mode).unchanged + (summary mode).failed
      = paths.length) ∧
    (∀ mode, (summary mode).exitCode =
      if (results tracked mode t paths).any failed then 2
      else if (results tracked mode t paths).any changes then 1 else 0) ∧
    (∀ mode, mode ≠ .write → after mode = t) ∧
    (∀ place, (after .write).root.kind? place = t.root.kind? place) ∧
    (∀ place, (after .write).root.file? place ≠ t.root.file? place ↔
      ∃ o, .ok o ∈ results tracked .write t paths ∧ o.changed = true ∧
        t.resolve o.path = .ok place) ∧
    (∀ o, .ok o ∈ results tracked .write t paths → o.changed = true →
      ∃ source r, sourceOf o.path (t.read o.path) = .ok source ∧
        Rewrite.ofSource tracked source = .ok r ∧
        (after .write).read o.path = .ok (Text.bytes r.output)) ∧
    ∀ e, .error e ∈ results tracked .write t paths →
      (after .write).target e.path = t.target e.path := by
  intro summary after
  -- Only a run that is to write can fail to.
  have hall : ∀ mode path fault, .error (.write path fault) ∉ results tracked mode t paths := by
    intro mode
    by_cases hmode : mode = .write
    · exact hmode ▸ hwritten
    · exact not_write_of_dry hapart hmode
  refine ⟨?_, ?_, ?_, ?_, ?_, ?_, ?_, ?_⟩
  · intro mode mode'
    apply summarise_congr
    rw [told_results hapart (hall mode), told_results hapart (hall mode')]
  · intro mode
    show (summarise _).changed + (summarise _).unchanged + (summarise _).failed = _
    rw [summarise_total, results_eq hapart, List.length_map]
  · intro mode
    exact exitCode_summarise _
  · intro mode hmode
    exact processFiles_of_dry hmode t paths
  · exact (processFiles_alike tracked .write t paths).kind
  · intro place
    exact processFiles_file?_ne_iff hapart hwritten
  · intro o ho hchanged
    exact processFiles_read hapart ho hchanged
  · intro e he
    apply processFiles_target_failed hapart he
    rintro path fault rfl
    exact hwritten path fault he

/-- A tree with a file to change, a protected file with nothing to change, and a file that is no text.
-/
def mixedFiles : Tree :=
  ⟨.directory
    [("a.py", .file ⟨Text.bytes "from maya import cmds\ncmds.ls(sl=True)\n", true, true⟩),
      ("b.py", .file ⟨Text.bytes "cmds = None\n", true, false⟩),
      ("c.py", .file ⟨[0xff], true, true⟩)], []⟩

/-- The files of the tree that a result names as changed or unchanged; a failed file is named if it
could not be written. -/
def named : Except FileError Outcome → Option (String × Bool)
  | .ok o => some (o.path, o.changed)
  | .error (.write path _) => some (path, false)
  | .error _ => none

/-- One file is changed, one is not, and one fails, in all modes; the run that writes changes the first
file alone. -/
theorem modes_agree_of_mixed :
    let paths := ["a.py", "b.py", "c.py"]
    let after := fun mode => (processFiles selection mode mixedFiles paths).1
    paths.Pairwise mixedFiles.Apart ∧
      (∀ path fault, .error (.write path fault) ∉ results selection .write mixedFiles paths) ∧
      (∀ mode, (summarise (results selection mode mixedFiles paths)).changed = 1 ∧
        (summarise (results selection mode mixedFiles paths)).failed = 1 ∧
        (summarise (results selection mode mixedFiles paths)).exitCode = 2) ∧
      after .diff = mixedFiles ∧
      ∀ place, (after .write).root.file? place ≠ mixedFiles.root.file? place ↔ place = ["a.py"] := by
  intro paths after
  have ha : mixedFiles.resolve "a.py" = .ok ["a.py"] := by rfl
  have hb : mixedFiles.resolve "b.py" = .ok ["b.py"] := by rfl
  have hc : mixedFiles.resolve "c.py" = .ok ["c.py"] := by rfl
  have hapart : paths.Pairwise mixedFiles.Apart := by simp [paths, Tree.Apart, ha, hb, hc]
  -- Only what becomes of the three files when they are written is computed.
  have hnamed : (results selection .write mixedFiles paths).map
      (fun result => (failed result, named result))
        = [(false, some ("a.py", true)), (false, some ("b.py", false)), (true, none)] := by
    decide +kernel
  obtain ⟨first, rest, hresults, hfirst, hrest⟩ := List.map_eq_cons_iff.1 hnamed
  obtain ⟨second, rest, rfl, hsecond, hrest⟩ := List.map_eq_cons_iff.1 hrest
  obtain ⟨third, rest, rfl, hthird, hrest⟩ := List.map_eq_cons_iff.1 hrest
  obtain rfl := List.map_eq_nil_iff.1 hrest
  obtain _ | o := first <;> simp [failed, named] at hfirst
  obtain _ | o' := second <;> simp [failed, named] at hsecond
  obtain e | _ := third
  · have hwritten : ∀ path fault,
        .error (.write path fault) ∉ results selection .write mixedFiles paths := by
      rintro path fault hmem
      obtain rfl : e = .write path fault := by simpa [hresults, eq_comm] using hmem
      simp [named] at hthird
    obtain ⟨hsame, -, -, hdry, -, hfiles, -, -⟩ :=
      modes_agree selection mixedFiles paths hapart hwritten
    refine ⟨hapart, hwritten, fun mode => ?_, hdry .diff (by decide), fun place => ?_⟩
    · obtain ⟨hchanged, -, hfailed, -, -, hexit⟩ := hsame mode .write
      rw [hchanged, hfailed, hexit]
      simp only [hresults]
      simp [summarise, Summary.add, Summary.exitCode, hfirst, hsecond]
    · rw [hfiles place, hresults]
      constructor
      · rintro ⟨file, hfile, hchanged, hplace⟩
        obtain rfl | rfl : file = o ∨ file = o' := by simpa using hfile
        · rw [hfirst.1, ha] at hplace
          cases hplace
          rfl
        · simp [hsecond] at hchanged
      · rintro rfl
        exact ⟨o, by simp, hfirst.2, by rw [hfirst.1, ha]⟩
  · simp [failed] at hthird

end Longhand.Run
