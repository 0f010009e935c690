import Longhand.Proofs.Files
import Longhand.Run.File

/-!
# Files rewritten in parallel

A number of workers rewrite the files of a run.  Each of them takes a file that waits, reads it as a
whole, and writes it at some later time.  In whatever order that happens, the results and the files
are those of one worker that goes through the files from first to last, if no two paths lead to one
place.
-/

namespace Longhand.Run

open Files (Tree)

variable {tracked : Tracked.Set} {mode : Diff.Mode} {workers : Nat} {t u : Tree}
  {path other : String} {paths : List String}

/-! ### What one file does to the others -/

/-- To carry a verdict out is to do nothing or to overwrite one file.  Which of both, and what is
told about it, is decided by that file. -/
theorem Verdict.carryOut_cases (v : Verdict) (path : String) (t : Tree) :
    ∃ r, (∀ u : Tree, u.target path = t.target path → v.carryOut path u = (u, r)) ∨
      ∃ place f g, t.target path = .ok (place, f) ∧
        ∀ u : Tree, u.target path = t.target path →
          v.carryOut path u = (u.overwrite place g, r) := by
  cases hcontents : v.contents with
  | none => exact ⟨_, .inl fun u _ => by rw [carryOut, hcontents]⟩
  | some text =>
      cases hfound : t.target path with
      | error e =>
          refine ⟨⟨.error (.write path e), v.log⟩, .inl fun u hu => ?_⟩
          simp [carryOut, hcontents, Tree.write_eq, hu, Except.bind]
      | ok found =>
          obtain ⟨place, f⟩ := found
          by_cases hwritable : f.writable
          · refine ⟨⟨v.result, v.log ++ [⟨.debug, "wrote " ++ path⟩]⟩,
              .inr ⟨place, f, { f with contents := Text.bytes text }, rfl, fun u hu => ?_⟩⟩
            simp only [carryOut, hcontents, Tree.write_eq, hu, Except.bind, hwritable, if_true]
          · refine ⟨⟨.error (.write path .denied), v.log⟩, .inl fun u hu => ?_⟩
            simp [carryOut, hcontents, Tree.write_eq, hu, Except.bind, hwritable]

theorem Verdict.carryOut_touches (v : Verdict) (path : String) (t : Tree) :
    t.Touches path (v.carryOut path t).1 := by
  obtain ⟨r, h | ⟨place, f, g, hfound, h⟩⟩ := v.carryOut_cases path t
  · rw [h t rfl]
    exact .none
  · rw [h t rfl]
    exact .file hfound g

/-- What becomes of a file is decided by that file. -/
theorem Verdict.carryOut_result (v : Verdict) (hu : u.target path = t.target path) :
    (v.carryOut path u).2 = (v.carryOut path t).2 := by
  obtain ⟨r, h | ⟨place, f, g, -, h⟩⟩ := v.carryOut_cases path t <;> rw [h u hu, h t rfl]

/-- Verdicts on two files are carried out in either order. -/
theorem Verdict.carryOut_comm (v w : Verdict) (hapart : t.Apart path other) :
    (w.carryOut other (v.carryOut path t).1).1 = (v.carryOut path (w.carryOut other t).1).1 := by
  have hother := (v.carryOut_touches path t).target hapart
  have hpath := (w.carryOut_touches other t).target hapart.symm
  obtain ⟨r, hv | ⟨place, f, g, hfound, hv⟩⟩ := v.carryOut_cases path t
  · rw [hv _ hpath, hv t rfl]
  · obtain ⟨r', hw | ⟨place', f', g', hfound', hw⟩⟩ := w.carryOut_cases other t
    · rw [hw _ hother, hw t rfl]
    · rw [hw _ hother, hv _ hpath, hv t rfl, hw t rfl]
      exact Tree.overwrite_comm hfound hfound' hapart g g'

/-- A file is rewritten as before when other files have been touched. -/
theorem processFile_of_target (hread : u.target path = t.target path) :
    (processFile tracked mode u path).2 = (processFile tracked mode t path).2 := by
  rw [processFile, processFile, Tree.read_eq, Tree.read_eq, hread]
  exact Verdict.carryOut_result _ hread

/-- Two files are rewritten in either order. -/
theorem processFile_comm (hapart : t.Apart path other) :
    (processFile tracked mode (processFile tracked mode t path).1 other).1
      = (processFile tracked mode (processFile tracked mode t other).1 path).1 := by
  simp only [processFile]
  rw [(Verdict.carryOut_touches _ path t).read hapart,
    (Verdict.carryOut_touches _ other t).read hapart.symm]
  exact Verdict.carryOut_comm _ _ hapart

/-! ### One after the other -/

variable (tracked mode)

theorem processFiles_alike (t : Tree) (paths : List String) :
    t.Alike (processFiles tracked mode t paths).1 := by
  induction paths generalizing t with
  | nil => exact .refl t
  | cons path rest ih => exact (Verdict.carryOut_touches _ path t).alike.trans (ih _)

variable {tracked mode}

theorem processFiles_target (hapart : ∀ other ∈ paths, t.Apart other path) :
    (processFiles tracked mode t paths).1.target path = t.target path := by
  induction paths generalizing t with
  | nil => rfl
  | cons first rest ih =>
      have htouches := Verdict.carryOut_touches (examine tracked mode first (t.read first)) first t
      refine (ih fun other hother => ?_).trans (htouches.target (hapart first (by simp)))
      exact htouches.alike.apart (hapart other (by simp [hother]))

/-- In a run over files that are apart, each is rewritten as if it were the only one. -/
theorem processFiles_results (hapart : paths.Pairwise t.Apart) :
    (processFiles tracked mode t paths).2
      = paths.map fun path => (processFile tracked mode t path).2 := by
  induction paths generalizing t with
  | nil => rfl
  | cons first rest ih =>
      obtain ⟨hfirst, hrest⟩ := List.pairwise_cons.mp hapart
      have htouches := Verdict.carryOut_touches (examine tracked mode first (t.read first)) first t
      rw [processFiles, List.map_cons]
      refine congrArg (_ :: ·) ((ih (hrest.imp htouches.alike.apart)).trans ?_)
      refine List.map_congr_left fun other hother => ?_
      exact processFile_of_target (htouches.target (hfirst other hother))

/-- A file that is rewritten first may as well be rewritten last. -/
theorem processFiles_cons_comm (hapart : ∀ other ∈ paths, t.Apart path other) :
    (processFiles tracked mode (processFile tracked mode t path).1 paths).1
      = (processFile tracked mode (processFiles tracked mode t paths).1 path).1 := by
  induction paths generalizing t with
  | nil => rfl
  | cons first rest ih =>
      have htouches := Verdict.carryOut_touches (examine tracked mode first (t.read first)) first t
      simp only [processFiles]
      rw [processFile_comm (hapart first (by simp))]
      exact ih fun other hother => htouches.alike.apart (hapart other (by simp [hother]))

theorem processFiles_append (before after : List String) (t : Tree) :
    (processFiles tracked mode t (before ++ after)).1
      = (processFiles tracked mode (processFiles tracked mode t before).1 after).1 := by
  induction before generalizing t with
  | nil => rfl
  | cons first rest ih => exact ih _

/-! ### In parallel -/

/-- Where a file of a parallel run stands. -/
inductive Stage where
  | waiting
  /-- A worker has read the file and is to carry the verdict out. -/
  | held (worker : Nat) (verdict : Verdict)
  | done (processed : Processed)

/-- The steps that a file is still to go through. -/
def Stage.left : Stage → Nat
  | .waiting => 2
  | .held .. => 1
  | .done _ => 0

/-- What is known of a file is what it would be if it were the only file of the run. -/
def Stage.Right (tracked : Tracked.Set) (mode : Diff.Mode) (t : Tree) (path : String) :
    Stage → Prop
  | .waiting => True
  | .held _ verdict => verdict = examine tracked mode path (t.read path)
  | .done processed => processed = (processFile tracked mode t path).2

/-- A parallel run under way: all files as they are, and where those of the run stand. -/
structure Parallel where
  tree : Tree
  files : List (String × Stage)

namespace Parallel

/-- No file of the run has been read. -/
def start (t : Tree) (paths : List String) : Parallel :=
  ⟨t, paths.map (·, .waiting)⟩

/-- What a worker does next: it reads a file that waits, if it holds none, or it carries out the
verdict that it holds. -/
inductive Step (tracked : Tracked.Set) (mode : Diff.Mode) (workers : Nat) :
    Parallel → Parallel → Prop
  | read {tree : Tree} {before after : List (String × Stage)} {path : String} {worker : Nat}
      (hworker : worker < workers)
      (hidle : ∀ other verdict, (other, .held worker verdict) ∉ before ++ after) :
      Step tracked mode workers ⟨tree, before ++ (path, .waiting) :: after⟩
        ⟨tree, before ++
          (path, .held worker (examine tracked mode path (tree.read path))) :: after⟩
  | write {tree : Tree} {before after : List (String × Stage)} {path : String} {worker : Nat}
      {verdict : Verdict} :
      Step tracked mode workers ⟨tree, before ++ (path, .held worker verdict) :: after⟩
        ⟨(verdict.carryOut path tree).1,
          before ++ (path, .done (verdict.carryOut path tree).2) :: after⟩

/-- A number of steps from one state to another. -/
inductive Steps (tracked : Tracked.Set) (mode : Diff.Mode) (workers : Nat) :
    Nat → Parallel → Parallel → Prop
  | none (p : Parallel) : Steps tracked mode workers 0 p p
  | more {n : Nat} {p q r : Parallel} (hsteps : Steps tracked mode workers n p q)
      (hstep : Step tracked mode workers q r) : Steps tracked mode workers (n + 1) p r

/-- The paths of the files that are done, in the order of the run. -/
def donePaths (files : List (String × Stage)) : List String :=
  files.filterMap fun file =>
    match file.2 with
    | .done _ => some file.1
    | _ => none

/-- The steps that all files are still to go through. -/
def left : List (String × Stage) → Nat
  | [] => 0
  | file :: rest => file.2.left + left rest

/-- The state of a run that began with a tree. -/
structure Sound (tracked : Tracked.Set) (mode : Diff.Mode) (t : Tree) (p : Parallel) : Prop where
  /-- No two paths of the run lead to one place. -/
  apart : (p.files.map Prod.fst).Pairwise t.Apart
  /-- The files that are done might have been rewritten one after the other. -/
  tree : p.tree = (processFiles tracked mode t (donePaths p.files)).1
  right : ∀ file ∈ p.files, file.2.Right tracked mode t file.1

@[simp] theorem donePaths_append (before after : List (String × Stage)) :
    donePaths (before ++ after) = donePaths before ++ donePaths after :=
  List.filterMap_append ..

@[simp] theorem left_append (before after : List (String × Stage)) :
    left (before ++ after) = left before + left after := by
  induction before with
  | nil => simp [left]
  | cons file rest ih => simp only [List.cons_append, left, ih, Nat.add_assoc]

theorem left_eq_zero_iff {files : List (String × Stage)} :
    left files = 0 ↔ ∀ file ∈ files, file.2.left = 0 := by
  induction files with
  | nil => simp [left]
  | cons file rest ih => simpa [left] using fun _ => ih

theorem left_start (t : Tree) (paths : List String) :
    left (start t paths).files = 2 * paths.length := by
  induction paths with
  | nil => rfl
  | cons path rest ih =>
      simp only [start, left, List.map_cons, List.length_cons, Stage.left] at ih ⊢
      omega

theorem donePaths_subset {files : List (String × Stage)} (h : path ∈ donePaths files) :
    path ∈ files.map Prod.fst := by
  obtain ⟨file, hfile, hpath⟩ := List.mem_filterMap.mp h
  refine List.mem_map.mpr ⟨file, hfile, ?_⟩
  split at hpath <;> simp_all

theorem sound_start (tracked : Tracked.Set) (mode : Diff.Mode)
    (hapart : paths.Pairwise t.Apart) : Sound tracked mode t (start t paths) where
  apart := by simpa [start, Function.comp_def] using hapart
  tree := by
    have : donePaths (start t paths).files = [] := by simp [donePaths, start]
    rw [this]
    rfl
  right := by
    intro file hfile
    obtain ⟨path, -, rfl⟩ := List.mem_map.mp hfile
    trivial

variable {p q : Parallel}

/-- A file of a run is apart from those that are done, if it is not done itself. -/
theorem Sound.apart_done {tree : Tree} {before after : List (String × Stage)} {stage : Stage}
    (h : Sound tracked mode t ⟨tree, before ++ (path, stage) :: after⟩) :
    (∀ other ∈ donePaths before, t.Apart other path) ∧
      ∀ other ∈ donePaths after, t.Apart path other := by
  have hapart := h.apart
  simp only [List.map_append, List.map_cons, List.pairwise_append, List.pairwise_cons] at hapart
  obtain ⟨-, ⟨hafter, -⟩, hbefore⟩ := hapart
  exact ⟨fun other hother => hbefore other (donePaths_subset hother) path (by simp),
    fun other hother => hafter other (donePaths_subset hother)⟩

/-- A file that is not done is still as it was. -/
theorem Sound.target {tree : Tree} {before after : List (String × Stage)} {stage : Stage}
    (h : Sound tracked mode t ⟨tree, before ++ (path, stage) :: after⟩)
    (hstage : donePaths [(path, stage)] = []) : tree.target path = t.target path := by
  obtain ⟨hbefore, hafter⟩ := h.apart_done
  have htree := h.tree
  rw [← List.singleton_append, donePaths_append, donePaths_append, hstage] at htree
  rw [show tree = _ from htree]
  refine processFiles_target fun other hother => ?_
  rcases List.mem_append.mp hother with hother | hother
  · exact hbefore other hother
  · exact (hafter other (by simpa using hother)).symm

/-- A file that is rewritten behind those that are done might have been rewritten in its turn. -/
theorem Sound.processFile {tree : Tree} {before after : List (String × Stage)} {stage : Stage}
    (h : Sound tracked mode t ⟨tree, before ++ (path, stage) :: after⟩)
    (hstage : donePaths [(path, stage)] = []) :
    (processFile tracked mode tree path).1
      = (processFiles tracked mode t (donePaths before ++ path :: donePaths after)).1 := by
  obtain ⟨-, hafter⟩ := h.apart_done
  have halike := processFiles_alike tracked mode t (donePaths before)
  have htree := h.tree
  rw [← List.singleton_append, donePaths_append, donePaths_append, hstage, List.nil_append,
    processFiles_append] at htree
  rw [processFiles_append, show tree = _ from htree]
  exact (processFiles_cons_comm fun other hother => halike.apart (hafter other hother)).symm

/-- A step takes one file one stage further. -/
theorem Sound.step (h : Sound tracked mode t p) (hstep : Step tracked mode workers p q) :
    Sound tracked mode t q ∧ q.files.map Prod.fst = p.files.map Prod.fst ∧
      left q.files + 1 = left p.files := by
  cases hstep with
  | @read tree before after path worker hworker hidle =>
      have hread : tree.read path = t.read path := by
        rw [Tree.read_eq, Tree.read_eq, h.target rfl]
      refine ⟨⟨by simpa using h.apart, by simpa [donePaths] using h.tree, ?_⟩, by simp, ?_⟩
      · intro file hfile
        rcases List.mem_append.mp hfile with hfile | hfile
        · exact h.right file (by simp [hfile])
        · rcases List.mem_cons.mp hfile with rfl | hfile
          · exact congrArg _ hread
          · exact h.right file (by simp [hfile])
      · simp [left, Stage.left]; omega
  | @write tree before after path worker verdict =>
      have htarget := h.target rfl
      have hverdict : verdict = examine tracked mode path (t.read path) :=
        h.right (path, .held worker verdict) (by simp)
      have hread : tree.read path = t.read path := by rw [Tree.read_eq, Tree.read_eq, htarget]
      refine ⟨⟨by simpa using h.apart, ?_, ?_⟩, by simp, ?_⟩
      · have hdone := h.processFile rfl
        rw [Run.processFile, hread, ← hverdict] at hdone
        simpa [donePaths] using hdone
      · intro file hfile
        rcases List.mem_append.mp hfile with hfile | hfile
        · exact h.right file (by simp [hfile])
        · rcases List.mem_cons.mp hfile with rfl | hfile
          · rw [hverdict]
            exact Verdict.carryOut_result _ htarget
          · exact h.right file (by simp [hfile])
      · simp [left, Stage.left]; omega

theorem Sound.steps {n : Nat} (h : Sound tracked mode t p)
    (hsteps : Steps tracked mode workers n p q) :
    Sound tracked mode t q ∧ q.files.map Prod.fst = p.files.map Prod.fst ∧
      left q.files + n = left p.files := by
  induction hsteps with
  | none p => exact ⟨h, rfl, rfl⟩
  | more _ hstep ih =>
      obtain ⟨hq, hpaths, hleft⟩ := ih h
      obtain ⟨hr, hpaths', hleft'⟩ := hq.step hstep
      exact ⟨hr, hpaths'.trans hpaths, by omega⟩

/-- As long as a file is not done, a worker has something to do. -/
theorem exists_step (hworkers : 0 < workers) (tracked : Tracked.Set) (mode : Diff.Mode)
    (hleft : 0 < left p.files) : ∃ q, Step tracked mode workers p q := by
  obtain ⟨tree, files⟩ := p
  by_cases hheld : ∃ path worker verdict, (path, Stage.held worker verdict) ∈ files
  · obtain ⟨path, worker, verdict, hmem⟩ := hheld
    obtain ⟨before, after, rfl⟩ := List.append_of_mem hmem
    exact ⟨_, .write⟩
  · have hne : ¬∀ file ∈ files, file.2.left = 0 :=
      fun hzero => Nat.ne_of_gt hleft (left_eq_zero_iff.mpr hzero)
    obtain ⟨file, hmem, hfile⟩ : ∃ file ∈ files, file.2.left ≠ 0 := by simpa using hne
    obtain ⟨path, stage⟩ := file
    cases stage with
    | waiting =>
        obtain ⟨before, after, rfl⟩ := List.append_of_mem hmem
        refine ⟨_, .read hworkers fun other verdict hother => hheld ⟨other, 0, verdict, ?_⟩⟩
        rcases List.mem_append.mp hother with hother | hother <;> simp [hother]
    | held worker verdict => exact absurd ⟨path, worker, verdict, hmem⟩ hheld
    | done processed => simp [Stage.left] at hfile

/-- When nothing is left, all files are done. -/
theorem Sound.files_of_left (h : Sound tracked mode t p) (hleft : left p.files = 0) :
    p.files = (p.files.map Prod.fst).map fun path =>
      (path, .done (Run.processFile tracked mode t path).2) := by
  rw [List.map_map]
  refine (List.map_id _).symm.trans (List.map_congr_left fun file hfile => ?_)
  have hzero := left_eq_zero_iff.mp hleft file hfile
  have hright := h.right file hfile
  obtain ⟨path, stage⟩ := file
  cases stage with
  | waiting => simp [Stage.left] at hzero
  | held worker verdict => simp [Stage.left] at hzero
  | done processed => simpa [Stage.Right] using hright

/-- Two workers may read two files one after the other, and write them the other way round. -/
theorem steps_crossed (tracked : Tracked.Set) (mode : Diff.Mode) (t : Tree) (path other : String) :
    let second := Run.processFile tracked mode t other
    let first := (examine tracked mode path (t.read path)).carryOut path second.1
    Steps tracked mode 2 4 (start t [path, other])
      ⟨first.1, [(path, .done first.2), (other, .done second.2)]⟩ := by
  intro second first
  have readFirst := @Step.read tracked mode 2 t [] [(other, .waiting)] path 0 (by decide) (by simp)
  have readSecond := @Step.read tracked mode 2 t
    [(path, .held 0 (examine tracked mode path (t.read path)))] [] other 1 (by decide) (by simp)
  have writeSecond := @Step.write tracked mode 2 t
    [(path, .held 0 (examine tracked mode path (t.read path)))] [] other 1
    (examine tracked mode other (t.read other))
  have writeFirst := @Step.write tracked mode 2 second.1 [] [(other, .done second.2)] path 0
    (examine tracked mode path (t.read path))
  exact .more (.more (.more (.more (.none _) readFirst) readSecond) writeSecond) writeFirst

end Parallel

/-- Whatever a number of workers do with files that are apart, it comes to an end after two steps
for each file, and not before.  Then every file of the tree, and every result in its place, is what
it is after the files were rewritten one after the other. -/
theorem parallel_run_as_sequential (hworkers : 0 < workers) (hapart : paths.Pairwise t.Apart)
    {n : Nat} {p : Parallel}
    (hrun : Parallel.Steps tracked mode workers n (Parallel.start t paths) p) :
    n ≤ 2 * paths.length ∧
      (n < 2 * paths.length → ∃ q, Parallel.Step tracked mode workers p q) ∧
      (n = 2 * paths.length →
        p.tree = (processFiles tracked mode t paths).1 ∧
          p.files = paths.zip ((processFiles tracked mode t paths).2.map .done)) := by
  obtain ⟨hsound, hpaths, hleft⟩ := (Parallel.sound_start tracked mode hapart).steps hrun
  have hstart : (Parallel.start t paths).files.map Prod.fst = paths := by
    simp [Parallel.start, Function.comp_def]
  rw [hstart] at hpaths
  rw [Parallel.left_start] at hleft
  refine ⟨by omega, fun hn => Parallel.exists_step hworkers tracked mode (by omega), fun hn => ?_⟩
  have hfiles := hsound.files_of_left (by omega)
  rw [hpaths] at hfiles
  have hdone : Parallel.donePaths p.files = paths := by
    rw [hfiles, Parallel.donePaths, List.filterMap_map]
    exact List.filterMap_some
  refine ⟨hdone ▸ hsound.tree, ?_⟩
  rw [hfiles, processFiles_results hapart]
  rw [List.map_map]
  exact List.map_prod_left_eq_zip

/-- A tree with two files. -/
def twoFiles : Tree :=
  ⟨.directory
    [("a.py", .file ⟨Text.bytes "from maya import cmds\ncmds.ls(sl=True)\n", true, true⟩),
      ("b.py", .file ⟨Text.bytes "cmds = None\n", true, false⟩)], []⟩

/-- One tracked module, and a table with one flag. -/
def selection : Tracked.Set :=
  ⟨[⟨⟨"maya", "cmds"⟩, none⟩], { commands := [("ls", [("sl", "selection")])]
                                 usable := by decide +kernel }⟩

/-- Two workers read the files one after the other, and write them the other way round. -/
theorem parallel_run_as_sequential_of_two :
    let second := processFile selection .write twoFiles "b.py"
    let first := (examine selection .write "a.py" (twoFiles.read "a.py")).carryOut "a.py" second.1
    0 < 2 ∧ ["a.py", "b.py"].Pairwise twoFiles.Apart ∧
      Parallel.Steps selection .write 2 4 (.start twoFiles ["a.py", "b.py"])
        ⟨first.1, [("a.py", .done first.2), ("b.py", .done second.2)]⟩ ∧
      first.1 = (processFiles selection .write twoFiles ["a.py", "b.py"]).1 ∧
      [("a.py", .done first.2), ("b.py", .done second.2)]
        = ["a.py", "b.py"].zip ((processFiles selection .write twoFiles ["a.py", "b.py"]).2.map
            Stage.done) := by
  intro second first
  have hapart : ["a.py", "b.py"].Pairwise twoFiles.Apart := by
    have ha : twoFiles.resolve "a.py" = .ok ["a.py"] := by rfl
    have hb : twoFiles.resolve "b.py" = .ok ["b.py"] := by rfl
    simp [Tree.Apart, ha, hb]
  have hrun : Parallel.Steps selection .write 2 4 (.start twoFiles ["a.py", "b.py"])
      ⟨first.1, [("a.py", .done first.2), ("b.py", .done second.2)]⟩ :=
    Parallel.steps_crossed selection .write twoFiles "a.py" "b.py"
  -- From here on the two results are not to be computed.
  clear_value first second
  obtain ⟨-, -, hend⟩ := parallel_run_as_sequential (by decide) hapart hrun
  exact ⟨by decide, hapart, hrun, hend rfl⟩

end Longhand.Run
