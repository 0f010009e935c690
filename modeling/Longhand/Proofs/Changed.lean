import Longhand.Proofs.Line
import Longhand.Proofs.Total
import Longhand.Run.File

/-!
# When a text is reported as changed

A rewriting says that it changes a text if it has planned something, a file is reported as changed if
its two texts differ.  Both come to the same, line by line.
-/

namespace Longhand

open Text Syntax

namespace Rewrite

variable {tracked : Tracked.Set} {source : String} {r : Rewrite}

theorem renames_eq_nil_iff : r.plan.renames = [] ↔ r.changed = false := by
  simp [Edit.Plan.renames, changed, Edit.Plan.isEmpty]

theorem changed_iff : r.changed = true ↔ r.plan.renames ≠ [] := by
  rw [Ne, renames_eq_nil_iff, Bool.not_eq_false]

/-- A rewriting has planned something if its text is another one. -/
theorem Drawn.changed_iff {parts : List Draft.Part} (h : Drawn source r parts) :
    r.changed = true ↔ r.output ≠ source := by
  rw [Rewrite.changed_iff, h.output_ne_iff]

end Rewrite

namespace Run

variable {tracked : Tracked.Set} {mode : Diff.Mode} {files : Files.Tree} {path source : String}
  {r : Rewrite} {o : Outcome}

/-- The outcome of a file is that of the rewriting of its text. -/
theorem processFile_eq_ok (h : (processFile tracked mode files path).2.result = .ok o) :
    ∃ source r, sourceOf path (files.read path) = .ok source ∧
      Rewrite.ofSource tracked source = .ok r ∧ o = (outcomeOf path source mode r).1 := by
  unfold processFile examine at h
  split at h
  · cases h
  · rename_i source hsource
    split at h
    · cases h
    · rename_i r hr
      refine ⟨source, r, hsource, hr, ?_⟩
      unfold Verdict.carryOut at h
      dsimp only at h
      split at h
      · cases h
        rfl
      · split at h
        · cases h
          rfl
        · cases h

/-- What is not to be written has its outcome whatever becomes of the files. -/
theorem processFile_of_diff (hsource : sourceOf path (files.read path) = .ok source)
    (hr : Rewrite.ofSource tracked source = .ok r) :
    (processFile tracked .diff files path).2.result = .ok (outcomeOf path source .diff r).1 := by
  have hcontents : (outcomeOf path source .diff r).2 = none := by
    unfold outcomeOf Diff.report
    split <;> rfl
  unfold processFile examine
  rw [hsource]
  dsimp only
  rw [hr]
  dsimp only [Verdict.carryOut]
  rw [hcontents]

theorem outcomeOf_renames : (outcomeOf path source mode r).1.renames = r.plan.renames := rfl

theorem outcomeOf_changed :
    (outcomeOf path source mode r).1.changed = true ↔ r.output ≠ source := by
  unfold outcomeOf Diff.report
  split
  · rename_i hsame
    simp [hsame]
  · rename_i hne
    cases mode <;> simp [Ne.symm hne]

theorem outcomeOf_stats : (outcomeOf path source .diff r).1.stats =
    if source = r.output then {}
    else (Diff.unified path source.toList r.output.toList Diff.contextLines).2 := by
  unfold outcomeOf Diff.report
  split <;> rfl

/-- A diff of a rewritten text adds as many lines as it removes. -/
theorem outcomeOf_balanced {parts : List Draft.Part} (h : Rewrite.Drawn source r parts) :
    (outcomeOf path source .diff r).1.stats.added =
      (outcomeOf path source .diff r).1.stats.removed := by
  rw [outcomeOf_stats]
  split
  · rfl
  · refine Diff.unified_balanced _ _ _ _ ?_
    rw [← h.before, ← h.after]
    exact (Draft.length_lines_before_after h.distinct).symm

end Run

/-- The changes of a text stay inside its lines.  Each accepted text is rewritten to one with as many
lines, which differs from it on the lines that the renames report and nowhere else, so that something
is planned exactly if the text changes.  A file is reported as changed exactly if it lists a rename,
and its diff adds as many lines as it removes. -/
theorem changes_stay_in_lines (tracked : Tracked.Set) :
    (∀ (source : String) (t : Tree), parseChecked source.toList = .ok t →
      ∃ r, Rewrite.ofSource tracked source = .ok r ∧
        (splitOn '\n' r.output.toList).length = (splitOn '\n' source.toList).length ∧
        (∀ k, (splitOn '\n' r.output.toList)[k]? ≠ (splitOn '\n' source.toList)[k]? ↔
          ∃ rename ∈ r.plan.renames, rename.position.line = k + 1) ∧
        (r.changed = true ↔ r.output ≠ source)) ∧
    ∀ (mode : Diff.Mode) (files : Files.Tree) (path : String) (o : Run.Outcome),
      (Run.processFile tracked mode files path).2.result = .ok o →
        (o.changed = true ↔ o.renames ≠ []) ∧ (mode = .diff → o.stats.added = o.stats.removed) := by
  constructor
  · intro source t ht
    obtain ⟨r, parts, hr, hdrawn⟩ := Rewrite.exists_drawn tracked ht
    obtain ⟨hlength, hlines⟩ := hdrawn.lines
    exact ⟨r, hr, hlength, hlines, hdrawn.changed_iff⟩
  · intro mode files path o ho
    obtain ⟨source, r, -, hr, rfl⟩ := Run.processFile_eq_ok ho
    obtain ⟨parts, hdrawn⟩ := Rewrite.exists_parts hr
    refine ⟨?_, ?_⟩
    · rw [Run.outcomeOf_changed, Run.outcomeOf_renames, hdrawn.output_ne_iff]
    · rintro rfl
      exact Run.outcomeOf_balanced hdrawn

/-- A table with the flags of one command. -/
def listFlags : Flag.Table where
  commands := [("ls", [("sl", "selection"), ("l", "long")])]
  usable := by decide +kernel

/-- One tracked module with a table of its own. -/
def flaggedCmds : Tracked.Set :=
  ⟨[⟨⟨"maya", "cmds"⟩, some listFlags⟩], default⟩

/-- A call over two lines, with a flag on each of them. -/
def listCall : String :=
  "from maya import cmds\ncmds.ls(sl=True,\n        l=True)\n"

/-- A tree with one file. -/
def oneFile : Files.Tree :=
  ⟨.directory [("a.py", .file ⟨bytes listCall, true, true⟩)], []⟩

/-- Both lines of the call change, and the line of the import stays. -/
theorem changes_stay_in_lines_of_call :
    ∃ r, Rewrite.ofSource flaggedCmds listCall = .ok r ∧
      r.output = "from maya import cmds\ncmds.ls(selection=True,\n        long=True)\n" ∧
      (∀ k, (splitOn '\n' r.output.toList)[k]? ≠ (splitOn '\n' listCall.toList)[k]? ↔
        ∃ rename ∈ r.plan.renames, rename.position.line = k + 1) ∧ r.changed = true ∧
      ∃ o, (Run.processFile flaggedCmds .diff oneFile "a.py").2.result = .ok o ∧
        o.changed = true ∧ o.renames ≠ [] ∧ o.stats.added = o.stats.removed := by
  obtain ⟨hsources, hfiles⟩ := changes_stay_in_lines flaggedCmds
  obtain ⟨hfaultless, hformat⟩ : (parse listCall.toList).firstFault? 0 = none ∧
      (Rewrite.format flaggedCmds listCall).toOption =
        some "from maya import cmds\ncmds.ls(selection=True,\n        long=True)\n" := by
    decide +kernel
  obtain ⟨r, hr, -, hlines, hchanged⟩ := hsources listCall _ (parseChecked_of_faultless hfaultless)
  have houtput : r.output =
      "from maya import cmds\ncmds.ls(selection=True,\n        long=True)\n" := by
    rw [Rewrite.format, hr] at hformat
    exact Option.some.inj hformat
  have hchanged : r.changed = true := hchanged.2 (by rw [houtput]; decide)
  have hread : (Run.sourceOf "a.py" (oneFile.read "a.py")).toOption = some listCall := by
    decide +kernel
  have hsource : Run.sourceOf "a.py" (oneFile.read "a.py") = .ok listCall := by
    cases hs : Run.sourceOf "a.py" (oneFile.read "a.py") with
    | error e =>
        rw [hs] at hread
        cases hread
    | ok source =>
        rw [hs] at hread
        exact congrArg Except.ok (Option.some.inj hread)
  have hfile := Run.processFile_of_diff hsource hr
  obtain ⟨hiff, hbalanced⟩ := hfiles _ _ _ _ hfile
  have hrenames := Rewrite.changed_iff.1 hchanged
  exact ⟨r, hr, houtput, hlines, hchanged, _, hfile, hiff.2 hrenames, hrenames, hbalanced rfl⟩

end Longhand
