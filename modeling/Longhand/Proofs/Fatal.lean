import Longhand.Command.Execute
import Longhand.Proofs.Modes

/-!
# Runs that cannot be set up

A run needs a table, modules and files.  If it lacks one of them it ends before anything is written,
whatever else it was given.  A run that lacks none of them touches the files that were collected for
it, and no others.
-/

namespace Longhand

theorem exists_mapM_iff {α β ε : Type} {f : α → Except ε β} {l : List α} :
    (∃ ys, l.mapM f = .ok ys) ↔ ∀ x ∈ l, ∃ y, f x = .ok y := by
  induction l with
  | nil => simp [pure, Except.pure]
  | cons x rest ih =>
      rw [List.mapM_cons, List.forall_mem_cons, ← ih]
      cases f x with
      | error e => simp [bind, Except.bind]
      | ok y =>
          cases rest.mapM f with
          | error e => simp [bind, Except.bind]
          | ok ys => simp [bind, Except.bind, pure, Except.pure]

namespace Command

open Files (Tree)

variable {t : Tree} {env : Environment} {o : Options}

/-- The files that a run with some options is about. -/
def Options.collect (o : Options) (t : Tree) : Except Files.CollectError (List String) :=
  Files.collect t o.sources ⟨o.exclude, o.excludeFiles, o.includeHidden⟩

/-- What a run cannot do without, each for itself. -/
inductive Unready (t : Tree) (env : Environment) (o : Options) : Prop
  /-- There is no file with a table for the version that is asked for. -/
  | version {fault : Config.Fault} (h : chooseTable t env o = .error fault)
  /-- The file with the table cannot be read as one. -/
  | table {path : String} {v : Option Config.Versioned} {fault : Config.Fault}
      (hchosen : chooseTable t env o = .ok (path, v)) (h : Config.loadTable t path = .error fault)
  /-- A module spec is refused. -/
  | specs {e : Tracked.SpecError}
      (h : Tracked.Spec.parseList (o.modules.getD defaultModules) = .error e)
  /-- A table for one module cannot be had. -/
  | override {item : String} {fault : Config.Fault} (hitem : item ∈ o.moduleConfigs)
      (h : Config.readOverride t item = .error fault)
  /-- A source or an exclusion is no pattern. -/
  | sources {e : Files.CollectError} (h : o.collect t = .error e)
  /-- No file is to be rewritten. -/
  | empty (h : o.collect t = .ok [])

/-- The modules of a run can be had exactly if all specs are read and all tables are loaded. -/
theorem exists_loadModules_iff {specs : String} {items : List String} {table : Flag.Table} :
    (∃ tracked, Config.loadModules t specs items table = .ok tracked) ↔
      (∃ parsed, Tracked.Spec.parseList specs = .ok parsed) ∧
        ∀ item ∈ items, ∃ override, Config.readOverride t item = .ok override := by
  rw [← exists_mapM_iff]
  unfold Config.loadModules
  cases Tracked.Spec.parseList specs with
  | error e => simp
  | ok parsed => cases items.mapM (Config.readOverride t) <;> simp

/-- A run with a table, with modules and with files lacks nothing. -/
theorem not_unready {path : String} {v : Option Config.Versioned} {table : Flag.Table}
    {tracked : Tracked.Set} {files : List String}
    (hchosen : chooseTable t env o = .ok (path, v)) (htable : Config.loadTable t path = .ok table)
    (hmodules : Config.loadModules t (o.modules.getD defaultModules) o.moduleConfigs table
      = .ok tracked)
    (hfiles : o.collect t = .ok files) (hne : files ≠ []) : ¬Unready t env o := by
  obtain ⟨⟨parsed, hparsed⟩, hoverrides⟩ := exists_loadModules_iff.1 ⟨tracked, hmodules⟩
  intro hunready
  cases hunready with
  | version h => simp [hchosen] at h
  | table hchosen' h =>
      rw [hchosen] at hchosen'
      cases hchosen'
      simp [htable] at h
  | specs h => simp [hparsed] at h
  | override hitem h =>
      obtain ⟨override, hoverride⟩ := hoverrides _ hitem
      simp [hoverride] at h
  | sources h => simp [hfiles] at h
  | empty h =>
      rw [hfiles] at h
      cases h
      exact hne rfl

/-- A run whose modules cannot be had lacks a spec or a table for one of them. -/
theorem unready_of_loadModules {table : Flag.Table} {fault : Config.Fault}
    (h : Config.loadModules t (o.modules.getD defaultModules) o.moduleConfigs table
      = .error fault) : Unready t env o := by
  cases hspecs : Tracked.Spec.parseList (o.modules.getD defaultModules) with
  | error e => exact .specs hspecs
  | ok parsed =>
      by_contra hready
      -- With all tables at hand the modules are there as well.
      suffices ∃ tracked, Config.loadModules t (o.modules.getD defaultModules)
          o.moduleConfigs table = .ok tracked by
        obtain ⟨tracked, htracked⟩ := this
        rw [h] at htracked
        cases htracked
      refine exists_loadModules_iff.2 ⟨⟨parsed, hspecs⟩, fun item hitem => ?_⟩
      cases hoverride : Config.readOverride t item with
      | error e => exact absurd (.override hitem hoverride) hready
      | ok override => exact ⟨override, rfl⟩

/-- A run is set up exactly if it lacks nothing, and then for the files that are collected. -/
theorem prepare_spec (t : Tree) (env : Environment) (o : Options) :
    (∃ failure, (prepare t env o).2 = .error failure ∧ Unready t env o) ∨
      ∃ work, (prepare t env o).2 = .ok work ∧ ¬Unready t env o ∧
        o.collect t = .ok work.files ∧ work.files ≠ [] := by
  unfold prepare
  cases hchosen : chooseTable t env o with
  | error fault => exact .inl ⟨_, rfl, .version hchosen⟩
  | ok chosen =>
      obtain ⟨path, v⟩ := chosen
      dsimp only
      cases htable : Config.loadTable t path with
      | error fault => exact .inl ⟨_, rfl, .table hchosen htable⟩
      | ok table =>
          dsimp only
          cases hmodules : Config.loadModules t (o.modules.getD defaultModules) o.moduleConfigs
              table with
          | error fault => exact .inl ⟨_, rfl, unready_of_loadModules hmodules⟩
          | ok tracked =>
              dsimp only
              cases hfiles : o.collect t with
              | error e =>
                  rw [show Files.collect t o.sources _ = _ from hfiles]
                  exact .inl ⟨_, rfl, .sources hfiles⟩
              | ok files =>
                  rw [show Files.collect t o.sources _ = _ from hfiles]
                  cases files with
                  | nil => exact .inl ⟨_, rfl, .empty hfiles⟩
                  | cons first rest =>
                      refine .inr ⟨⟨tracked, first :: rest⟩, rfl, ?_, rfl, by simp⟩
                      exact not_unready hchosen htable hmodules hfiles (by simp)

/-- A run that cannot be set up fails and leaves all files as they are. -/
theorem perform_of_error {failure : Failure} (h : (prepare t env o).2 = .error failure) :
    (perform t env o).exitCode = 2 ∧ (perform t env o).tree = t ∧
      (perform t env o).output = [.err ("error: " ++ failure.message ++ "\n")] := by
  unfold perform
  simp only [h, and_self]

/-- A run that is set up leaves the tree that the rewriting of its files leaves. -/
theorem perform_of_ok {work : Work} (h : (prepare t env o).2 = .ok work) :
    (perform t env o).tree = (Run.processFiles work.tracked o.mode t work.files).1 := by
  unfold perform
  simp only [h]

/-- A run that lacks something it cannot do without exits with a failure and leaves all files as they
are.  Any other run leaves the files alone that are not among those collected for it. -/
theorem fatal_touches_nothing (t : Tree) (env : Environment) (arguments : List String) (o : Options)
    (haccepted : readOptions arguments env.configDirectory = .ok o) :
    ∃ f, execute t env arguments = .ok f ∧
      (Unready t env o → f.exitCode = 2 ∧ f.tree = t) ∧
      (¬Unready t env o → ∃ files, o.collect t = .ok files ∧ files ≠ [] ∧
        (∀ place, f.tree.root.kind? place = t.root.kind? place) ∧
        ∀ place, (∀ path ∈ files, t.resolve path ≠ .ok place) →
          f.tree.root.file? place = t.root.file? place) := by
  refine ⟨perform t env o, by rw [execute, haccepted]; rfl, ?_, ?_⟩
  · intro hunready
    rcases prepare_spec t env o with ⟨failure, hfailure, -⟩ | ⟨work, -, hready, -⟩
    · obtain ⟨hexit, htree, -⟩ := perform_of_error hfailure
      exact ⟨hexit, htree⟩
    · exact absurd hunready hready
  · intro hready
    rcases prepare_spec t env o with ⟨failure, -, hunready⟩ | ⟨work, hwork, -, hcollect, hne⟩
    · exact absurd hunready hready
    · refine ⟨work.files, hcollect, hne, ?_, ?_⟩
      · rw [perform_of_ok hwork]
        exact (Run.processFiles_alike work.tracked o.mode t work.files).kind
      · intro place hplace
        rw [perform_of_ok hwork]
        exact Run.processFiles_file? hplace

/-- A tree with a table and a file that it would change. -/
def tabledTree : Tree :=
  ⟨.directory
    [("a.py", .file ⟨Text.bytes "from maya import cmds\ncmds.ls(sl=True)\n", true, true⟩),
      ("t.json", .file ⟨Text.bytes "{}", true, true⟩)], []⟩

/-- A run with a table for one module that is not there fails before it looks at its sources. -/
theorem fatal_touches_nothing_without_table :
    let arguments := ["--config", "t.json", "--module-config", "maya:cmds=m.json", "a.py"]
    ∃ o f, readOptions arguments none = .ok o ∧
      Config.readOverride tabledTree "maya:cmds=m.json" = .error (.read "m.json" .notFound) ∧
      execute tabledTree {} arguments = .ok f ∧ f.exitCode = 2 ∧ f.tree = tabledTree := by
  intro arguments
  have haccepted : readOptions arguments none = .ok
      { sources := ["a.py"], config := some "t.json", moduleConfigs := ["maya:cmds=m.json"] } := by
    rfl
  have hmissing : Config.readOverride tabledTree "maya:cmds=m.json"
      = .error (.read "m.json" .notFound) := by rfl
  obtain ⟨f, hf, hfatal, -⟩ := fatal_touches_nothing tabledTree {} arguments _ haccepted
  obtain ⟨hexit, htree⟩ := hfatal (.override (List.mem_singleton.2 rfl) hmissing)
  exact ⟨_, f, haccepted, hmissing, hf, hexit, htree⟩

end Command

end Longhand
