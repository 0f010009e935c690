import Longhand.Proofs.Added
import Longhand.Proofs.Patchable

/-!
# Texts without tracked names

A text in which nothing tracked is bound is left as it is, and no calls are looked for in it.  This
only saves work: what a name is found to stand for is what some recorded binding says, so that the
search would find no call in such a text, and the rewriting is that of a pass which always searches.
-/

namespace Longhand.Rewrite

open Syntax

variable {tracked : Tracked.Set} {source : String} {t : Tree} {r : Rewrite}

/-- The pass that always looks for calls carries out the same plan as a rewriting, and counts the
calls. -/
theorem ofTree_of_ofSource (h : parseChecked source.toList = .ok t)
    (hr : ofSource tracked source = .ok r) :
    ofTree tracked source.toList t (Scope.resolve tracked t) = .ok ⟨r.output, r.plan,
      some (Scope.calls source.toList (Scope.resolve tracked t) t).length⟩ := by
  obtain ⟨hplan, hpatch⟩ := plan_of_ofSource h hr
  rw [ofTree, hplan]
  dsimp only
  rw [hpatch]
  dsimp only
  rw [String.ofList_toList]

/-- Each accepted text is rewritten, and a pass that always looks for calls gives the same new text
and the same plan.  Where nothing tracked is bound, no name stands for anything tracked at any place,
no call is found, and the text stays as it is. -/
theorem shortcut_agrees (tracked : Tracked.Set) (h : parseChecked source.toList = .ok t) :
    (∃ r full, ofSource tracked source = .ok r ∧
      ofTree tracked source.toList t (Scope.resolve tracked t) = .ok full ∧
      r.output = full.output ∧ r.plan = full.plan) ∧
    ((Scope.resolve tracked t).hasTracked = false →
      (∀ name offset b, (Scope.resolve tracked t).lookup name offset = some b → b = .untracked) ∧
      Scope.calls source.toList (Scope.resolve tracked t) t = [] ∧
      ofSource tracked source = .ok ⟨source, Edit.Plan.empty, none⟩) := by
  constructor
  · obtain ⟨r, parts, hr, -⟩ := exists_drawn tracked h
    exact ⟨r, _, hr, ofTree_of_ofSource h hr, rfl, rfl⟩
  · intro hnone
    refine ⟨fun name offset b hlookup => ?_, Scope.calls_eq_nil hnone, ?_⟩
    · have huntracked : ¬ b.isTracked = true := by
        intro htracked
        rw [Scope.Scopes.hasTracked_of_lookup hlookup htracked] at hnone
        cases hnone
      exact Scope.Binding.eq_untracked huntracked
    · unfold ofSource
      dsimp only
      rw [h]
      dsimp only
      rw [hnone]
      rfl

/-- Another module with the name of a tracked one, imported in an arm of a class body, with calls
around a comprehension that binds the name again. -/
def namesake : String :=
  "class A:\n    if b:\n        from abc import cmds\n    cmds.ls(sl=1)\n" ++
    "def f():\n    return [cmds.ls(sl=x) for cmds in cmds.ls(dag=1)]\n"

/-- The calls of the namesake are not calls of the tracked module, and the text is skipped. -/
theorem shortcut_agrees_namesake :
    let tracked : Tracked.Set := ⟨[⟨⟨"maya", "cmds"⟩, none⟩], selectionFlags⟩
    ∃ t, parseChecked namesake.toList = .ok t ∧ (Scope.resolve tracked t).hasTracked = false ∧
      Scope.calls namesake.toList (Scope.resolve tracked t) t = [] ∧
      ∃ r full, ofSource tracked namesake = .ok r ∧
        ofTree tracked namesake.toList t (Scope.resolve tracked t) = .ok full ∧
        r.output = full.output ∧ r.plan = full.plan ∧ full.output = namesake := by
  intro tracked
  obtain ⟨hfaultless, hnone⟩ : (parse namesake.toList).firstFault? 0 = none ∧
      (Scope.resolve tracked (parse namesake.toList)).hasTracked = false := by
    decide +kernel
  have hparse := parseChecked_of_faultless hfaultless
  obtain ⟨⟨r, full, hr, hfull, houtput, hplan⟩, hskipped⟩ := shortcut_agrees tracked hparse
  obtain ⟨-, hcalls, hsource⟩ := hskipped hnone
  refine ⟨_, hparse, hnone, hcalls, r, full, hr, hfull, houtput, hplan, ?_⟩
  rw [hsource] at hr
  cases hr
  exact houtput.symm

end Longhand.Rewrite
