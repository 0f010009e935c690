import Longhand.Proofs.Rewritten

/-!
# Texts that can be patched

The rewriting of an accepted text carries out the plan of its calls, also where the calls are not
looked for because nothing tracked is bound.  Each call belongs to a module of the set, and the edits
cut the text between characters and follow each other, so that neither planning nor patching can
fail.
-/

namespace Longhand

open Text Syntax

namespace Scope

variable {s : Scopes} {source : List Char} {t u : Tree} {call : Edit.Call} {name : String}
  {offset : Nat} {b : Binding}

theorem Scopes.hasTracked_of_lookup (h : s.lookup name offset = some b)
    (hb : b.isTracked = true) : s.hasTracked = true := by
  obtain ⟨scope, hscope, e, he, -, -, rfl⟩ := exists_event_of_lookup h
  exact List.any_eq_true.2 ⟨scope, hscope, List.any_eq_true.2 ⟨e, he, hb⟩⟩

/-- The first name of a call that is found stands for something tracked. -/
theorem exists_tracked_of_call? (h : call? source s u = some call) :
    ∃ name after b, Calls u (name :: after) ∧ s.lookup name u.span.start = some b ∧
      b.target? s.tracked after = some (call.place, call.command) := by
  obtain ⟨⟨names, hcalls⟩, -⟩ := namedCall_of_call? h
  obtain ⟨-, hcallee, -⟩ := Draft.call?_eq_some h
  obtain ⟨name, after, rfl⟩ : ∃ name after, names = name :: after := by
    obtain ⟨-, callee, -, -, hsegments⟩ := hcalls
    exact List.exists_cons_of_ne_nil (ne_nil_of_segments hsegments)
  rw [callee?_eq hcalls] at hcallee
  obtain ⟨b, hlookup, htarget⟩ := Option.bind_eq_some_iff.1 hcallee
  exact ⟨name, after, b, hcalls, hlookup, htarget⟩

/-- Where nothing tracked is bound, there are no calls to look for. -/
theorem calls_eq_nil (h : s.hasTracked = false) : calls source s t = [] := by
  refine List.eq_nil_iff_forall_not_mem.2 fun call hcall => ?_
  obtain ⟨u, -, hfound⟩ := mem_calls_iff.1 hcall
  obtain ⟨name, after, b, -, hlookup, htarget⟩ := exists_tracked_of_call? hfound
  have htracked := Scopes.hasTracked_of_lookup hlookup (Binding.isTracked_of_target? htarget)
  rw [h] at htracked
  cases htracked

end Scope

namespace Edit

theorem patch_nil (source : List Char) : patch source [] = .ok source := by
  have happly : applySorted source 0 [] = some source := by rw [applySorted, splitAt?_zero]
  unfold patch
  simp only [stableSort, overlap?, happly]

end Edit

namespace Rewrite

open Edit

variable {tracked : Tracked.Set} {source : String} {t : Tree} {r : Rewrite}

/-- A rewriting carries out the plan of the calls. -/
theorem plan_of_ofSource (h : parseChecked source.toList = .ok t)
    (hr : ofSource tracked source = .ok r) :
    plan? tracked (Scope.calls source.toList (Scope.resolve tracked t) t) = some r.plan ∧
      patch source.toList r.plan.edits = .ok r.output.toList := by
  unfold ofSource at hr
  dsimp only at hr
  rw [h] at hr
  dsimp only at hr
  split at hr
  · unfold ofTree at hr
    dsimp only at hr
    split at hr
    · cases hr
    · rename_i plan hplan
      split at hr
      · cases hr
      · rename_i output hpatch
        cases hr
        exact ⟨hplan, by rw [hpatch, String.toList_ofList]⟩
  · rename_i hnone
    cases hr
    rw [Scope.calls_eq_nil (Bool.eq_false_iff.2 hnone)]
    exact ⟨rfl, patch_nil _⟩

/-- An edit replaces at least one character and begins and ends between two of them. -/
theorem Fits.cut {source : List Char} {plan : Plan} (h : Fits source plan) {e : Edit}
    (he : e ∈ plan.edits) : ∃ done named todo, source = done ++ (named ++ todo) ∧ named ≠ [] ∧
      e.span = ⟨byteSize done, byteSize (done ++ named)⟩ := by
  obtain ⟨c, hc, rfl⟩ := List.mem_map.1 he
  obtain ⟨done, todo, hsource, hstart, hstop⟩ := slice?_eq_some_iff.1 (h.slice c hc)
  refine ⟨done, c.rename.short.toList, todo, hsource, fun hnil => ?_, ?_⟩
  · have hlt := h.lt c hc
    rw [hnil, byteSize_nil] at hstop
    omega
  · rw [byteSize_append, hstart, ← hstop]
    rfl

/-- Each accepted text is rewritten.  Its nodes lie in order, each call that is found belongs to a
module of the set, and the edits that are planned for the calls follow each other, cut the text
between characters and are carried out. -/
theorem edits_fit (tracked : Tracked.Set) (h : parseChecked source.toList = .ok t) :
    Ordered t ∧
    (∀ call ∈ Scope.calls source.toList (Scope.resolve tracked t) t,
      call.place < tracked.members.length) ∧
    ∃ r, ofSource tracked source = .ok r ∧
      plan? tracked (Scope.calls source.toList (Scope.resolve tracked t) t) = some r.plan ∧
      r.plan.edits.Pairwise
        (fun a b => a.span.start < b.span.start ∧ a.span.stop ≤ b.span.start) ∧
      (∀ e ∈ r.plan.edits, ∃ done named todo, source.toList = done ++ (named ++ todo) ∧
        named ≠ [] ∧ e.span = ⟨byteSize done, byteSize (done ++ named)⟩) ∧
      patch source.toList r.plan.edits = .ok r.output.toList := by
  have hsourced := Scope.sourced_of_parseChecked h
  obtain ⟨r, parts, hr, -⟩ := exists_drawn tracked h
  obtain ⟨hplan, hpatch⟩ := plan_of_ofSource h hr
  have htwin : (Draft.ofText source.toList).Twin t t := by
    obtain ⟨hreads, rfl⟩ := reads_of_parseChecked h
    exact Draft.twin_parse hreads
  have hfits := fits_of_plan htwin hplan
  refine ⟨hsourced.ordered, fun call hcall => ?_, r, hr, hplan, ?_, fun e he => hfits.cut he, hpatch⟩
  · have htable := Scope.table?_of_mem_calls hsourced hcall
    by_contra hle
    have hnone : tracked.members[call.place]? = none := List.getElem?_eq_none (by omega)
    rw [Tracked.Set.table?, hnone] at htable
    cases htable
  · refine List.pairwise_map.2 (hfits.sorted.imp_of_mem fun {a b} ha _ hle => ?_)
    have hlt := hfits.lt a ha
    exact ⟨Nat.lt_of_lt_of_le hlt hle, hle⟩

/-- Flags of one command. -/
def selectionFlags : Flag.Table where
  commands := [("ls", [("sl", "selection"), ("dag", "dagObjects")])]
  usable := by decide +kernel

/-- A call inside an argument of another one, behind a character of two bytes. -/
def callInCall : String :=
  "from maya import cmds\ncmds.ls('é', dag=cmds.ls(sl=1), sl=2)\n"

/-- The outer call is found first, and the edits come in the order of the text. -/
theorem edits_fit_of_nested :
    let tracked : Tracked.Set := ⟨[⟨⟨"maya", "cmds"⟩, none⟩], selectionFlags⟩
    ∃ t r, parseChecked callInCall.toList = .ok t ∧ ofSource tracked callInCall = .ok r ∧
      r.output = "from maya import cmds\ncmds.ls('é', dagObjects=cmds.ls(selection=1), selection=2)\n" ∧
      r.plan.edits.Pairwise
        (fun a b => a.span.start < b.span.start ∧ a.span.stop ≤ b.span.start) ∧
      patch callInCall.toList r.plan.edits = .ok r.output.toList := by
  intro tracked
  obtain ⟨hfaultless, hformat⟩ : (parse callInCall.toList).firstFault? 0 = none ∧
      (format tracked callInCall).toOption = some
        "from maya import cmds\ncmds.ls('é', dagObjects=cmds.ls(selection=1), selection=2)\n" := by
    decide +kernel
  have hparse := parseChecked_of_faultless hfaultless
  obtain ⟨-, -, r, hr, -, hpairs, -, hpatch⟩ := edits_fit tracked hparse
  rw [format, hr] at hformat
  exact ⟨_, r, hparse, hr, Option.some.inj hformat, hpairs, hpatch⟩

end Rewrite

end Longhand
