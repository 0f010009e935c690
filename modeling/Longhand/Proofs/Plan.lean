import Longhand.Proofs.Keyword

/-!
# Planned changes

A change stands at the keyword of a call and replaces its name by the one that the table gives.  As
keywords do not overlap, sorted changes follow each other.
-/

namespace Longhand.Edit

open Text

/-! ## Changes of one call -/

/-- The change of a keyword of a call, if there is one. -/
def change? (table : Flag.Table) (call : Call) (k : Keyword) : Option Change :=
  match candidate? table call.command k with
  | none => none
  | some (_, long) =>
      let targets := (call.keywords.filterMap (candidate? table call.command)).map Prod.snd
      match conflict? call.keywords targets long with
      | none => some ⟨k.span, ⟨k.position, call.command, k.name, long⟩⟩
      | some _ => none

theorem candidate?_eq_some {table : Flag.Table} {command : String} {k : Keyword}
    {c : Keyword × String} (h : candidate? table command k = some c) :
    c.1 = k ∧ table.lookup command k.name = some c.2 ∧ c.2 ≠ k.name := by
  unfold candidate? at h
  split at h
  · cases h
  · rename_i long hlookup
    split at h
    · cases h
    · rename_i hne
      cases h
      exact ⟨rfl, hlookup, by simpa using hne⟩

/-- The changes of a call are those of its keywords, in order. -/
theorem planCall_changes (table : Flag.Table) (call : Call) :
    (planCall table call).filterMap Sum.getLeft? = call.keywords.filterMap (change? table call) := by
  unfold planCall
  rw [List.filterMap_map, List.filterMap_filterMap]
  congr 1
  funext k
  unfold change?
  cases hk : candidate? table call.command k with
  | none => rfl
  | some c =>
      obtain ⟨rfl, -⟩ := candidate?_eq_some hk
      rw [Option.bind_some, Function.comp_apply]
      dsimp only
      cases conflict? call.keywords _ c.2 <;> rfl

/-- What a change does to a keyword. -/
theorem change?_eq_some {table : Flag.Table} {call : Call} {k : Keyword} {c : Change}
    (h : change? table call k = some c) :
    c.span = k.span ∧ c.rename.position = k.position ∧ c.rename.command = call.command ∧
      c.rename.short = k.name ∧ table.lookup call.command k.name = some c.rename.long ∧
      c.rename.long ≠ k.name := by
  unfold change? at h
  split at h
  · cases h
  · rename_i hcandidate
    obtain ⟨-, hlookup, hne⟩ := candidate?_eq_some hcandidate
    dsimp only at h
    split at h
    · cases h
      exact ⟨rfl, rfl, rfl, rfl, hlookup, hne⟩
    · cases h

/-! ## Changes of all calls -/

variable {tracked : Tracked.Set} {calls : List Call} {entries : List (Change ⊕ Conflict)}

/-- A plan fails only for a call of no module. -/
theorem exists_planCalls (h : ∀ call ∈ calls, (tracked.table? call.place).isSome = true) :
    ∃ entries, planCalls tracked calls = some entries := by
  induction calls with
  | nil => exact ⟨[], rfl⟩
  | cons call rest ih =>
      obtain ⟨table, htable⟩ := Option.isSome_iff_exists.1 (h call List.mem_cons_self)
      obtain ⟨entries, hentries⟩ := ih fun c hc => h c (List.mem_cons_of_mem _ hc)
      exact ⟨_, by rw [planCalls, htable, hentries]⟩

theorem planCalls_cons {call : Call}
    (h : planCalls tracked (call :: calls) = some entries) :
    ∃ table rest, tracked.table? call.place = some table ∧ planCalls tracked calls = some rest ∧
      entries = planCall table call ++ rest := by
  rw [planCalls] at h
  split at h
  · rename_i table rest htable hrest
    cases h
    exact ⟨table, rest, htable, hrest, rfl⟩
  · cases h

/-- Each change is that of a keyword of some call. -/
theorem mem_changes (h : planCalls tracked calls = some entries) {c : Change}
    (hc : c ∈ entries.filterMap Sum.getLeft?) :
    ∃ call ∈ calls, ∃ k ∈ call.keywords, ∃ table, tracked.table? call.place = some table ∧
      change? table call k = some c := by
  induction calls generalizing entries with
  | nil =>
      cases h
      cases hc
  | cons call rest ih =>
      obtain ⟨table, more, htable, hmore, rfl⟩ := planCalls_cons h
      rw [List.filterMap_append, planCall_changes] at hc
      rcases List.mem_append.1 hc with hc | hc
      · obtain ⟨k, hk, hchange⟩ := List.mem_filterMap.1 hc
        exact ⟨call, List.mem_cons_self, k, hk, table, htable, hchange⟩
      · obtain ⟨call', hcall', hrest⟩ := ih hmore hc
        exact ⟨call', List.mem_cons_of_mem _ hcall', hrest⟩

theorem filterMap_span_sublist {f : Keyword → Option Change}
    (hf : ∀ k c, f k = some c → c.span = k.span) (ks : List Keyword) :
    ((ks.filterMap f).map (·.span)).Sublist (ks.map (·.span)) := by
  induction ks with
  | nil => exact .slnil
  | cons k ks ih =>
      rw [List.filterMap_cons]
      split
      · exact .cons _ ih
      · rename_i c hc
        rw [List.map_cons, List.map_cons, hf k c hc]
        exact .cons_cons _ ih

/-- The changes stand at different keywords, in the order of the calls. -/
theorem changes_sublist (h : planCalls tracked calls = some entries) :
    ((entries.filterMap Sum.getLeft?).map (·.span)).Sublist
      ((calls.flatMap (·.keywords)).map (·.span)) := by
  induction calls generalizing entries with
  | nil =>
      cases h
      exact .slnil
  | cons call rest ih =>
      obtain ⟨table, more, htable, hmore, rfl⟩ := planCalls_cons h
      rw [List.filterMap_append, planCall_changes, List.map_append, List.flatMap_cons,
        List.map_append]
      exact .append (filterMap_span_sublist (fun k c hc => (change?_eq_some hc).1) _) (ih hmore)

/-! ## The plan -/

theorem Change.le_iff {a b : Change} :
    a.le b = true ↔ a.span.start < b.span.start ∨
      (a.span.start = b.span.start ∧ a.span.stop ≤ b.span.stop) := by
  show (decide (a.span.start < b.span.start) ||
    (a.span.start == b.span.start && decide (a.span.stop ≤ b.span.stop))) = true ↔ _
  simp

theorem Change.le_total (a b : Change) : a.le b = true ∨ b.le a = true := by
  rw [Change.le_iff, Change.le_iff]
  omega

theorem Change.le_trans (a b c : Change) (hab : a.le b = true) (hbc : b.le c = true) :
    a.le c = true := by
  rw [Change.le_iff] at hab hbc ⊢
  omega

theorem plan?_eq_some {plan : Plan} (h : plan? tracked calls = some plan) :
    ∃ entries, planCalls tracked calls = some entries ∧
      plan.changes = stableSort Change.le (entries.filterMap Sum.getLeft?) ∧
      plan.conflicts = entries.filterMap Sum.getRight? := by
  unfold plan? at h
  split at h
  · cases h
  · rename_i entries hentries
    cases h
    exact ⟨entries, hentries, rfl, rfl⟩

/-- Changes whose spans do not overlap follow each other when they are sorted. -/
theorem stableSort_changes {changes : List Change}
    (hapart : (changes.map (·.span)).Pairwise Span.Apart)
    (hlt : ∀ c ∈ changes, c.span.start < c.span.stop) :
    (stableSort Change.le changes).Pairwise fun a b => a.span.stop ≤ b.span.start := by
  have hperm := stableSort_perm Change.le changes
  have hsorted := stableSort_pairwise Change.le_total Change.le_trans changes
  have hapart : (stableSort Change.le changes).Pairwise fun a b => a.span.Apart b.span := by
    rw [List.pairwise_map] at hapart
    exact hperm.symm.pairwise hapart fun h => h.symm
  refine (hsorted.and hapart).imp_of_mem fun {a b} ha hb h => ?_
  have hle := Change.le_iff.1 h.1
  have hb := hlt b (hperm.mem_iff.1 hb)
  rcases h.2 with hstop | hstop
  · exact hstop
  · omega

end Longhand.Edit
