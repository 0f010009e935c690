import Longhand.Proofs.Reparsed
import Longhand.Proofs.Settled

/-!
# Rewriting the rewritten text

The calls that are found in the new text are those of the old one, at their moved places and with
the names that the plan gives them.  If no long name is a flag for yet another name, these calls are
settled, and rewriting the new text leaves it as it is.
-/

namespace Longhand

open Syntax Text

/-- Two different members of a list are related if all pairs of it are, in either order. -/
theorem related_of_pairwise {α : Type} {R : α → α → Prop} {l : List α} {a b : α}
    (hsymm : ∀ a b, R a b → R b a) (h : l.Pairwise R) (ha : a ∈ l) (hb : b ∈ l) (hne : a ≠ b) :
    R a b := by
  have : Std.Symm R := ⟨hsymm⟩
  exact h.forall ha hb hne

/-- A span that is not empty is not apart from itself. -/
theorem Text.Span.Apart.ne {s s' : Span} (h : s.Apart s') (hlt : s.start < s.stop) : s ≠ s' := by
  rintro rfl
  rcases h with hle | hle <;> omega

/-! ## Calls at other places -/

namespace Edit

variable {table : Flag.Table} {tracked : Tracked.Set} {call : Call} {calls : List Call}
  {p p' : Plan} {source : List Char} {σ : Nat → Nat}

/-- A keyword at its moved place in another text. -/
def Keyword.moved (source : List Char) (σ : Nat → Nat) (k : Keyword) : Keyword :=
  ⟨k.name, k.span.move σ, k.value.move σ, positionAt source (σ k.span.start)⟩

/-- A call at its moved place in another text. -/
def Call.moved (source : List Char) (σ : Nat → Nat) (call : Call) : Call :=
  { call with
    span := call.span.move σ
    keywords := call.keywords.map (Keyword.moved source σ) }

theorem candidate?_moved (command : String) (k : Keyword) :
    candidate? table command (k.moved source σ) =
      (candidate? table command k).map fun c => (k.moved source σ, c.2) := by
  unfold candidate?
  dsimp only [Keyword.moved]
  cases table.lookup command k.name with
  | none => rfl
  | some long => by_cases hlong : long = k.name <;> simp [hlong]

/-- Whether a keyword is renamed does not hang on where its call stands. -/
theorem isSome_change?_moved (call : Call) (k : Keyword) :
    (change? table (call.moved source σ) (k.moved source σ)).isSome =
      (change? table call k).isSome := by
  have htargets : ((call.moved source σ).keywords.filterMap (candidate? table call.command)).map
        Prod.snd = (call.keywords.filterMap (candidate? table call.command)).map Prod.snd := by
    simp only [Call.moved, List.filterMap_map, List.map_filterMap]
    refine List.filterMap_congr fun k _ => ?_
    rw [Function.comp_apply, candidate?_moved, Option.map_map]
    rfl
  have hconflict : ∀ targets long, conflict? (call.moved source σ).keywords targets long =
      conflict? call.keywords targets long := by
    intro targets long
    have hwritten : (call.moved source σ).keywords.any (·.name == long) =
        call.keywords.any (·.name == long) := by
      simp only [Call.moved, List.any_map]
      rfl
    rw [conflict?, conflict?, hwritten]
  unfold change?
  rw [show (call.moved source σ).command = call.command from rfl, candidate?_moved]
  cases candidate? table call.command k with
  | none => rfl
  | some c =>
      dsimp only [Option.map_some]
      rw [htargets, hconflict]
      cases conflict? call.keywords _ c.2 <;> rfl

/-- A plan without changes has none at other places either. -/
theorem changes_moved (h : plan? tracked calls = some p) (hnone : p.changes = [])
    (h' : plan? tracked (calls.map (Call.moved source σ)) = some p') : p'.changes = [] := by
  refine List.eq_nil_iff_forall_not_mem.2 fun c hc => ?_
  obtain ⟨_, hmoved, table, htable, _, hplaced, hchange⟩ := (mem_changes_iff h').1 hc
  obtain ⟨call, hcall, rfl⟩ := List.mem_map.1 hmoved
  obtain ⟨k, hk, rfl⟩ := List.mem_map.1 hplaced
  have hsome : (change? table (call.moved source σ) (k.moved source σ)).isSome =
      (change? table call k).isSome := isSome_change?_moved call k
  rw [hchange] at hsome
  obtain ⟨c', hc'⟩ := Option.isSome_iff_exists.1 hsome.symm
  have hmem := (mem_changes_iff h).2 ⟨call, hcall, table, htable, k, hk, hc'⟩
  rw [hnone] at hmem
  cases hmem

end Edit

/-! ## The calls of the new text -/

namespace Rewrite

open Edit

variable {tracked : Tracked.Set} {source : String} {t t' : Tree} {r : Rewrite}

/-- The calls of an accepted text belong to modules of the set. -/
theorem place_lt (h : parseChecked source.toList = .ok t) :
    ∀ call ∈ Scope.calls source.toList (Scope.resolve tracked t) t,
      call.place < tracked.members.length := by
  intro call hcall
  have htable := Scope.table?_of_mem_calls (Scope.sourced_of_parseChecked h) hcall
  by_contra hle
  have hnone : tracked.members[call.place]? = none := List.getElem?_eq_none (by omega)
  rw [Tracked.Set.table?, hnone] at htable
  cases htable

theorem keywords_spread (h : parseChecked source.toList = .ok t) (scopes : Scope.Scopes) :
    Draft.Spread t.span ((Scope.calls source.toList scopes t).flatMap (·.keywords)) := by
  obtain ⟨hreads, rfl⟩ := reads_of_parseChecked h
  exact Draft.Twin.calls_spread 0 (Draft.twin_parse hreads)

/-- No two calls of an accepted text have a keyword at one place. -/
theorem keywords_apart (h : parseChecked source.toList = .ok t) (scopes : Scope.Scopes) :
    (Scope.calls source.toList scopes t).Pairwise
      fun a b => ∀ k ∈ a.keywords, ∀ k' ∈ b.keywords, k.span ≠ k'.span := by
  have hspread := keywords_spread h scopes
  refine (List.pairwise_flatMap.1 hspread.apart).2.imp_of_mem
    fun {a b} ha _ hapart k hk k' hk' => ?_
  exact (hapart k hk k' hk').ne (hspread.lt k (List.mem_flatMap.2 ⟨a, ha, hk⟩))

/-- The name that a plan puts at the place of a keyword is the one that it gives to the keyword. -/
theorem nameAt_eq_nameOf (h : parseChecked source.toList = .ok t)
    (hr : ofSource tracked source = .ok r) {call : Call}
    (hcall : call ∈ Scope.calls source.toList (Scope.resolve tracked t) t) {k : Keyword}
    (hk : k ∈ call.keywords) : r.plan.nameAt source.toList k.span = r.plan.nameOf call k := by
  obtain ⟨hplan, -⟩ := plan_of_ofSource h hr
  have hapart := keywords_apart h (Scope.resolve tracked t)
  have hspread := keywords_spread h (Scope.resolve tracked t)
  -- A change at the place of the keyword is about the keyword.
  have hsame : ∀ c ∈ r.plan.changes, decide (c.span = k.span) = c.concerns call k := by
    intro c hc
    rw [Bool.eq_iff_iff, decide_eq_true_eq]
    constructor
    · intro hspan
      obtain ⟨other, hother, table, -, k', hk', hchange⟩ := (mem_changes_iff hplan).1 hc
      rw [(change?_eq_some hchange).1] at hspan
      obtain rfl : other = call := by
        by_contra hne
        exact related_of_pairwise (fun a b hab k hk k' hk' => (hab k' hk' k hk).symm) hapart hother
          hcall hne k' hk' k hk hspan
      obtain rfl : k' = k := by
        by_contra hne
        have hmem := List.mem_flatMap.2 ⟨_, hcall, hk'⟩
        exact (related_of_pairwise (fun _ _ h => h.symm) hspread.apart hmem
          (List.mem_flatMap.2 ⟨_, hcall, hk⟩) hne).ne (hspread.lt k' hmem) hspan
      exact concerns_of_change? hchange
    · intro hconcerns
      simp only [Change.concerns, Bool.and_eq_true, decide_eq_true_eq] at hconcerns
      exact hconcerns.1.1.1
  have hslice : slice? source.toList k.span = some k.name.toList := by
    obtain ⟨hreads, rfl⟩ := reads_of_parseChecked h
    obtain ⟨done, todo, -, hsource, hstart, hstop, -⟩ :=
      Scope.stands_of_mem_calls (Draft.twin_parse hreads) hcall hk
    exact slice?_eq_some_iff.2 ⟨done, todo, hsource, hstart.symm, by rw [hstop, hstart]⟩
  unfold Plan.nameAt Plan.nameOf
  rw [List.find?_congr hsame, hslice]
  cases r.plan.changes.find? (·.concerns call k) with
  | none => exact String.ofList_toList
  | some c => rfl

/-- The calls of the new text are those of the old one with the names that the plan gives them, at
moved places. -/
theorem calls_output (h : parseChecked source.toList = .ok t) (hr : ofSource tracked source = .ok r)
    (hidentifier : ∀ c ∈ r.plan.changes, Flag.isIdentifier c.rename.long = true)
    (hreads : ReadsAsIs source.toList ∨ r.plan.IsRegular)
    (ht' : parseChecked r.output.toList = .ok t') :
    Scope.calls r.output.toList (Scope.resolve tracked t') t' =
      ((Scope.calls source.toList (Scope.resolve tracked t) t).map (Call.apply r.plan)).map
        (Call.moved r.output.toList r.plan.offset) := by
  obtain ⟨hreads', rfl⟩ := reads_of_parseChecked ht'
  obtain ⟨g, htwin, hoffset, htree⟩ := exists_twin h hr hidentifier
    (hreads.imp id fun hregular => ⟨hregular, hreads'⟩)
  -- The offsets of the places of the draft keep their order, and all nodes begin and end at such.
  have hkeeps : Keeps (fun o => ∃ o', g.Cut o o') r.plan.offset := by
    rintro a b ⟨a', ha⟩ ⟨b', hb⟩ hlt
    rw [hoffset _ _ ha, hoffset _ _ hb]
    exact (ha.lt_iff hb).1 hlt
  have hnodes : ∀ u, IsNode u t → u.span.On fun o => ∃ o', g.Cut o o' := by
    intro u hu
    obtain ⟨_, -, hutwin, -⟩ := htwin.node hu
    exact ⟨⟨_, hutwin.spans.start⟩, ⟨_, hutwin.spans.stop⟩⟩
  have hzero : r.plan.offset 0 = 0 := hoffset _ _ (.zero g)
  rw [htree, Scope.resolve_relabel hkeeps hzero hnodes]
  rw [Scope.calls, Scope.callsAt_relabel hkeeps
    (Scope.resolve_on tracked ⟨0, .zero g⟩ hnodes) .elsewhere 0 t hnodes]
  rw [List.map_map]
  refine List.map_congr_left fun call hcall => ?_
  have hkeywords : call.keywords.map (Scope.moveKeyword r.output.toList
        (r.plan.nameAt source.toList) r.plan.offset) =
      (call.apply r.plan).keywords.map (Keyword.moved r.output.toList r.plan.offset) := by
    rw [Call.apply, List.map_map]
    refine List.map_congr_left fun k hk => ?_
    rw [Scope.moveKeyword, nameAt_eq_nameOf h hr hcall hk]
    rfl
  rw [Scope.moveCall, hkeywords]
  rfl

/-- An accepted text is rewritten.  Suppose that no long name is a flag for another one, and that
the new names are identifiers.  If the new text is accepted too, then rewriting it plans no edits
and leaves it as it is. -/
theorem output_settled (tracked : Tracked.Set) (h : parseChecked source.toList = .ok t) :
    ∃ r, ofSource tracked source = .ok r ∧
      (tracked.ChainFree → (∀ c ∈ r.plan.changes, Flag.isIdentifier c.rename.long = true) →
        ReadsAsIs source.toList ∨ r.plan.IsRegular →
        ∀ t', parseChecked r.output.toList = .ok t' →
          ∃ r', ofSource tracked r.output = .ok r' ∧ r'.plan.edits = [] ∧ r'.output = r.output) := by
  obtain ⟨r, -, hr, -⟩ := exists_drawn tracked h
  refine ⟨r, hr, fun hchain hidentifier hreads t' ht' => ?_⟩
  obtain ⟨r', -, hr', -⟩ := exists_drawn tracked ht'
  obtain ⟨hplan, -⟩ := plan_of_ofSource h hr
  obtain ⟨hplan', hpatch⟩ := plan_of_ofSource ht' hr'
  have hsettled := plan?_settled hchain
    (forall₂_apply (place_lt h) hplan (keywords_apart h (Scope.resolve tracked t))) hplan
  rw [calls_output h hr hidentifier hreads ht'] at hplan'
  have hnone := changes_moved hsettled rfl hplan'
  have hedits : r'.plan.edits = [] := by rw [Plan.edits, hnone, List.map_nil]
  rw [hedits, patch_nil] at hpatch
  exact ⟨r', hr', hedits, String.toList_inj.1 (Except.ok.inj hpatch).symm⟩

/-- Two flags with one long name in a call, and another call inside an argument of it. -/
def twoQueries : String :=
  "from maya import cmds\ncmds.about(q=1, qu=2, name=cmds.about(n=4))\n"

/-- The flags with one long name are in conflict before and after the inner call is rewritten. -/
theorem output_settled_of_conflict :
    let tracked : Tracked.Set := ⟨[⟨⟨"maya", "cmds"⟩, none⟩], unchainedFlags⟩
    ∃ t r t' r', parseChecked twoQueries.toList = .ok t ∧ ofSource tracked twoQueries = .ok r ∧
      r.output = "from maya import cmds\ncmds.about(q=1, qu=2, name=cmds.about(name=4))\n" ∧
      parseChecked r.output.toList = .ok t' ∧ ofSource tracked r.output = .ok r' ∧
      r'.plan.edits = [] ∧ r'.output = r.output := by
  intro tracked
  obtain ⟨hfaultless, hasis, hresult⟩ : (parse twoQueries.toList).firstFault? 0 = none ∧
      ReadsAsIs twoQueries.toList ∧ ∀ r ∈ (ofSource tracked twoQueries).toOption, r.output =
        "from maya import cmds\ncmds.about(q=1, qu=2, name=cmds.about(name=4))\n" ∧
        (∀ c ∈ r.plan.changes, Flag.isIdentifier c.rename.long = true) ∧
        (parse r.output.toList).firstFault? 0 = none := by
    decide +kernel
  have hparse := parseChecked_of_faultless hfaultless
  have hchain : tracked.ChainFree :=
    Tracked.Set.chainFree_of_tables (Flag.Table.chainFree_of_all (by decide +kernel))
      (by simp [tracked])
  obtain ⟨r, hr, hagain⟩ := output_settled tracked hparse
  obtain ⟨houtput, hidentifier, hfaultless'⟩ := hresult r (by rw [hr]; rfl)
  have hparse' := parseChecked_of_faultless hfaultless'
  obtain ⟨r', hr', hedits, hsame⟩ := hagain hchain hidentifier (.inl hasis) _ hparse'
  exact ⟨_, r, _, r', hparse, hr, houtput, hparse', hr', hedits, hsame⟩

/-- A table in which the long name of a flag is a flag itself. -/
def stepwiseFlags : Flag.Table where
  commands := [("f", [("a", "b"), ("b", "d")])]
  usable := by decide +kernel

/-- If a long name is a flag with another long name, the new text may be accepted and rewritten
again. -/
theorem output_unsettled :
    let tracked : Tracked.Set := ⟨[⟨⟨"m", "c"⟩, none⟩], stepwiseFlags⟩
    let source := "from m import c\nc.f(a=1)\n"
    ∃ t r t' r', parseChecked source.toList = .ok t ∧ ofSource tracked source = .ok r ∧
      parseChecked r.output.toList = .ok t' ∧ ofSource tracked r.output = .ok r' ∧
      r.output = "from m import c\nc.f(b=1)\n" ∧ r'.output = "from m import c\nc.f(d=1)\n" := by
  intro tracked source
  obtain ⟨hfaultless, hfirst, hfaultless', hsecond⟩ :
      (parse source.toList).firstFault? 0 = none ∧
      (format tracked source).toOption = some "from m import c\nc.f(b=1)\n" ∧
      (parse "from m import c\nc.f(b=1)\n".toList).firstFault? 0 = none ∧
      (format tracked "from m import c\nc.f(b=1)\n").toOption =
        some "from m import c\nc.f(d=1)\n" := by
    decide +kernel
  have hparse := parseChecked_of_faultless hfaultless
  have hparse' := parseChecked_of_faultless hfaultless'
  obtain ⟨r, -, hr, -⟩ := exists_drawn tracked hparse
  obtain ⟨r', -, hr', -⟩ := exists_drawn tracked hparse'
  rw [format, hr] at hfirst
  rw [format, hr'] at hsecond
  have houtput : r.output = "from m import c\nc.f(b=1)\n" := Option.some.inj hfirst
  rw [← houtput] at hparse' hr'
  exact ⟨_, r, _, r', hparse, hr, hparse', hr', houtput, Option.some.inj hsecond⟩

end Rewrite

end Longhand
