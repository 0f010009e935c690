import Longhand.Proofs.Route
import Longhand.Proofs.Shift

/-!
# The rewritten text

An accepted text is always rewritten.  The new text differs from the old one by names: each change
replaces a flag by another one, and what stands behind the old flag is no part of a name, so that
a flag is never taken together with what follows it.
-/

namespace Longhand

open Text Syntax

/-! ## Characters of flags -/

namespace Flag

/-- A character that occurs in flags. -/
def isFlagChar (c : Char) : Bool :=
  isAlphanumeric c || c == '_'

/-- The characters that may stand behind the name of a keyword argument. -/
def enders : List Char :=
  Draft.breaks ++ ['#', '\\', '=']

theorem isFlagChar_of_mem_enders : ∀ c ∈ enders, isFlagChar c = false :=
  Draft.forall_mem_of_all (by decide +kernel)

theorem ne_of_isFlagChar {c d : Char} (hc : isFlagChar c = true) (hd : d ∈ enders) : c ≠ d := by
  rintro rfl
  rw [isFlagChar_of_mem_enders c hd] at hc
  cases hc

/-- Whether a text could be a flag as far as its characters go. -/
def IsWord (cs : List Char) : Prop :=
  cs ≠ [] ∧ ∀ c ∈ cs, isFlagChar c = true

theorem isWord_of_isUsable {name : String} (h : isUsable name = true) : IsWord name.toList := by
  unfold isUsable at h
  split at h
  · cases h
  · rename_i first rest hname
    simp only [Bool.and_eq_true, Bool.or_eq_true, beq_iff_eq, List.all_eq_true] at h
    obtain ⟨⟨hfirst, hrest⟩, -⟩ := h
    rw [hname]
    refine ⟨List.cons_ne_nil _ _, fun c hc => ?_⟩
    rcases List.mem_cons.1 hc with rfl | hc
    · rcases hfirst with hfirst | rfl
      · simp [isFlagChar, isAlphanumeric, hfirst]
      · rfl
    · simpa [isFlagChar] using hrest c hc

theorem IsWord.notMem {cs : List Char} {d : Char} (h : IsWord cs) (hd : d ∈ enders) : d ∉ cs :=
  fun hmem => ne_of_isFlagChar (h.2 d hmem) hd rfl

end Flag

namespace Draft

/-- What follows the name of a keyword argument is no part of a flag. -/
theorem enders_of_equalsAhead {fuel : Nat} {cs : List Char} (h : EqualsAhead fuel cs) :
    ∃ c ∈ Flag.enders, cs.head? = some c := by
  obtain ⟨c, rest, rfl, hc⟩ := head_of_equalsAhead h
  refine ⟨c, ?_, rfl⟩
  rcases hc with hgap | rfl | rfl | rfl
  · exact List.mem_append_left _ (mem_breaks_of_isBreak (isBreak_of_isGap hgap))
  · exact List.mem_append_right _ (by simp)
  · exact List.mem_append_right _ (by simp)
  · exact List.mem_append_right _ (by simp)

/-! ## Distinct names -/

/-- Whether each marked name is a word that another word takes the place of, and ends before a
character that is no part of a word. -/
def Distinct (parts : List Part) : Prop :=
  ∀ done todo old new, parts = done ++ .renamed old new :: todo →
    old ≠ new ∧ Flag.IsWord old ∧ Flag.IsWord new ∧ ∃ c ∈ Flag.enders, (before todo).head? = some c

theorem Distinct.right {a b : List Part} (h : Distinct (a ++ b)) : Distinct b :=
  fun done todo old new hb => h (a ++ done) todo old new (by rw [hb, List.append_assoc])

theorem Distinct.tail {p : Part} {rest : List Part} (h : Distinct (p :: rest)) : Distinct rest :=
  Distinct.right (a := [p]) h

theorem Distinct.head {old new : List Char} {rest : List Part}
    (h : Distinct (.renamed old new :: rest)) :
    old ≠ new ∧ Flag.IsWord old ∧ Flag.IsWord new ∧ ∃ c ∈ Flag.enders, (before rest).head? = some c :=
  h [] rest old new rfl

theorem distinct_map_kept (cs : List Char) : Distinct (cs.map .kept) := by
  intro done todo old new h
  have hmem : Part.renamed old new ∈ cs.map Part.kept := by simp [h]
  simp at hmem

end Draft

/-! ## Keywords in the text -/

namespace Scope

open Draft (EqualsAhead)

/-- Whether the name of a keyword stands in a text where the keyword says, before an equals sign. -/
def Stands (source : List Char) (k : Edit.Keyword) : Prop :=
  ∃ done todo fuel, source = done ++ (k.name.toList ++ todo) ∧ k.span.start = byteSize done ∧
    k.span.stop = byteSize done + byteSize k.name.toList ∧
    k.position = positionAt source (byteSize done) ∧ EqualsAhead fuel todo

variable {source : List Char} {scopes : Scopes} {t : Tree}

theorem stands_of_keyword? {a a' : Tree} {k : Edit.Keyword}
    (h : (Draft.ofText source).Twin a a') (hk : keyword? source a = some k) : Stands source k := by
  obtain ⟨-, name, value, -, ⟨s, done, mid, todo, rfl, hparts, hstart, hstop, -, -, hequals⟩, rfl⟩ :=
    Draft.keyword?_eq_some h hk
  have hsource : source = Draft.before done ++ (Draft.before mid ++ Draft.before todo) := by
    have h := congrArg Draft.before hparts
    rwa [Draft.before_ofText, Draft.before_append, Draft.before_append] at h
  refine ⟨Draft.before done, Draft.before todo, _, ?_, hstart, ?_, ?_, hequals⟩
  · simpa [Tree.text] using hsource
  · simpa [Tree.text, Tree.span] using hstop
  · show positionAt source s.start = _
    rw [hstart]

/-- The keywords of the calls in the tree of a text stand in the text. -/
theorem stands_of_mem_calls (ht : (Draft.ofText source).Twin t t) {call : Edit.Call}
    (hcall : call ∈ calls source scopes t) {k : Edit.Keyword} (hk : k ∈ call.keywords) :
    Stands source k := by
  obtain ⟨u, hu, hfound⟩ := mem_calls_iff.1 hcall
  obtain ⟨-, -, -, hkeywords⟩ := Draft.call?_eq_some hfound
  rw [hkeywords] at hk
  obtain ⟨arguments, harguments, -, a, ha, hka⟩ := Draft.mem_keywords hk
  obtain ⟨_, _, hutwin, -⟩ := ht.node hu.isNode
  obtain ⟨_, _, htwin, -⟩ := hutwin.child harguments
  obtain ⟨_, _, hatwin, -⟩ := htwin.child ha
  exact stands_of_keyword? hatwin hka

/-- Each call that is found belongs to a module of the set. -/
theorem table?_of_mem_calls {tracked : Tracked.Set} (ht : Sourced t) {call : Edit.Call}
    (hcall : call ∈ calls source (resolve tracked t) t) :
    (tracked.table? call.place).isSome = true := by
  obtain ⟨u, -, hfound⟩ := mem_calls_iff.1 hcall
  obtain ⟨⟨names, hcalls⟩, -⟩ := namedCall_of_call? hfound
  obtain ⟨-, hcallee, -⟩ := Draft.call?_eq_some hfound
  obtain ⟨name, after, rfl⟩ : ∃ name after, names = name :: after := by
    obtain ⟨-, callee, -, -, hsegments⟩ := hcalls
    exact List.exists_cons_of_ne_nil (ne_nil_of_segments hsegments)
  obtain ⟨q, hq⟩ := exists_path_of_callee ht hcalls hcallee
  obtain ⟨m, hm, -⟩ := Option.map_eq_some_iff.1 hq
  simp [Tracked.Set.table?, hm]

end Scope

/-! ## The rewriting -/

namespace Rewrite

open Edit Draft

/-- Whether a rewriting of a text draws its changes in it: between the names that they replace the
text stays, and the position of each is that of its name. -/
structure Drawn (source : String) (r : Rewrite) (parts : List Part) : Prop where
  before : before parts = source.toList
  after : after parts = r.output.toList
  draws : Draws 0 r.plan.changes parts
  distinct : Distinct parts
  position : ∀ c ∈ r.plan.changes, c.rename.position = positionAt source.toList c.span.start

/-- What replaces nothing is drawn by the text itself. -/
theorem drawn_unchanged (source : String) (calls : Option Nat) :
    Drawn source ⟨source, Plan.empty, calls⟩ (source.toList.map .kept) where
  before := before_map_kept _
  after := after_map_kept _
  draws := .nil _
  distinct := distinct_map_kept _
  position c hc := by cases hc

/-- The changes of the calls of an accepted text, each with the keyword that it renames. -/
theorem exists_keyword {tracked : Tracked.Set} {source : List Char} {scopes : Scope.Scopes}
    {t : Tree} (ht : (ofText source).Twin t t) {plan : Plan}
    (hplan : plan? tracked (Scope.calls source scopes t) = some plan) {c : Change}
    (hc : c ∈ plan.changes) :
    ∃ k, Scope.Stands source k ∧ c.span = k.span ∧ c.rename.position = k.position ∧
      c.rename.short = k.name ∧ Flag.isUsable c.rename.short ∧ Flag.isUsable c.rename.long ∧
        c.rename.long ≠ c.rename.short := by
  obtain ⟨entries, hentries, hchanges, -⟩ := plan?_eq_some hplan
  rw [hchanges, mem_stableSort] at hc
  obtain ⟨call, hcall, k, hk, table, -, hchange⟩ := mem_changes hentries hc
  obtain ⟨hspan, hposition, -, hshort, hlookup, hne⟩ := change?_eq_some hchange
  obtain ⟨husable, hlong⟩ := Flag.Table.isUsable_of_lookup hlookup
  rw [← hshort] at husable hne
  exact ⟨k, Scope.stands_of_mem_calls ht hcall hk, hspan, hposition, hshort, husable, hlong, hne⟩

/-- Whether the changes of a plan stand at the names that they replace, one after the other. -/
structure Fits (source : List Char) (plan : Plan) : Prop where
  sorted : plan.changes.Pairwise fun a b => a.span.stop ≤ b.span.start
  lt : ∀ c ∈ plan.changes, c.span.start < c.span.stop
  slice : ∀ c ∈ plan.changes, slice? source c.span = some c.rename.short.toList

/-- The changes that are planned for the calls of an accepted text stand at names of it. -/
theorem fits_of_plan {tracked : Tracked.Set} {source : List Char} {scopes : Scope.Scopes}
    {t : Tree} (ht : (ofText source).Twin t t) {plan : Plan}
    (hplan : plan? tracked (Scope.calls source scopes t) = some plan) : Fits source plan := by
  have keyword := fun c hc => exists_keyword (c := c) ht hplan hc
  obtain ⟨entries, hentries, hchanges, -⟩ := plan?_eq_some hplan
  have hspread : Spread t.span ((Scope.calls source scopes t).flatMap (·.keywords)) :=
    Twin.calls_spread 0 ht
  have hlt : ∀ c ∈ plan.changes, c.span.start < c.span.stop := by
    intro c hc
    obtain ⟨k, ⟨done, todo, fuel, -, hstart, hstop, -⟩, hspan, -, hshort, husable, -⟩ := keyword c hc
    obtain ⟨x, xs, hx⟩ := List.exists_cons_of_ne_nil (Flag.isWord_of_isUsable husable).1
    have hpos := x.utf8Size_pos
    rw [← hshort, hx, byteSize_cons] at hstop
    rw [hspan]
    omega
  refine ⟨?_, hlt, fun c hc => ?_⟩
  · rw [hchanges]
    refine stableSort_changes ?_ fun c hc => hlt c (by rwa [hchanges, mem_stableSort])
    exact (List.pairwise_map.2 hspread.apart).sublist (changes_sublist hentries)
  · obtain ⟨k, ⟨done, todo, fuel, hsource, hstart, hstop, -⟩, hspan, -, hshort, -⟩ := keyword c hc
    rw [hspan, hshort]
    exact slice?_eq_some_iff.2 ⟨done, todo, hsource, hstart.symm, by rw [hstart, hstop]⟩

/-- The calls of an accepted text have a plan. -/
theorem exists_plan (tracked : Tracked.Set) {source : List Char} {t : Tree}
    (h : parseChecked source = .ok t) :
    ∃ plan, plan? tracked (Scope.calls source (Scope.resolve tracked t) t) = some plan := by
  have htables : ∀ call ∈ Scope.calls source (Scope.resolve tracked t) t,
      (tracked.table? call.place).isSome = true :=
    fun call hcall => Scope.table?_of_mem_calls (Scope.sourced_of_parseChecked h) hcall
  obtain ⟨entries, hentries⟩ := exists_planCalls htables
  exact ⟨_, by rw [plan?, hentries]⟩

/-- An accepted text is rewritten, and its changes can be drawn in it. -/
theorem exists_drawn (tracked : Tracked.Set) {source : String} {t : Tree}
    (h : parseChecked source.toList = .ok t) :
    ∃ r parts, ofSource tracked source = .ok r ∧ Drawn source r parts := by
  obtain ⟨plan, hplan⟩ := exists_plan tracked h
  obtain ⟨hreads, rfl⟩ := reads_of_parseChecked h
  have htwin := twin_parse hreads
  unfold ofSource
  dsimp only
  rw [h]
  dsimp only
  split
  swap
  · exact ⟨_, _, rfl, drawn_unchanged source none⟩
  generalize Scope.resolve tracked (parse source.toList) = scopes at hplan ⊢
  have keyword := fun c hc => exists_keyword (c := c) htwin hplan hc
  have hfits := fits_of_plan htwin hplan
  obtain ⟨parts, hparts, hdraws⟩ := exists_draws [] source.toList rfl hfits.sorted
    (fun c _ => Nat.zero_le _) hfits.slice
  have hpatch := patch_of_draws hfits.sorted hfits.lt hdraws hparts.symm
  refine ⟨⟨String.ofList (after parts), plan,
    some (Scope.calls source.toList scopes (parse source.toList)).length⟩, parts, ?_, ?_⟩
  · rw [ofTree, hplan]
    dsimp only [Plan.edits]
    rw [hpatch]
  refine ⟨hparts, String.toList_ofList.symm, hdraws, ?_, ?_⟩
  · intro done todo old new hsplit
    obtain ⟨c, hc, hspan, rfl, rfl⟩ := hdraws.marked hsplit
    obtain ⟨k, ⟨done', todo', fuel, hsource, hstart, -, -, hequals⟩, hk, -, hshort, husable, hlong,
      hne⟩ := keyword c hc
    refine ⟨fun heq => hne (String.toList_inj.1 heq).symm, Flag.isWord_of_isUsable husable,
      Flag.isWord_of_isUsable hlong, ?_⟩
    -- The text behind the part is the text behind the keyword.
    have htodo : Draft.before todo = todo' := by
      rw [← hparts, hsplit, before_append, before_renamed, hshort] at hsource
      have hsize : byteSize (Draft.before done) = byteSize done' := by
        rw [← hstart, ← hk, hspan, byteSize_nil, Nat.zero_add]
      have hcut : splitAt? (Draft.before done ++ (k.name.toList ++ Draft.before todo))
          (byteSize (Draft.before done)) = some (done', k.name.toList ++ todo') :=
        splitAt?_eq_some_iff.2 ⟨hsource, hsize.symm⟩
      rw [splitAt?_eq_some_iff.2 ⟨rfl, rfl⟩, Option.some.injEq, Prod.mk.injEq] at hcut
      exact List.append_cancel_left hcut.2
    rw [htodo]
    exact enders_of_equalsAhead hequals
  · intro c hc
    obtain ⟨k, ⟨done, todo, fuel, -, hstart, -, hposition, -⟩, hspan, hk, -⟩ := keyword c hc
    rw [hk, hposition, hspan, hstart]

/-- An accepted text has its rewriting, and a text with a rewriting was accepted. -/
theorem exists_parts {tracked : Tracked.Set} {source : String} {r : Rewrite}
    (h : ofSource tracked source = .ok r) : ∃ parts, Drawn source r parts := by
  cases hparse : parseChecked source.toList with
  | error e =>
      rw [ofSource, hparse] at h
      cases h
  | ok t =>
      obtain ⟨r', parts, hr, hdrawn⟩ := exists_drawn tracked hparse
      rw [h] at hr
      cases hr
      exact ⟨parts, hdrawn⟩

end Rewrite

end Longhand
