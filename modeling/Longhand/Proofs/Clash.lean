import Longhand.Proofs.Plan

/-!
# Names of a call after its renames

A call with two arguments of one name is refused by the interpreter, so a plan must not make such a
call out of another one, nor hide that a call is one.  A long name is given only if no argument of
the call has it and no other one is to get it, and equal names are never renamed.
-/

namespace Longhand.Edit

open Text

/-! ## Applying a plan to a call -/

/-- Whether a change is about a keyword of a call. -/
def Change.concerns (c : Change) (call : Call) (k : Keyword) : Bool :=
  c.span = k.span && c.rename.position = k.position && c.rename.command = call.command &&
    c.rename.short = k.name

/-- The name of a keyword of a call after the changes of a plan. -/
def Plan.nameOf (p : Plan) (call : Call) (k : Keyword) : String :=
  match p.changes.find? (·.concerns call k) with
  | some c => c.rename.long
  | none => k.name

/-- The name of a keyword after the change that its call makes to it, if any. -/
def Call.nameAfter (call : Call) (table : Flag.Table) (k : Keyword) : String :=
  match change? table call k with
  | some c => c.rename.long
  | none => k.name

variable {table : Flag.Table} {tracked : Tracked.Set} {call : Call} {calls : List Call}
  {a b k k' : Keyword} {c : Change} {p : Plan}

theorem concerns_of_change? (h : change? table call k = some c) : c.concerns call k := by
  obtain ⟨hspan, hposition, hcommand, hshort, -, -⟩ := change?_eq_some h
  simp [Change.concerns, hspan, hposition, hcommand, hshort]

/-- A change that is about one keyword and comes from another one gives both the same long name. -/
theorem nameAfter_of_concerns (h : change? table call k' = some c) (hc : c.concerns call k) :
    call.nameAfter table k = c.rename.long := by
  have hname : k'.name = k.name := by
    simp only [Change.concerns, Bool.and_eq_true, decide_eq_true_eq] at hc
    exact (change?_eq_some h).2.2.2.1.symm.trans hc.2
  -- Whether a keyword is renamed depends on its name and on the other names of the call alone.
  have hsame : (change? table call k).map (·.rename.long)
      = (change? table call k').map (·.rename.long) := by
    simp only [change?, candidate?, hname]
    cases table.lookup call.command k.name with
    | none => rfl
    | some long =>
        by_cases hlong : long = k.name
        · simp [hlong]
        · simp only [beq_iff_eq, hlong, if_false]
          split <;> rfl
  rw [h] at hsame
  obtain ⟨d, hd, hlong⟩ := Option.map_eq_some_iff.1 hsame
  simp only [Call.nameAfter, hd, hlong]

/-- A list of changes that holds those of a call, and no other one about its keywords, gives the
keywords of the call their names. -/
theorem nameOf_eq (hk : k ∈ call.keywords)
    (hfrom : ∀ c ∈ p.changes, c.concerns call k →
      ∃ k' ∈ call.keywords, change? table call k' = some c)
    (hall : ∀ k ∈ call.keywords, ∀ c, change? table call k = some c → c ∈ p.changes) :
    p.nameOf call k = call.nameAfter table k := by
  unfold Plan.nameOf
  split
  · rename_i c hfound
    have hconcerns : c.concerns call k = true :=
      List.find?_some (p := fun (c : Change) => c.concerns call k) hfound
    obtain ⟨k', -, hchange⟩ := hfrom c (List.mem_of_find?_eq_some hfound) hconcerns
    exact (nameAfter_of_concerns hchange hconcerns).symm
  · rename_i hnone
    rw [List.find?_eq_none] at hnone
    cases hchange : change? table call k with
    | none => simp only [Call.nameAfter, hchange]
    | some c => exact absurd (concerns_of_change? hchange) (hnone c (hall k hk c hchange))

/-! ## Names of one call -/

/-- A keyword that is renamed gets a name that no keyword of the call has and that no other one is
to get. -/
theorem change?_fresh (h : change? table call k = some c) :
    (∀ other ∈ call.keywords, other.name ≠ c.rename.long) ∧
      ((call.keywords.filterMap (candidate? table call.command)).map Prod.snd).count c.rename.long
        ≤ 1 := by
  unfold change? at h
  split at h
  · cases h
  · rename_i k' long hcandidate
    dsimp only at h
    split at h
    · rename_i hconflict
      cases h
      unfold conflict? at hconflict
      split at hconflict
      · cases hconflict
      · rename_i hany
        split at hconflict
        · cases hconflict
        · rename_i hcount
          refine ⟨by simpa using hany, ?_⟩
          show List.count long _ ≤ 1
          omega
    · cases h

theorem candidate?_of_change? (h : change? table call k = some c) :
    candidate? table call.command k = some (k, c.rename.long) := by
  obtain ⟨-, -, -, -, hlookup, hne⟩ := change?_eq_some h
  simp [candidate?, hlookup, hne]

/-- Two keywords that are to get one long name are both counted for it. -/
theorem two_le_count {long : String} (hab : [a, b].Sublist call.keywords)
    (ha : candidate? table call.command a = some (a, long))
    (hb : candidate? table call.command b = some (b, long)) :
    2 ≤ ((call.keywords.filterMap (candidate? table call.command)).map Prod.snd).count long := by
  have hsub := ((hab.filterMap (candidate? table call.command)).map Prod.snd).count_le long
  have hpair : [a, b].filterMap (candidate? table call.command) = [(a, long), (b, long)] := by
    simp [ha, hb]
  rw [hpair] at hsub
  simpa using hsub

/-- Keywords of one name are not renamed. -/
theorem change?_eq_none_of_name_eq (hab : [a, b].Sublist call.keywords) (hname : a.name = b.name) :
    change? table call a = none ∧ change? table call b = none := by
  -- The table gives both the same long name, which is then wanted twice.
  have htwice : ∀ long, candidate? table call.command a = some (a, long) ↔
      candidate? table call.command b = some (b, long) := by
    intro long
    simp only [candidate?, hname]
    cases table.lookup call.command b.name with
    | none => simp
    | some long' => by_cases hlong : long' = b.name <;> simp [hlong]
  constructor
  · cases h : change? table call a with
    | none => rfl
    | some c =>
        have ha := candidate?_of_change? h
        have hcount := two_le_count hab ha ((htwice _).1 ha)
        have hfresh := (change?_fresh h).2
        omega
  · cases h : change? table call b with
    | none => rfl
    | some c =>
        have hb := candidate?_of_change? h
        have hcount := two_le_count hab ((htwice _).2 hb) hb
        have hfresh := (change?_fresh h).2
        omega

/-- Two keywords of a call have one name after its changes exactly if they have one before. -/
theorem nameAfter_eq_iff (table : Flag.Table) (hab : [a, b].Sublist call.keywords) :
    call.nameAfter table a = call.nameAfter table b ↔ a.name = b.name := by
  have hmema : a ∈ call.keywords := hab.subset (by simp)
  have hmemb : b ∈ call.keywords := hab.subset (by simp)
  constructor
  · intro h
    unfold Call.nameAfter at h
    cases ha : change? table call a with
    | none =>
        cases hb : change? table call b with
        | none => simpa only [ha, hb] using h
        | some d =>
            simp only [ha, hb] at h
            exact absurd h ((change?_fresh hb).1 a hmema)
    | some c =>
        cases hb : change? table call b with
        | none =>
            simp only [ha, hb] at h
            exact absurd h.symm ((change?_fresh ha).1 b hmemb)
        | some d =>
            simp only [ha, hb] at h
            have hcount := two_le_count hab (candidate?_of_change? ha)
              (h ▸ candidate?_of_change? hb)
            have hfresh := (change?_fresh ha).2
            omega
  · intro hname
    obtain ⟨ha, hb⟩ : change? table call a = none ∧ change? table call b = none :=
      change?_eq_none_of_name_eq hab hname
    simp only [Call.nameAfter, ha, hb, hname]

/-! ## Plans of one and of all calls -/

theorem mem_changes_iff (h : plan? tracked calls = some p) :
    c ∈ p.changes ↔ ∃ call ∈ calls, ∃ table, tracked.table? call.place = some table ∧
      ∃ k ∈ call.keywords, change? table call k = some c := by
  obtain ⟨entries, hentries, hchanges, -⟩ := plan?_eq_some h
  rw [hchanges, mem_stableSort]
  clear hchanges h
  induction calls generalizing entries with
  | nil =>
      cases hentries
      simp
  | cons call rest ih =>
      obtain ⟨table, more, htable, hmore, rfl⟩ := planCalls_cons hentries
      rw [List.filterMap_append, planCall_changes, List.mem_append, ih more hmore,
        List.mem_filterMap]
      simp only [List.mem_cons, exists_eq_or_imp, htable, Option.some.injEq, exists_eq_left']

theorem plan?_alone (htable : tracked.table? call.place = some table) :
    plan? tracked [call] = some
      ⟨stableSort Change.le ((planCall table call).filterMap Sum.getLeft?),
        (planCall table call).filterMap Sum.getRight?⟩ := by
  simp [plan?, planCalls, htable]

/-- The plan of a call alone gives its keywords the names that the call gives them. -/
theorem nameOf_alone (h : plan? tracked [call] = some p)
    (htable : tracked.table? call.place = some table) (hk : k ∈ call.keywords) :
    p.nameOf call k = call.nameAfter table k := by
  apply nameOf_eq hk
  · intro c hc _
    obtain ⟨call', hcall', table', htable', hchange⟩ := (mem_changes_iff h).1 hc
    obtain rfl := List.mem_singleton.1 hcall'
    rw [htable] at htable'
    cases htable'
    exact hchange
  · intro k hk c hchange
    exact (mem_changes_iff h).2 ⟨call, by simp, table, htable, k, hk, hchange⟩

/-- The plan of some calls gives the keywords of one of them the names that the call gives them, if
the keywords of the other calls stand elsewhere. -/
theorem nameOf_among {before after : List Call}
    (h : plan? tracked (before ++ call :: after) = some p)
    (htable : tracked.table? call.place = some table) (hk : k ∈ call.keywords)
    (hapart : ∀ other ∈ before ++ after, ∀ k' ∈ other.keywords, k'.span ≠ k.span) :
    p.nameOf call k = call.nameAfter table k := by
  apply nameOf_eq hk
  · intro c hc hconcerns
    obtain ⟨other, hother, table', htable', k', hk', hchange⟩ := (mem_changes_iff h).1 hc
    have hmem : other ∈ before ++ after ∨ other = call := by
      rcases List.mem_append.1 hother with hother | hother
      · exact .inl (List.mem_append_left _ hother)
      · rcases List.mem_cons.1 hother with hother | hother
        · exact .inr hother
        · exact .inl (List.mem_append_right _ hother)
    rcases hmem with hmem | rfl
    · have hspan : c.span = k.span := by
        simp only [Change.concerns, Bool.and_eq_true, decide_eq_true_eq] at hconcerns
        exact hconcerns.1.1.1
      rw [(change?_eq_some hchange).1] at hspan
      exact absurd hspan (hapart other hmem k' hk')
    · rw [htable] at htable'
      cases htable'
      exact ⟨k', hk', hchange⟩
  · intro k hk c hchange
    exact (mem_changes_iff h).2 ⟨call, by simp, table, htable, k, hk, hchange⟩

/-- The plan of some calls changes what the plans of the single calls change. -/
theorem exists_shares (h : plan? tracked calls = some p) :
    ∃ shares, calls.mapM (fun call => plan? tracked [call]) = some shares ∧
      p.changes.Perm (shares.flatMap (·.changes)) := by
  obtain ⟨entries, hentries, hchanges, -⟩ := plan?_eq_some h
  have hperm := stableSort_perm Change.le (entries.filterMap Sum.getLeft?)
  rw [← hchanges] at hperm
  suffices ∃ shares, calls.mapM (fun call => plan? tracked [call]) = some shares ∧
      (entries.filterMap Sum.getLeft?).Perm (shares.flatMap (·.changes)) by
    obtain ⟨shares, hshares, hrest⟩ := this
    exact ⟨shares, hshares, hperm.trans hrest⟩
  clear hchanges hperm h
  induction calls generalizing entries with
  | nil =>
      cases hentries
      exact ⟨[], rfl, .refl _⟩
  | cons call rest ih =>
      obtain ⟨table, more, htable, hmore, rfl⟩ := planCalls_cons hentries
      obtain ⟨shares, hshares, hrest⟩ := ih more hmore
      have halone := plan?_alone htable
      refine ⟨_, by rw [List.mapM_cons, halone, hshares]; rfl, ?_⟩
      rw [List.filterMap_append, List.flatMap_cons]
      exact (stableSort_perm _ _).symm.append hrest

/-! ## Clashes -/

/-- Renaming neither makes nor removes a clash.  The calls of a set of modules have a plan, which
changes what the plans of the single calls change, and any two keywords of a call have one name
after the changes of the call exactly if they have one before.  That also holds after all changes of
the plan, if no keyword of another call stands where one of the call does. -/
theorem clashes_kept (tracked : Tracked.Set) (calls : List Call)
    (hmodules : ∀ call ∈ calls, call.place < tracked.members.length) :
    ∃ p, plan? tracked calls = some p ∧
      (∃ shares, calls.mapM (fun call => plan? tracked [call]) = some shares ∧
        p.changes.Perm (shares.flatMap (·.changes))) ∧
      (∀ call ∈ calls, ∃ share, plan? tracked [call] = some share ∧
        call.keywords.Pairwise fun a b =>
          (share.nameOf call a = share.nameOf call b ↔ a.name = b.name)) ∧
      ∀ before call after, calls = before ++ call :: after →
        (∀ k ∈ call.keywords, ∀ other ∈ before ++ after, ∀ k' ∈ other.keywords,
          k'.span ≠ k.span) →
        call.keywords.Pairwise fun a b =>
          (p.nameOf call a = p.nameOf call b ↔ a.name = b.name) := by
  have htables : ∀ call ∈ calls, ∃ table, tracked.table? call.place = some table := by
    intro call hcall
    simp [Tracked.Set.table?, List.getElem?_eq_getElem (hmodules call hcall)]
  -- Every call has a table, so planning cannot fail.
  obtain ⟨entries, hentries⟩ := exists_planCalls fun call hcall =>
    Option.isSome_iff_exists.2 (htables call hcall)
  have hp : plan? tracked calls = some
      ⟨stableSort Change.le (entries.filterMap Sum.getLeft?), entries.filterMap Sum.getRight?⟩ := by
    simp [plan?, hentries]
  refine ⟨_, hp, exists_shares hp, ?_, ?_⟩
  · intro call hcall
    obtain ⟨table, htable⟩ := htables call hcall
    have halone := plan?_alone htable
    -- The new name of a keyword depends on the keywords of its call only.
    refine ⟨_, halone, List.pairwise_iff_forall_sublist.2 ?_⟩
    intro a b hab
    rw [nameOf_alone halone htable (hab.subset (by simp)),
      nameOf_alone halone htable (hab.subset (by simp))]
    exact nameAfter_eq_iff table hab
  · intro before call after hcalls hapart
    subst hcalls
    obtain ⟨table, htable⟩ := htables call (by simp)
    refine List.pairwise_iff_forall_sublist.2 ?_
    intro a b hab
    have ha : a ∈ call.keywords := hab.subset (by simp)
    have hb : b ∈ call.keywords := hab.subset (by simp)
    rw [nameOf_among hp htable ha (hapart a ha), nameOf_among hp htable hb (hapart b hb)]
    exact nameAfter_eq_iff table hab

/-- A table in which two flags have one long name, and the long name of one is the flag of another. -/
def chainedFlags : Flag.Table where
  commands := [("about", [("q", "query"), ("qu", "query"), ("li", "linux"), ("x", "y"), ("y", "z")])]
  usable := by decide +kernel

/-- A call with all of these flags. -/
def chainedCall : Call :=
  ⟨0, "about", ⟨0, 40⟩, [⟨"q", ⟨11, 12⟩, ⟨13, 14⟩, ⟨1, 12⟩⟩, ⟨"qu", ⟨16, 18⟩, ⟨19, 20⟩, ⟨1, 17⟩⟩,
    ⟨"li", ⟨22, 24⟩, ⟨25, 26⟩, ⟨1, 23⟩⟩, ⟨"x", ⟨28, 29⟩, ⟨30, 31⟩, ⟨1, 29⟩⟩,
    ⟨"y", ⟨33, 34⟩, ⟨35, 36⟩, ⟨1, 34⟩⟩]⟩

/-- Of these flags only those are renamed whose long names stay alone, even if the argument that has
such a name is itself renamed. -/
theorem clashes_kept_of_chain :
    let tracked : Tracked.Set := ⟨[⟨⟨"maya", "cmds"⟩, none⟩], chainedFlags⟩
    (∀ call ∈ [chainedCall], call.place < tracked.members.length) ∧
      ∃ p, plan? tracked [chainedCall] = some p ∧
        chainedCall.keywords.map (p.nameOf chainedCall) = ["q", "qu", "linux", "x", "z"] ∧
        chainedCall.keywords.Pairwise fun a b =>
          (p.nameOf chainedCall a = p.nameOf chainedCall b ↔ a.name = b.name) := by
  intro tracked
  have hmodules : ∀ call ∈ [chainedCall], call.place < tracked.members.length := by decide
  obtain ⟨p, hp, -, -, hpairs⟩ := clashes_kept tracked [chainedCall] hmodules
  have hnames : (plan? tracked [chainedCall]).map
      (fun p => chainedCall.keywords.map (p.nameOf chainedCall))
        = some ["q", "qu", "linux", "x", "z"] := by decide +kernel
  rw [hp] at hnames
  exact ⟨hmodules, p, hp, Option.some.inj hnames, hpairs [] chainedCall [] rfl (by simp)⟩

end Longhand.Edit
