import Longhand.Proofs.Account
import Longhand.Proofs.Clash

/-!
# Planning again

When no long name of a table is a flag for yet another name, a plan leaves nothing to be renamed.  The
keywords that it renames have long names, which the table maps to nothing else, and those that it does
not rename are in conflict as before: a name that was written in the call is still written there, and
keywords that want one name still want it together.
-/

namespace Longhand

/-- Whether no long name of a table is a flag with another long name. -/
def Flag.Table.ChainFree (t : Flag.Table) : Prop :=
  ∀ command short long long', t.lookup command short = some long →
    t.lookup command long = some long' → long' = long

/-- Whether no table of a set of modules has a long name that is a flag with another long name. -/
def Tracked.Set.ChainFree (s : Tracked.Set) : Prop :=
  ∀ place table, s.table? place = some table → table.ChainFree

/-- A table has no chains if none of its commands has one. -/
theorem Flag.Table.chainFree_of_all {t : Flag.Table}
    (h : ∀ c ∈ t.commands, ∀ f ∈ c.2, ∀ long ∈ c.2.lookup f.2, long = f.2) : t.ChainFree := by
  intro command short long long' hshort hlong
  unfold Flag.Table.lookup at hshort hlong
  split at hshort
  · cases hshort
  · rename_i flags hflags
    rw [hflags] at hlong
    exact h _ (mem_of_lookup hflags) _ (mem_of_lookup hshort) long' hlong

/-- A set of modules has no chains if neither its default table nor one of its own tables has one. -/
theorem Tracked.Set.chainFree_of_tables {s : Tracked.Set} (hdefault : s.default.ChainFree)
    (htables : ∀ m ∈ s.members, ∀ t ∈ m.table, t.ChainFree) : s.ChainFree := by
  intro place table htable
  unfold Tracked.Set.table? at htable
  split at htable
  · cases htable
  · rename_i m hm
    cases htable
    cases ht : m.table with
    | none => exact hdefault
    | some t => exact htables m (List.mem_of_getElem? hm) t ht

namespace Edit

variable {table : Flag.Table} {tracked : Tracked.Set} {call call' : Call} {calls calls' : List Call}
  {i j : Nat} {k k' : Keyword} {long : String} {c : Change} {entry : Change ⊕ Conflict}
  {entries : List (Change ⊕ Conflict)} {p : Plan}

/-- A call with the names that a plan gives to its keywords. -/
def Call.apply (p : Plan) (call : Call) : Call :=
  { call with keywords := call.keywords.map fun k => { k with name := p.nameOf call k } }

/-- A call with the names that its own changes give to its keywords. -/
def Call.settled (table : Flag.Table) (call : Call) : Call :=
  { call with keywords := call.keywords.map fun k => { k with name := call.nameAfter table k } }

/-! ## What the keywords of a settled call want -/

theorem change?_eq (table : Flag.Table) (call : Call) (k : Keyword) :
    change? table call k = (entryOf? table call k).bind Sum.getLeft? := by
  unfold change? entryOf?
  cases candidate? table call.command k with
  | none => rfl
  | some c =>
      dsimp only [Option.map_some, Option.bind_some]
      cases conflict? call.keywords _ c.2 <;> rfl

theorem change?_eq_some_iff (hk : call.keywords[i]? = some k) :
    change? table call k = some c ↔ Due table call i (.inl c) := by
  rw [change?_eq, ← entryOf?_eq_some_iff hk, Option.bind_eq_some_iff]
  constructor
  · rintro ⟨entry, hentry, hleft⟩
    rw [hentry, Sum.getLeft?_eq_some_iff.1 hleft]
  · intro hentry
    exact ⟨_, hentry, rfl⟩

theorem settled_place (table : Flag.Table) (hk : call.keywords[i]? = some k) :
    (call.settled table).keywords[i]? = some { k with name := call.nameAfter table k } := by
  simp [Call.settled, hk]

theorem settled_place_cases (hk : (call.settled table).keywords[i]? = some k') :
    ∃ k, call.keywords[i]? = some k ∧ k' = { k with name := call.nameAfter table k } := by
  simp only [Call.settled, List.getElem?_map, Option.map_eq_some_iff] at hk
  obtain ⟨k, hk, rfl⟩ := hk
  exact ⟨k, hk, rfl⟩

/-- A keyword is renamed, or it stays as it is. -/
theorem settled_cases (table : Flag.Table) (hk : call.keywords[i]? = some k) :
    (∃ long, Due table call i (.inl ⟨k.span, call.rename k long⟩) ∧ Wants table call i k long ∧
        call.nameAfter table k = long) ∨
      ((∀ c, ¬Due table call i (.inl c)) ∧ call.nameAfter table k = k.name) := by
  cases hchange : change? table call k with
  | none =>
      refine .inr ⟨fun c hdue => ?_, by rw [Call.nameAfter, hchange]⟩
      rw [(change?_eq_some_iff hk).2 hdue] at hchange
      cases hchange
  | some c =>
      have hdue := (change?_eq_some_iff hk).1 hchange
      cases hdue with
      | @renamed k' long hwants habsent halone =>
          obtain rfl : k' = k := Option.some.inj (hwants.at_place.symm.trans hk)
          exact .inl ⟨long, .renamed hwants habsent halone, hwants,
            by rw [Call.nameAfter, hchange]; rfl⟩

section Chains

variable (hchain : table.ChainFree)

include hchain

/-- What is wanted in a settled call is what was wanted and not given. -/
theorem wants_settled_iff :
    Wants table (call.settled table) i k long ↔
      Wants table call i k long ∧ ∀ c, ¬Due table call i (.inl c) := by
  constructor
  · intro h
    obtain ⟨k, hk, rfl⟩ := settled_place_cases h.at_place
    rcases settled_cases table hk with ⟨given, -, hwants, hname⟩ | ⟨hnone, hname⟩
    · have hlookup : table.lookup call.command given = some long := hname ▸ h.lookup
      exact absurd (hchain _ _ _ _ hwants.lookup hlookup) (hname ▸ h.ne)
    · have hwants := h
      simp only [hname] at hwants ⊢
      exact ⟨⟨hk, hwants.lookup, hwants.ne⟩, hnone⟩
  · rintro ⟨h, hnone⟩
    rcases settled_cases table h.at_place with ⟨_, hdue, -⟩ | ⟨-, hname⟩
    · exact absurd hdue (hnone _)
    · have hplace := settled_place table h.at_place
      rw [hname] at hplace
      exact ⟨hplace, h.lookup, h.ne⟩

/-- A name that a keyword wants and does not get is written in the settled call exactly if it was
written in the call. -/
theorem writes_settled_iff (h : Wants table call i k long) (hnone : ∀ c, ¬Due table call i (.inl c)) :
    (call.settled table).Writes long ↔ call.Writes long := by
  constructor
  · rintro ⟨k', hk', hname⟩
    obtain ⟨j, hj⟩ := List.mem_iff_getElem?.1 hk'
    obtain ⟨other, hother, rfl⟩ := settled_place_cases hj
    rcases settled_cases table hother with ⟨given, hdue, -, hgiven⟩ | ⟨-, hkept⟩
    · -- A name that is given is wanted by the keyword that gets it alone.
      obtain rfl : given = long := hgiven.symm.trans hname
      obtain rfl : i = j := by
        generalize hchange : (⟨other.span, call.rename other given⟩ : Change) = c at hdue
        cases hdue with
        | renamed hwants _ halone =>
            have hlong := congrArg (·.rename.long) hchange
            dsimp only [Call.rename] at hlong
            exact halone i k (hlong ▸ h)
      exact absurd hdue (hnone _)
    · exact ⟨other, List.mem_iff_getElem?.2 ⟨j, hother⟩, hkept.symm.trans hname⟩
  · rintro ⟨other, hother, hname⟩
    obtain ⟨j, hj⟩ := List.mem_iff_getElem?.1 hother
    rcases settled_cases table hj with ⟨given, -, hwants, -⟩ | ⟨-, hkept⟩
    · have hlookup : table.lookup call.command long = some given := hname ▸ hwants.lookup
      exact absurd (hchain _ _ _ _ h.lookup hlookup) (hname ▸ hwants.ne)
    · exact ⟨_, List.mem_iff_getElem?.2 ⟨j, settled_place table hj⟩, hkept.trans hname⟩

/-- What is due in a settled call are the conflicts that were due in the call. -/
theorem due_settled_iff :
    Due table (call.settled table) i entry ↔ Due table call i entry ∧ entry.isRight = true := by
  have hrename : ∀ k long, (call.settled table).rename k long = call.rename k long := fun _ _ => rfl
  constructor
  · intro h
    cases h with
    | present hwants hwrites =>
        obtain ⟨hwants, hnone⟩ := (wants_settled_iff hchain).1 hwants
        exact ⟨.present hwants ((writes_settled_iff hchain hwants hnone).1 hwrites), rfl⟩
    | shared hwants habsent hne hother =>
        obtain ⟨hwants, hnone⟩ := (wants_settled_iff hchain).1 hwants
        rw [writes_settled_iff hchain hwants hnone] at habsent
        exact ⟨.shared hwants habsent hne ((wants_settled_iff hchain).1 hother).1, rfl⟩
    | renamed hwants habsent halone =>
        obtain ⟨hwants, hnone⟩ := (wants_settled_iff hchain).1 hwants
        rw [writes_settled_iff hchain hwants hnone] at habsent
        refine absurd (.renamed hwants habsent fun j other hother => ?_) (hnone _)
        -- Another keyword that wanted the name shared it, so it was not given the name either.
        refine Classical.byContradiction fun hne => hne (halone j other ?_)
        refine (wants_settled_iff hchain).2 ⟨hother, fun c hdue => ?_⟩
        have hshared : Due table call j (.inr ⟨call.rename other _, .duplicateTarget⟩) :=
          .shared hother habsent (Ne.symm hne) hwants
        cases hdue.unique hshared
  · rintro ⟨h, hright⟩
    cases h with
    | present hwants hwrites =>
        have hnone : ∀ c, ¬Due table call i (.inl c) :=
          fun c hdue => nomatch hdue.unique (.present hwants hwrites)
        exact .present ((wants_settled_iff hchain).2 ⟨hwants, hnone⟩)
          ((writes_settled_iff hchain hwants hnone).2 hwrites)
    | shared hwants habsent hne hother =>
        have hnone : ∀ c, ¬Due table call i (.inl c) :=
          fun c hdue => nomatch hdue.unique (.shared hwants habsent hne hother)
        have hnone' : ∀ c, ¬Due table call _ (.inl c) :=
          fun c hdue => nomatch hdue.unique (.shared hother habsent (Ne.symm hne) hwants)
        exact .shared ((wants_settled_iff hchain).2 ⟨hwants, hnone⟩)
          (mt (writes_settled_iff hchain hwants hnone).1 habsent) hne
          ((wants_settled_iff hchain).2 ⟨hother, hnone'⟩)
    | renamed => cases hright

/-! ## Settled calls -/

/-- A settled call has the conflicts of the call and no changes. -/
theorem planCall_settled (call : Call) :
    planCall table (call.settled table) = (planCall table call).filter Sum.isRight := by
  have hentry : ∀ k ∈ call.keywords,
      entryOf? table (call.settled table) { k with name := call.nameAfter table k } =
        (entryOf? table call k).filter Sum.isRight := by
    intro k hk
    obtain ⟨i, hi⟩ := List.mem_iff_getElem?.1 hk
    refine Option.ext fun entry => ?_
    rw [entryOf?_eq_some_iff (settled_place table hi), due_settled_iff hchain,
      Option.filter_eq_some_iff,
      entryOf?_eq_some_iff hi]
  rw [planCall_eq, planCall_eq, List.filter_filterMap]
  simp only [Call.settled, List.filterMap_map]
  exact List.filterMap_congr hentry

end Chains

theorem filterMap_getLeft?_isRight (entries : List (Change ⊕ Conflict)) :
    (entries.filter Sum.isRight).filterMap Sum.getLeft? = [] := by
  refine List.filterMap_eq_nil_iff.2 fun entry hentry => ?_
  have hright := (List.mem_filter.1 hentry).2
  cases entry with
  | inl => cases hright
  | inr => rfl

theorem filterMap_getRight?_isRight (entries : List (Change ⊕ Conflict)) :
    (entries.filter Sum.isRight).filterMap Sum.getRight? = entries.filterMap Sum.getRight? := by
  rw [List.filterMap_filter]
  congr 1
  funext entry
  cases entry <;> rfl

/-- Settled calls have the conflicts of the calls and no changes. -/
theorem plan?_settled (hchain : tracked.ChainFree)
    (hcalls : List.Forall₂ (fun call call' => ∃ table, tracked.table? call.place = some table ∧
      call' = call.settled table) calls calls') (h : plan? tracked calls = some p) :
    plan? tracked calls' = some ⟨[], p.conflicts⟩ := by
  obtain ⟨entries, hentries, -, hconflicts⟩ := plan?_eq_some h
  have hsettled : planCalls tracked calls' = some (entries.filter Sum.isRight) := by
    clear h hconflicts
    induction hcalls generalizing entries with
    | nil =>
        cases hentries
        rfl
    | @cons call _ rest _ hcall _ ih =>
        obtain ⟨table, htable, rfl⟩ := hcall
        obtain ⟨table', more, htable', hmore, rfl⟩ := planCalls_cons hentries
        rw [htable] at htable'
        cases htable'
        have hplace : tracked.table? (call.settled table).place = some table := htable
        rw [planCalls, hplace, ih more hmore, List.filter_append,
          ← planCall_settled (hchain _ _ htable) call]
  rw [plan?, hsettled]
  simp only [filterMap_getLeft?_isRight, filterMap_getRight?_isRight, stableSort, hconflicts]

/-! ## Plans applied to calls -/

/-- Names that agree with those of a call settle it. -/
theorem apply_eq (h : ∀ k ∈ call.keywords, p.nameOf call k = call.nameAfter table k) :
    call.apply p = call.settled table := by
  have hkeywords : call.keywords.map (fun k => { k with name := p.nameOf call k }) =
      call.keywords.map fun k => { k with name := call.nameAfter table k } :=
    List.map_congr_left fun k hk => by rw [h k hk]
  rw [Call.apply, Call.settled, hkeywords]

/-- Calls with the names of their own plans are settled. -/
theorem forall₂_apply_alone {shares : List Plan}
    (hmodules : ∀ call ∈ calls, call.place < tracked.members.length)
    (h : calls.mapM (fun call => plan? tracked [call]) = some shares) :
    List.Forall₂ (fun call call' => ∃ table, tracked.table? call.place = some table ∧
      call' = call.settled table) calls (List.zipWith Call.apply shares calls) := by
  induction calls generalizing shares with
  | nil =>
      cases h
      exact .nil
  | cons call rest ih =>
      rw [List.mapM_cons] at h
      obtain ⟨share, hshare, h⟩ := Option.bind_eq_some_iff.1 h
      obtain ⟨more, hmore, h⟩ := Option.bind_eq_some_iff.1 h
      cases h
      obtain ⟨table, htable⟩ :=
        Option.isSome_iff_exists.1 (isSome_table? (hmodules call List.mem_cons_self))
      refine .cons ⟨table, htable, apply_eq fun k hk => nameOf_alone hshare htable hk⟩ ?_
      exact ih (fun call hcall => hmodules call (List.mem_cons_of_mem _ hcall)) hmore

/-- Calls whose keywords stand apart are settled by the names of the plan of all of them. -/
theorem forall₂_apply (hmodules : ∀ call ∈ calls, call.place < tracked.members.length)
    (h : plan? tracked calls = some p)
    (hapart : calls.Pairwise fun a b => ∀ k ∈ a.keywords, ∀ k' ∈ b.keywords, k.span ≠ k'.span) :
    List.Forall₂ (fun call call' => ∃ table, tracked.table? call.place = some table ∧
      call' = call.settled table) calls (calls.map (Call.apply p)) := by
  rw [List.forall₂_map_right_iff, List.forall₂_same]
  intro call hcall
  obtain ⟨table, htable⟩ := Option.isSome_iff_exists.1 (isSome_table? (hmodules call hcall))
  obtain ⟨before, after, rfl⟩ := List.append_of_mem hcall
  obtain ⟨-, hlater, hearlier⟩ := List.pairwise_append.1 hapart
  refine ⟨table, htable, apply_eq fun k hk => nameOf_among h htable hk ?_⟩
  intro other hother k' hk' heq
  rcases List.mem_append.1 hother with hother | hother
  · exact hearlier other hother call List.mem_cons_self k' hk' k hk heq
  · exact (List.pairwise_cons.1 hlater).1 other hother k hk k' hk' heq.symm

/-- Planning again finds nothing to rename.  If no table has chains, the changes of a plan are those of
the plans of its single calls, and when each call is given the names of its own plan, the plan of the
calls has the conflicts that it had and no changes.  The same holds when all calls are given the names
of the whole plan, if no two of them have keywords at one place. -/
theorem replan_settled (tracked : Tracked.Set) (calls : List Call)
    (hmodules : ∀ call ∈ calls, call.place < tracked.members.length) (hchain : tracked.ChainFree) :
    ∃ p, plan? tracked calls = some p ∧
      (∃ shares, calls.mapM (fun call => plan? tracked [call]) = some shares ∧
        p.changes.Perm (shares.flatMap (·.changes)) ∧
        plan? tracked (List.zipWith Call.apply shares calls) = some ⟨[], p.conflicts⟩) ∧
      (calls.Pairwise (fun a b => ∀ k ∈ a.keywords, ∀ k' ∈ b.keywords, k.span ≠ k'.span) →
        plan? tracked (calls.map (Call.apply p)) = some ⟨[], p.conflicts⟩) := by
  obtain ⟨entries, hentries⟩ :=
    exists_planCalls fun call hcall => isSome_table? (hmodules call hcall)
  have hp : plan? tracked calls = some
      ⟨stableSort Change.le (entries.filterMap Sum.getLeft?), entries.filterMap Sum.getRight?⟩ := by
    rw [plan?, hentries]
  obtain ⟨shares, hshares, hperm⟩ := exists_shares hp
  refine ⟨_, hp, ⟨shares, hshares, hperm, ?_⟩, fun hapart => ?_⟩
  · exact plan?_settled hchain (forall₂_apply_alone hmodules hshares) hp
  · exact plan?_settled hchain (forall₂_apply hmodules hp hapart) hp

/-- A table in which two flags have one long name. -/
def unchainedFlags : Flag.Table where
  commands := [("about", [("q", "query"), ("qu", "query"), ("li", "linux"), ("n", "name")])]
  usable := by decide +kernel

/-- A call with all of these flags, one of them beside its long name. -/
def crowdedCall : Call :=
  ⟨0, "about", ⟨0, 50⟩, [⟨"q", ⟨11, 12⟩, ⟨13, 14⟩, ⟨1, 12⟩⟩, ⟨"name", ⟨16, 20⟩, ⟨21, 22⟩, ⟨1, 17⟩⟩,
    ⟨"li", ⟨24, 26⟩, ⟨27, 28⟩, ⟨1, 25⟩⟩, ⟨"n", ⟨30, 31⟩, ⟨32, 33⟩, ⟨1, 31⟩⟩,
    ⟨"qu", ⟨35, 37⟩, ⟨38, 39⟩, ⟨1, 36⟩⟩]⟩

/-- One of the flags is renamed, and the others are in conflict before and after that. -/
theorem replan_settled_of_crowded :
    let tracked : Tracked.Set := ⟨[⟨⟨"maya", "cmds"⟩, none⟩], unchainedFlags⟩
    (∀ call ∈ [crowdedCall], call.place < tracked.members.length) ∧ tracked.ChainFree ∧
      ∃ p, plan? tracked [crowdedCall] = some p ∧ p.renames.map (·.long) = ["linux"] ∧
        p.conflicts.map (fun c => (c.rename.short, c.reason)) =
          [("q", .duplicateTarget), ("n", .alreadyPresent), ("qu", .duplicateTarget)] ∧
        plan? tracked ([crowdedCall].map (Call.apply p)) = some ⟨[], p.conflicts⟩ := by
  intro tracked
  have hmodules : ∀ call ∈ [crowdedCall], call.place < tracked.members.length := by decide
  have hchain : tracked.ChainFree :=
    Tracked.Set.chainFree_of_tables (Flag.Table.chainFree_of_all (by decide +kernel))
      (by simp [tracked])
  obtain ⟨p, hp, -, hagain⟩ := replan_settled tracked [crowdedCall] hmodules hchain
  have hplan : (plan? tracked [crowdedCall]).map (fun p => (p.renames.map (·.long),
      p.conflicts.map fun c => (c.rename.short, c.reason))) =
        some (["linux"], [("q", .duplicateTarget), ("n", .alreadyPresent),
          ("qu", .duplicateTarget)]) := by decide +kernel
  rw [hp] at hplan
  obtain ⟨hrenames, hconflicts⟩ := Prod.mk.inj (Option.some.inj hplan)
  exact ⟨hmodules, hchain, p, hp, hrenames, hconflicts, hagain (List.pairwise_singleton _ _)⟩

end Edit

end Longhand
