import Longhand.Proofs.Arranged
import Longhand.Proofs.Plan
import Mathlib.Data.List.Forall2
import Mathlib.Logic.ExistsUnique

/-!
# What a plan accounts for

A keyword whose flag the table maps to another name is due one entry of the plan: a conflict if the
long name is written in the call or another keyword of the call is to get it as well, and a change
otherwise.  A plan has the entries that are due and no others.
-/

namespace Longhand.Edit

open Text

variable {table : Flag.Table} {tracked : Tracked.Set} {call : Call} {calls : List Call}
  {i j : Nat} {k k' : Keyword} {long : String} {entry : Change ⊕ Conflict}

/-! ## Entries that are due -/

/-- Whether the table maps the flag of the keyword at a place of a call to another name. -/
structure Wants (table : Flag.Table) (call : Call) (i : Nat) (k : Keyword) (long : String) : Prop where
  at_place : call.keywords[i]? = some k
  lookup : table.lookup call.command k.name = some long
  ne : long ≠ k.name

/-- Whether a name is written as a keyword of a call. -/
def Call.Writes (call : Call) (name : String) : Prop :=
  ∃ k ∈ call.keywords, k.name = name

/-- The rename that gives a keyword of a call another name. -/
def Call.rename (call : Call) (k : Keyword) (long : String) : Rename :=
  ⟨k.position, call.command, k.name, long⟩

/-- What a plan has to say of the keyword at a place of a call. -/
inductive Due (table : Flag.Table) (call : Call) (i : Nat) : Change ⊕ Conflict → Prop
  /-- The long name is written in the call. -/
  | present {k : Keyword} {long : String} : Wants table call i k long → call.Writes long →
      Due table call i (.inr ⟨call.rename k long, .alreadyPresent⟩)
  /-- The long name is not written in the call, and another keyword wants it as well. -/
  | shared {j : Nat} {k other : Keyword} {long : String} : Wants table call i k long →
      ¬call.Writes long → j ≠ i → Wants table call j other long →
      Due table call i (.inr ⟨call.rename k long, .duplicateTarget⟩)
  /-- The long name is not written in the call, and no other keyword wants it. -/
  | renamed {k : Keyword} {long : String} : Wants table call i k long → ¬call.Writes long →
      (∀ j other, Wants table call j other long → j = i) →
      Due table call i (.inl ⟨k.span, call.rename k long⟩)

theorem Wants.unique {long' : String} (h : Wants table call i k long)
    (h' : Wants table call i k' long') : k = k' ∧ long = long' := by
  have hk : k = k' := Option.some.inj (h.at_place.symm.trans h'.at_place)
  subst hk
  exact ⟨rfl, Option.some.inj (h.lookup.symm.trans h'.lookup)⟩

theorem Due.wants (h : Due table call i entry) : ∃ k long, Wants table call i k long := by
  cases h with
  | present hwants => exact ⟨_, _, hwants⟩
  | shared hwants => exact ⟨_, _, hwants⟩
  | renamed hwants => exact ⟨_, _, hwants⟩

/-- A keyword is due one entry at most. -/
theorem Due.unique {entry' : Change ⊕ Conflict} (h : Due table call i entry)
    (h' : Due table call i entry') : entry = entry' := by
  cases h with
  | present hwants hwrites =>
      cases h' with
      | present hwants' => rw [(hwants.unique hwants').1, (hwants.unique hwants').2]
      | shared hwants' habsent => exact absurd ((hwants.unique hwants').2 ▸ hwrites) habsent
      | renamed hwants' habsent => exact absurd ((hwants.unique hwants').2 ▸ hwrites) habsent
  | shared hwants habsent hne hother =>
      cases h' with
      | present hwants' hwrites => exact absurd ((hwants.unique hwants').2 ▸ hwrites) habsent
      | shared hwants' => rw [(hwants.unique hwants').1, (hwants.unique hwants').2]
      | renamed hwants' _ halone =>
          exact absurd (halone _ _ ((hwants.unique hwants').2 ▸ hother)) hne
  | renamed hwants habsent halone =>
      cases h' with
      | present hwants' hwrites => exact absurd ((hwants.unique hwants').2 ▸ hwrites) habsent
      | shared hwants' _ hne hother =>
          exact absurd (halone _ _ ((hwants.unique hwants').2 ▸ hother)) hne
      | renamed hwants' => rw [(hwants.unique hwants').1, (hwants.unique hwants').2]

/-- Whether some entries, each with the place of its keyword, are those that are due for a call, in the
order of its keywords. -/
structure Accounts (table : Flag.Table) (call : Call) (share : List (Nat × (Change ⊕ Conflict))) :
    Prop where
  ordered : share.Pairwise fun a b => a.1 < b.1
  mem_iff : ∀ i entry, (i, entry) ∈ share ↔ Due table call i entry

/-! ## The entries of one call -/

/-- The entry of a keyword of a call, if there is one. -/
def entryOf? (table : Flag.Table) (call : Call) (k : Keyword) : Option (Change ⊕ Conflict) :=
  (candidate? table call.command k).map fun c =>
    match conflict? call.keywords
      ((call.keywords.filterMap (candidate? table call.command)).map Prod.snd) c.2 with
    | none => .inl ⟨k.span, call.rename k c.2⟩
    | some reason => .inr ⟨call.rename k c.2, reason⟩

/-- The entries of a call are those of its keywords, in order. -/
theorem planCall_eq (table : Flag.Table) (call : Call) :
    planCall table call = call.keywords.filterMap (entryOf? table call) := by
  unfold planCall
  rw [List.map_filterMap]
  congr 1
  funext k
  unfold entryOf?
  cases hk : candidate? table call.command k with
  | none => rfl
  | some c =>
      obtain ⟨rfl, -⟩ := candidate?_eq_some hk
      rfl

theorem candidate?_eq_some_iff {c : Keyword × String} :
    candidate? table call.command k = some c ↔
      c.1 = k ∧ table.lookup call.command k.name = some c.2 ∧ c.2 ≠ k.name := by
  refine ⟨candidate?_eq_some, fun ⟨hk, hlookup, hne⟩ => ?_⟩
  unfold candidate?
  rw [hlookup]
  subst hk
  simp [hne]

theorem wants_iff (hk : call.keywords[i]? = some k) :
    Wants table call i k long ↔ candidate? table call.command k = some (k, long) := by
  rw [candidate?_eq_some_iff]
  exact ⟨fun h => ⟨rfl, h.lookup, h.ne⟩, fun ⟨_, hlookup, hne⟩ => ⟨hk, hlookup, hne⟩⟩

/-- A test that an element of a list passes is passed by more than one exactly if another place has
one that passes it. -/
theorem one_lt_countP_iff {α : Type} {p : α → Bool} {l : List α} {a : α} (h : l[i]? = some a)
    (ha : p a = true) : 1 < l.countP p ↔ ∃ j, j ≠ i ∧ ∃ b, l[j]? = some b ∧ p b = true := by
  induction l generalizing i with
  | nil => cases h
  | cons x rest ih =>
      cases i with
      | zero =>
          cases h
          rw [List.countP_cons_of_pos ha, Nat.lt_add_left_iff_pos, List.countP_pos_iff]
          constructor
          · rintro ⟨b, hb, hpb⟩
            obtain ⟨j, hj⟩ := List.mem_iff_getElem?.1 hb
            exact ⟨j + 1, by omega, b, hj, hpb⟩
          · rintro ⟨j, hj, b, hb, hpb⟩
            obtain ⟨j, rfl⟩ := Nat.exists_eq_succ_of_ne_zero hj
            exact ⟨b, List.mem_iff_getElem?.2 ⟨j, hb⟩, hpb⟩
      | succ i =>
          have hrest : rest[i]? = some a := h
          by_cases hx : p x = true
          · have hmem : 0 < rest.countP p :=
              List.countP_pos_iff.2 ⟨a, List.mem_iff_getElem?.2 ⟨i, hrest⟩, ha⟩
            rw [List.countP_cons_of_pos hx]
            exact ⟨fun _ => ⟨0, by omega, x, rfl, hx⟩, fun _ => by omega⟩
          · rw [List.countP_cons_of_neg hx, ih hrest]
            constructor
            · rintro ⟨j, hj, b, hb, hpb⟩
              exact ⟨j + 1, by omega, b, hb, hpb⟩
            · rintro ⟨j, hj, b, hb, hpb⟩
              cases j with
              | zero =>
                  cases hb
                  exact absurd hpb hx
              | succ j => exact ⟨j, by omega, b, hb, hpb⟩

/-- Several keywords want a long name exactly if another one than a given one wants it. -/
theorem one_lt_count_iff (h : Wants table call i k long) :
    1 < ((call.keywords.filterMap (candidate? table call.command)).map Prod.snd).count long ↔
      ∃ j, j ≠ i ∧ ∃ other, Wants table call j other long := by
  have hwants : ∀ {k : Keyword}, ((candidate? table call.command k).map Prod.snd == some long) = true ↔
      table.lookup call.command k.name = some long ∧ long ≠ k.name := by
    intro k
    rw [beq_iff_eq, Option.map_eq_some_iff]
    constructor
    · rintro ⟨c, hc, rfl⟩
      exact (candidate?_eq_some_iff.1 hc).2
    · intro hlong
      exact ⟨(k, long), candidate?_eq_some_iff.2 ⟨rfl, hlong⟩, rfl⟩
  rw [List.map_filterMap, List.count_filterMap,
    one_lt_countP_iff h.at_place (hwants.2 ⟨h.lookup, h.ne⟩)]
  refine exists_congr fun j => and_congr_right fun _ => exists_congr fun other => ?_
  rw [hwants]
  exact ⟨fun ⟨hat, hlookup, hne⟩ => ⟨hat, hlookup, hne⟩, fun h => ⟨h.at_place, h.lookup, h.ne⟩⟩

/-- A keyword that the table maps to another name has the entry that is due. -/
theorem exists_entry (h : Wants table call i k long) :
    ∃ entry, entryOf? table call k = some entry ∧ Due table call i entry := by
  have hcandidate := (wants_iff h.at_place).1 h
  have hwrites : (call.keywords.any (·.name == long)) = true ↔ call.Writes long := by
    simp [Call.Writes]
  have hcount := one_lt_count_iff h
  simp only [entryOf?, hcandidate, Option.map_some, conflict?, Option.some.injEq, exists_eq_left']
  by_cases hpresent : call.Writes long
  · rw [if_pos (hwrites.2 hpresent)]
    exact .present h hpresent
  rw [if_neg fun hany => hpresent (hwrites.1 hany)]
  by_cases hshared : ∃ j, j ≠ i ∧ ∃ other, Wants table call j other long
  · rw [if_pos (hcount.2 hshared)]
    obtain ⟨j, hne, other, hother⟩ := hshared
    exact .shared h hpresent hne hother
  · rw [if_neg fun hlt => hshared (hcount.1 hlt)]
    refine .renamed h hpresent fun j other hother => Classical.byContradiction fun hne => ?_
    exact hshared ⟨j, hne, other, hother⟩

/-- Each keyword has the entry that is due, if any. -/
theorem entryOf?_eq_some_iff (hk : call.keywords[i]? = some k) :
    entryOf? table call k = some entry ↔ Due table call i entry := by
  constructor
  · intro h
    obtain ⟨⟨k', long⟩, hcandidate, -⟩ := Option.map_eq_some_iff.1 h
    obtain ⟨hk', -⟩ := candidate?_eq_some hcandidate
    obtain rfl : k' = k := hk'
    obtain ⟨entry', hentry, hdue⟩ := exists_entry ((wants_iff hk).2 hcandidate)
    rw [h] at hentry
    cases hentry
    exact hdue
  · intro h
    obtain ⟨k', long, hwants⟩ := h.wants
    obtain ⟨entry', hentry, hdue⟩ := exists_entry hwants
    obtain rfl : k = k' := Option.some.inj (hk.symm.trans hwants.at_place)
    rw [hentry, hdue.unique h]

/-- The entries of a call with the places of their keywords. -/
def share (table : Flag.Table) (call : Call) : List (Nat × (Change ⊕ Conflict)) :=
  call.keywords.zipIdx.filterMap fun p => (entryOf? table call p.1).map fun entry => (p.2, entry)

theorem share_entries (table : Flag.Table) (call : Call) :
    (share table call).map Prod.snd = planCall table call := by
  have hentry : ∀ p : Keyword × Nat,
      ((entryOf? table call p.1).map fun entry => (p.2, entry)).map Prod.snd =
        entryOf? table call p.1 := by
    intro p
    rw [Option.map_map]
    exact Option.map_id' ..
  rw [planCall_eq, share, List.map_filterMap]
  simp only [hentry]
  have hkeywords : (call.keywords.zipIdx.map Prod.fst).filterMap (entryOf? table call)
      = call.keywords.zipIdx.filterMap fun p => entryOf? table call p.1 := List.filterMap_map
  rw [← hkeywords, List.zipIdx_map_fst]

/-- A call accounts for each of its keywords. -/
theorem accounts_share (table : Flag.Table) (call : Call) :
    Accounts table call (share table call) where
  ordered := by
    have hplaces : (call.keywords.zipIdx.map Prod.snd).Pairwise (· < ·) := by
      rw [List.zipIdx_map_snd]
      exact List.pairwise_lt_range' ..
    rw [List.pairwise_map] at hplaces
    refine List.pairwise_filterMap.2 (hplaces.imp fun {p q} hlt a ha b hb => ?_)
    obtain ⟨_, -, rfl⟩ := Option.map_eq_some_iff.1 ha
    obtain ⟨_, -, rfl⟩ := Option.map_eq_some_iff.1 hb
    exact hlt
  mem_iff := by
    intro i entry
    rw [share, List.mem_filterMap]
    constructor
    · rintro ⟨⟨k, j⟩, hk, hentry⟩
      obtain ⟨_, hentry, heq⟩ := Option.map_eq_some_iff.1 hentry
      cases heq
      exact (entryOf?_eq_some_iff (List.mem_zipIdx_iff_getElem?.1 hk)).1 hentry
    · intro h
      obtain ⟨k, long, hwants⟩ := h.wants
      refine ⟨(k, i), List.mem_zipIdx_iff_getElem?.2 hwants.at_place, ?_⟩
      rw [(entryOf?_eq_some_iff hwants.at_place).2 h]
      rfl

/-- A keyword that the table maps to another name has one entry. -/
theorem Accounts.existsUnique {entries : List (Nat × (Change ⊕ Conflict))}
    (h : Accounts table call entries) (hwants : Wants table call i k long) :
    ∃! entry, (i, entry) ∈ entries := by
  obtain ⟨entry, -, hdue⟩ := exists_entry hwants
  exact ⟨entry, (h.mem_iff i entry).2 hdue, fun entry' h' => ((h.mem_iff i entry').1 h').unique hdue⟩

/-! ## The plan of all calls -/

theorem isSome_table? (h : call.place < tracked.members.length) :
    (tracked.table? call.place).isSome = true := by
  simp [Tracked.Set.table?, List.getElem?_eq_getElem h]

/-- The entries of a plan are the shares of its calls, one after the other. -/
theorem exists_shareList {entries : List (Change ⊕ Conflict)}
    (h : planCalls tracked calls = some entries) :
    ∃ shares : List (List (Nat × (Change ⊕ Conflict))),
      List.Forall₂ (fun call entries => ∃ table, tracked.table? call.place = some table ∧
        Accounts table call entries) calls shares ∧
      entries = shares.flatten.map Prod.snd := by
  induction calls generalizing entries with
  | nil =>
      cases h
      exact ⟨[], .nil, rfl⟩
  | cons call rest ih =>
      obtain ⟨table, more, htable, hmore, rfl⟩ := planCalls_cons h
      obtain ⟨shares, hshares, rfl⟩ := ih hmore
      refine ⟨share table call :: shares, .cons ⟨table, htable, accounts_share table call⟩ hshares, ?_⟩
      rw [List.flatten_cons, List.map_append, share_entries]

/-- A plan accounts for every candidate once.  Each call has its share of the entries, which has one
entry for each keyword that the table maps to another name, the one that is due, and no others.  The
edits and the renames of the plan go together; they are the changes of all shares in the order of their
spans, those of one span in the order of the calls.  The conflicts are those of all shares in the order
of the calls. -/
theorem plan_accounts (tracked : Tracked.Set) (calls : List Call)
    (hmodules : ∀ call ∈ calls, call.place < tracked.members.length) :
    ∃ p shares, plan? tracked calls = some p ∧
      List.Forall₂ (fun call entries => ∃ table, tracked.table? call.place = some table ∧
        Accounts table call entries ∧
        ∀ i k long, Wants table call i k long → ∃! entry, (i, entry) ∈ entries) calls shares ∧
      p.edits.length = p.renames.length ∧
      Arranged (·.1.span)
        (((shares.flatten.map Prod.snd).filterMap Sum.getLeft?).map fun c => (c.edit, c.rename))
        (p.edits.zip p.renames) ∧
      p.conflicts = (shares.flatten.map Prod.snd).filterMap Sum.getRight? := by
  obtain ⟨entries, hentries⟩ :=
    exists_planCalls fun call hcall => isSome_table? (hmodules call hcall)
  obtain ⟨shares, hshares, rfl⟩ := exists_shareList hentries
  refine ⟨_, shares, by rw [plan?, hentries], ?_, ?_, ?_, rfl⟩
  · refine hshares.imp fun call entries ⟨table, htable, haccounts⟩ => ?_
    exact ⟨table, htable, haccounts, fun i k long hwants => haccounts.existsUnique hwants⟩
  · rw [Plan.edits, Plan.renames, List.length_map, List.length_map]
  · rw [Plan.edits, Plan.renames, List.zip_map']
    exact (Change.arranged_sorted _).map fun c => rfl

/-- Flags of which two have one long name. -/
def nestedFlags : Flag.Table where
  commands := [("about", [("ppc", "macOSppc"), ("li", "linux"), ("q", "query"), ("qu", "query")])]
  usable := by decide +kernel

/-- A call with another one in its first argument.  The inner call has a flag beside its long name, the
outer one two flags with one long name. -/
def nestedCalls : List Call :=
  [⟨0, "about", ⟨0, 70⟩, [⟨"ppc", ⟨11, 14⟩, ⟨15, 50⟩, ⟨1, 12⟩⟩, ⟨"q", ⟨52, 53⟩, ⟨54, 55⟩, ⟨1, 53⟩⟩,
      ⟨"qu", ⟨57, 59⟩, ⟨60, 61⟩, ⟨1, 58⟩⟩, ⟨"li", ⟨63, 65⟩, ⟨66, 67⟩, ⟨1, 64⟩⟩]⟩,
    ⟨0, "about", ⟨15, 50⟩, [⟨"li", ⟨26, 28⟩, ⟨29, 30⟩, ⟨1, 27⟩⟩, ⟨"q", ⟨32, 33⟩, ⟨34, 35⟩, ⟨1, 33⟩⟩,
      ⟨"query", ⟨37, 42⟩, ⟨43, 44⟩, ⟨1, 38⟩⟩]⟩]

/-- The changes of both calls come in the order of the text, and the conflicts in that of the calls. -/
theorem plan_accounts_of_nested :
    let tracked : Tracked.Set := ⟨[⟨⟨"maya", "cmds"⟩, none⟩], nestedFlags⟩
    (∀ call ∈ nestedCalls, call.place < tracked.members.length) ∧
      ∃ p shares, plan? tracked nestedCalls = some p ∧
        List.Forall₂ (fun call entries => ∃ table, tracked.table? call.place = some table ∧
          Accounts table call entries) nestedCalls shares ∧
        p.conflicts = (shares.flatten.map Prod.snd).filterMap Sum.getRight? ∧
        p.renames.map (·.long) = ["macOSppc", "linux", "linux"] ∧
        p.conflicts.map (fun c => (c.rename.position.column, c.reason)) =
          [(53, .duplicateTarget), (58, .duplicateTarget), (33, .alreadyPresent)] := by
  intro tracked
  have hmodules : ∀ call ∈ nestedCalls, call.place < tracked.members.length := by decide
  obtain ⟨p, shares, hp, hshares, -, -, hconflicts⟩ := plan_accounts tracked nestedCalls hmodules
  have hplan : (plan? tracked nestedCalls).map (fun p => (p.renames.map (·.long),
      p.conflicts.map fun c => (c.rename.position.column, c.reason))) =
        some (["macOSppc", "linux", "linux"],
          [(53, .duplicateTarget), (58, .duplicateTarget), (33, .alreadyPresent)]) := by
    decide +kernel
  rw [hp] at hplan
  obtain ⟨hlongs, hreasons⟩ := Prod.mk.inj (Option.some.inj hplan)
  refine ⟨hmodules, p, shares, hp, hshares.imp fun _ _ h => ?_, hconflicts, hlongs, hreasons⟩
  obtain ⟨table, htable, haccounts, -⟩ := h
  exact ⟨table, htable, haccounts⟩

end Longhand.Edit
