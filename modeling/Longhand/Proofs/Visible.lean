import Longhand.Proofs.Lookup

/-!
# The deciding binding

Which of the bindings of a scope decides what a name stands for at an offset.  The latest one does,
unless it is untracked and a tracked one of another arm outlasts it.
-/

namespace Longhand.Scope

open Syntax

/-! ## Arms -/

/-- Whether two bindings were made in different arms of one branching statement. -/
def Event.Exclusive (e f : Event) : Prop :=
  ∃ a ∈ e.arms, ∃ b ∈ f.arms, a.statement = b.statement ∧ a.number ≠ b.number

instance (e f : Event) : Decidable (e.Exclusive f) :=
  inferInstanceAs (Decidable (∃ a ∈ e.arms, ∃ b ∈ f.arms,
    a.statement = b.statement ∧ a.number ≠ b.number))

/-- Whether two bindings were made in one arm of a branching statement and a third one in another
arm of it. -/
def Screened (latest e f : Event) : Prop :=
  ∃ a ∈ latest.arms, ∃ b ∈ e.arms, ∃ c ∈ f.arms, a.statement = b.statement ∧
    a.statement = c.statement ∧ b.number = c.number ∧ a.number ≠ b.number

theorem Event.Exclusive.symm {e f : Event} (h : e.Exclusive f) : f.Exclusive e := by
  obtain ⟨a, ha, b, hb, hstatement, hnumber⟩ := h
  exact ⟨b, hb, a, ha, hstatement.symm, Ne.symm hnumber⟩

/-- An arm that differs from its counterpart belongs to the first list, the counterpart to the
second. -/
theorem divergingArm?_mem {l m : List Arm} {a : Arm} (h : divergingArm? l m = some a) :
    a ∈ l ∧ ∃ b ∈ m, a.statement = b.statement ∧ a.number ≠ b.number := by
  induction l generalizing m with
  | nil => cases h
  | cons x l ih =>
      cases m with
      | nil => cases h
      | cons y m =>
          rw [divergingArm?] at h
          split at h
          · cases h
          · rename_i hstatement
            simp only [ne_eq, Decidable.not_not] at hstatement
            split at h
            · rename_i hnumber
              cases h
              exact ⟨List.mem_cons_self, y, List.mem_cons_self, hstatement, hnumber⟩
            · obtain ⟨hmem, b, hb, hab⟩ := ih h
              exact ⟨List.mem_cons_of_mem _ hmem, b, List.mem_cons_of_mem _ hb, hab⟩

/-- Two lists of arms that both leave a third one leave each other as well, or they share an arm
where they leave it. -/
theorem diverging_or_shared {l m k : List Arm} (hm : (divergingArm? l m).isSome)
    (hk : (divergingArm? l k).isSome) :
    (∃ a ∈ m, ∃ b ∈ k, a.statement = b.statement ∧ a.number ≠ b.number) ∨
      ∃ a ∈ l, ∃ b ∈ m, ∃ c ∈ k, a.statement = b.statement ∧ a.statement = c.statement ∧
        b.number = c.number ∧ a.number ≠ b.number := by
  induction l generalizing m k with
  | nil => cases hm
  | cons x l ih =>
      cases m with
      | nil => cases hm
      | cons y m =>
          cases k with
          | nil => cases hk
          | cons z k =>
              rw [divergingArm?] at hm hk
              have hy : x.statement = y.statement := by
                by_cases hy : x.statement = y.statement
                · exact hy
                · simp [hy] at hm
              have hz : x.statement = z.statement := by
                by_cases hz : x.statement = z.statement
                · exact hz
                · simp [hz] at hk
              -- The first place at which one of the two leaves the third decides.
              by_cases hyz : y.number = z.number
              · by_cases hxy : x.number = y.number
                · rw [if_neg (by simpa using hy), if_neg (by simpa using hxy)] at hm
                  rw [if_neg (by simpa using hz), if_neg (by simpa using hxy.trans hyz)] at hk
                  rcases ih hm hk with ⟨a, ha, b, hb, hab⟩ | ⟨a, ha, b, hb, c, hc, habc⟩
                  · exact .inl ⟨a, List.mem_cons_of_mem _ ha, b, List.mem_cons_of_mem _ hb, hab⟩
                  · exact .inr ⟨a, List.mem_cons_of_mem _ ha, b, List.mem_cons_of_mem _ hb, c,
                      List.mem_cons_of_mem _ hc, habc⟩
                · exact .inr ⟨x, List.mem_cons_self, y, List.mem_cons_self, z,
                    List.mem_cons_self, hy, hz, hyz, hxy⟩
              · exact .inl ⟨y, List.mem_cons_self, z, List.mem_cons_self, hy.symm.trans hz, hyz⟩

/-! ## The deciding binding -/

/-- The bindings of a name that were made up to an offset, the latest first. -/
def visibleEvents (events : List Event) (name : String) (offset : Nat) : List Event :=
  events.reverse.filter fun e => e.name == name && e.offset ≤ offset

/-- The tracked binding of another arm that outlasts an untracked one, with the bindings that were
made after it, among the earlier bindings of the name from the latest on. -/
def survivor? (latest : Event) (offset : Nat) : List Event → Option (List Event × Event)
  | [] => none
  | e :: rest =>
      match divergingArm? latest.arms e.arms with
      | none => none
      | some arm =>
          if arm.region.contains offset then none
          else if e.binding.isTracked then some ([], e)
          else (survivor? latest offset rest).map fun (newer, f) => (e :: newer, f)

/-- The binding that decides what a name stands for at an offset, with the bindings that were made
after it. -/
def deciding? (events : List Event) (name : String) (offset : Nat) :
    Option (List Event × Event) :=
  match visibleEvents events name offset with
  | [] => none
  | latest :: earlier =>
      if latest.binding.isTracked then some ([], latest)
      else
        some (((survivor? latest offset earlier).map fun (newer, e) => (latest :: newer, e)).getD
          ([], latest))

variable {events : List Event} {name : String} {offset : Nat} {latest e f : Event}
  {earlier newer : List Event}

theorem surviving?_eq : surviving? latest offset earlier =
    (survivor? latest offset earlier).map fun r => r.2.binding := by
  induction earlier with
  | nil => rfl
  | cons e rest ih =>
      rw [surviving?, survivor?]
      cases divergingArm? latest.arms e.arms with
      | none => rfl
      | some arm =>
          dsimp only
          split
          · rfl
          · split
            · rfl
            · rw [ih, Option.map_map]
              rfl

/-- What a name stands for is what the deciding binding says. -/
theorem visible?_eq : visible? events name offset =
    (deciding? events name offset).map fun r => r.2.binding := by
  unfold visible? deciding? visibleEvents
  generalize events.reverse.filter _ = visible
  cases visible with
  | nil => rfl
  | cons latest earlier =>
      dsimp only
      split
      · rfl
      · rw [surviving?_eq]
        cases survivor? latest offset earlier <;> rfl

/-- The survivor is a tracked binding, and each binding from it on was made in another arm than the
latest one, outside of which the offset lies. -/
theorem survivor?_eq_some (h : survivor? latest offset earlier = some (newer, e)) :
    (∃ older, earlier = newer ++ e :: older) ∧ e.binding.isTracked = true ∧
      ∀ f ∈ newer ++ [e], ∃ a, divergingArm? latest.arms f.arms = some a ∧
        a.region.contains offset = false := by
  induction earlier generalizing newer with
  | nil => cases h
  | cons f rest ih =>
      rw [survivor?] at h
      split at h
      · cases h
      · rename_i arm harm
        split at h
        · cases h
        · rename_i hregion
          have hf : ∃ a, divergingArm? latest.arms f.arms = some a ∧
              a.region.contains offset = false := ⟨arm, harm, by simpa using hregion⟩
          split at h
          · cases h
            refine ⟨⟨rest, rfl⟩, ‹_›, fun g hg => ?_⟩
            rw [List.mem_singleton.1 hg]
            exact hf
          · obtain ⟨⟨between, e'⟩, hrest, heq⟩ := Option.map_eq_some_iff.1 h
            cases heq
            obtain ⟨⟨older, rfl⟩, htracked, hall⟩ := ih hrest
            refine ⟨⟨older, rfl⟩, htracked, fun g hg => ?_⟩
            rcases List.mem_cons.1 hg with rfl | hg
            · exact hf
            · exact hall g hg

/-- The deciding binding stands in the list of visible ones, behind those that were made after it,
and there are none of these unless it is a survivor. -/
theorem deciding?_eq_some (h : deciding? events name offset = some (newer, e)) :
    (∃ older, visibleEvents events name offset = newer ++ e :: older) ∧
      (newer = [] ∨ ∃ latest between, newer = latest :: between ∧
        latest.binding.isTracked = false ∧ e.binding.isTracked = true ∧
          ∀ f ∈ between ++ [e], ∃ a, divergingArm? latest.arms f.arms = some a ∧
            a.region.contains offset = false) := by
  unfold deciding? at h
  split at h
  · cases h
  · rename_i latest earlier heq
    split at h
    · cases h
      exact ⟨⟨earlier, heq⟩, .inl rfl⟩
    · rename_i huntracked
      cases hsurvivor : survivor? latest offset earlier with
      | none =>
          rw [hsurvivor] at h
          cases h
          exact ⟨⟨earlier, heq⟩, .inl rfl⟩
      | some r =>
          obtain ⟨between, e'⟩ := r
          rw [hsurvivor] at h
          cases h
          obtain ⟨⟨older, rfl⟩, htracked, hall⟩ := survivor?_eq_some hsurvivor
          exact ⟨⟨older, heq⟩, .inr ⟨latest, between, rfl, by simpa using huntracked, htracked,
            hall⟩⟩

/-- Each binding after the deciding one was made in another arm than it, or in the same arm of a
statement with the latest one in another arm. -/
theorem exclusive_or_screened (h : deciding? events name offset = some (newer, e))
    (hf : f ∈ newer) : f.Exclusive e ∨ ∃ latest ∈ newer.head?, Screened latest f e := by
  obtain ⟨-, rfl | ⟨latest, between, rfl, -, -, hall⟩⟩ := deciding?_eq_some h
  · cases hf
  obtain ⟨a, ha, -⟩ := hall e (by simp)
  rcases List.mem_cons.1 hf with rfl | hf
  · left
    obtain ⟨hmem, b, hb, hab⟩ := divergingArm?_mem ha
    exact ⟨a, hmem, b, hb, hab⟩
  · obtain ⟨b, hb, -⟩ := hall f (List.mem_append_left _ hf)
    rcases diverging_or_shared (by simp [hb] : (divergingArm? latest.arms f.arms).isSome)
      (by simp [ha] : (divergingArm? latest.arms e.arms).isSome) with hexclusive | hscreened
    · exact .inl hexclusive
    · exact .inr ⟨latest, rfl, hscreened⟩

/-! ## Looking up a name -/

/-- What a name is found to stand for is what a binding of some scope decides. -/
theorem lookupFrom_eq_some {s : Scopes} {steps id : Nat} {innermost : Bool} {b : Binding}
    (h : s.lookupFrom name offset steps innermost id = some b) :
    ∃ scope ∈ s.scopes, visible? scope.events name offset = some b := by
  induction steps generalizing innermost id with
  | zero => cases h
  | succ steps ih =>
      rw [Scopes.lookupFrom] at h
      split at h
      · cases h
      · rename_i scope hscope
        dsimp only at h
        split at h
        · rename_i hhere
          cases h
          split at hhere
          · exact ⟨scope, List.mem_of_getElem? hscope, hhere⟩
          · cases hhere
        · exact ih h
        · cases h

/-- One tracked module. -/
def mayaCmds : Tracked.Set :=
  ⟨[⟨⟨"maya", "cmds"⟩, none⟩], default⟩

/-- The import of a `try` outlasts the fallback of its handler. -/
def fallback : List Char :=
  "try:\n    from maya import cmds\nexcept ImportError:\n    cmds = None\nX\n".toList

/-- An import in a `try` that rebinds the name before its handler does. -/
def reboundImport : List Char :=
  ("try:\n    from maya import cmds\n    cmds = wrap(cmds)\n" ++
    "except ImportError:\n    cmds = None\nX\n").toList

end Longhand.Scope
