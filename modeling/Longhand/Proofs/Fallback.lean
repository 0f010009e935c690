import Longhand.Proofs.Arms
import Longhand.Proofs.Visible

/-!
# Tracked bindings and their fallbacks

A tracked binding in one arm of a branching statement outlasts an untracked one in another arm,
unless the fallback arm binds the name more than once in a straight line.  The scan for it goes
through the arms of one statement only, and so no arm that holds the offset is left on the way.
-/

namespace Longhand.Scope

open Syntax Text

variable {tracked : Tracked.Set} {t : Tree} {scope : Scope} {name : String} {offset : Nat}
  {e f first latest : Event} {a b : Arm} {v : Visit} {between older : List Event}

/-! ## The walk over a whole text -/

/-- The walk over a whole text. -/
def wholeVisit (t : Tree) : Visit :=
  ⟨⟨0, 0, []⟩, ⟨1, 0⟩, t⟩

theorem wholeVisit_sound (ht : Sourced t) : (wholeVisit t).Sound where
  sourced := ht
  scope := Nat.zero_lt_one
  statement := fun _ h => nomatch h
  nested := .nil
  around := fun _ h => nomatch h

/-- The bindings of a scope are those that the walk over the whole text makes in it. -/
theorem mem_scope_events {k : Nat} (hscope : (resolve tracked t).scopes[k]? = some scope) :
    e ∈ scope.events ↔ e ∈ ((wholeVisit t).found tracked).events ∧ e.scope = k := by
  rw [resolve_getElem?] at hscope
  obtain ⟨frame, -, rfl⟩ := Option.map_eq_some_iff.1 hscope
  simp only [scopeOf, mem_stableSort, List.mem_filter, decide_eq_true_eq]
  rfl

/-- The bindings of a scope are in the order of their offsets. -/
theorem events_pairwise (hscope : scope ∈ (resolve tracked t).scopes) :
    scope.events.Pairwise fun e f => e.offset ≤ f.offset := by
  rw [resolve_scopes] at hscope
  obtain ⟨⟨frame, id⟩, -, rfl⟩ := List.mem_map.1 hscope
  refine (stableSort_pairwise ?_ ?_ _).imp fun h => by simpa using h
  · intro e f
    simpa using Nat.le_total e.offset f.offset
  · intro e f g hef hfg
    simp only [decide_eq_true_eq] at hef hfg ⊢
    exact Nat.le_trans hef hfg

theorem mem_visibleEvents : e ∈ visibleEvents scope.events name offset ↔
    e ∈ scope.events ∧ e.name = name ∧ e.offset ≤ offset := by
  simp [visibleEvents]

/-- The visible bindings are in the order of their offsets, the latest first. -/
theorem visibleEvents_pairwise (hscope : scope ∈ (resolve tracked t).scopes) :
    (visibleEvents scope.events name offset).Pairwise fun e f => f.offset ≤ e.offset :=
  (List.pairwise_reverse.2 (events_pairwise hscope)).filter _

theorem offset_le_of_head (hscope : scope ∈ (resolve tracked t).scopes)
    (hlatest : (visibleEvents scope.events name offset).head? = some latest)
    (hf : f ∈ visibleEvents scope.events name offset) : f.offset ≤ latest.offset := by
  have horder : (visibleEvents scope.events name offset).Pairwise fun e f => f.offset ≤ e.offset :=
    visibleEvents_pairwise hscope
  obtain ⟨rest, hlist⟩ := List.head?_eq_some_iff.1 hlatest
  rw [hlist] at horder hf
  rcases List.mem_cons.1 hf with rfl | hf
  · exact Nat.le_refl _
  · exact (List.pairwise_cons.1 horder).1 f hf

/-! ## Where two bindings part -/

theorem divergingArm?_append (around l m : List Arm) :
    divergingArm? (around ++ l) (around ++ m) = divergingArm? l m := by
  induction around with
  | nil => rfl
  | cons a rest ih =>
      rw [List.cons_append, List.cons_append, divergingArm?, if_neg (by simp), if_neg (by simp)]
      exact ih

/-- Bindings in different arms of one statement part in an arm. -/
theorem diverging_of_exclusive (hv : v.Sound) (he : e ∈ (v.found tracked).events)
    (hf : f ∈ (v.found tracked).events) (h : f.Exclusive e) :
    (divergingArm? e.arms f.arms).isSome = true := by
  obtain ⟨b, hb, a, ha, hstatement, hnumber⟩ := h
  obtain ⟨around, rest, rest', harms, harms'⟩ := same_around hv he hf ha hb hstatement.symm
  rw [harms, harms', divergingArm?_append, divergingArm?, if_neg (by simp [hstatement]),
    if_pos hnumber.symm]
  rfl

theorem exclusive_of_diverging (h : divergingArm? e.arms f.arms = some a) : f.Exclusive e := by
  obtain ⟨ha, b, hb, hstatement, hnumber⟩ := divergingArm?_mem h
  exact ⟨b, hb, a, ha, hstatement.symm, hnumber.symm⟩

/-- Bindings in arms of one statement part inside the arm of the one, or where they leave it. -/
theorem diverging_within (hv : v.Sound) (he : e ∈ (v.found tracked).events)
    (hf : f ∈ (v.found tracked).events) (ha : a ∈ e.arms) (hb : b ∈ f.arms)
    (hab : a.statement = b.statement) {d : Arm} (h : divergingArm? e.arms f.arms = some d) :
    d.region.Within a.region := by
  obtain ⟨around, rest, rest', harms, harms'⟩ := same_around hv he hf ha hb hab
  rw [harms, harms', divergingArm?_append] at h
  have hnested := (hv.holds e he).nested
  rw [harms] at hnested
  rcases List.mem_cons.1 (divergingArm?_mem h).1 with rfl | hd
  · exact .refl _
  · have hrest := (List.pairwise_append.1 hnested).2.1
    exact ((List.pairwise_cons.1 hrest).1 d hd).2

/-! ## The scan for a tracked binding -/

/-- A tracked binding is found if it parts from the latest one, as all bindings after it do. -/
theorem survivor?_isSome (hfirst : first.binding.isTracked = true)
    (hpart : (divergingArm? latest.arms first.arms).isSome = true)
    (hregion : ∀ f ∈ between ++ [first], ∀ d, divergingArm? latest.arms f.arms = some d →
      d.region.contains offset = false)
    {newer rest : List Event} (heq : between ++ first :: older = newer ++ e :: rest)
    (he : e.binding.isTracked = true)
    (hnewer : ∀ f ∈ newer ++ [e], f ∈ between → (divergingArm? latest.arms f.arms).isSome = true) :
    (survivor? latest offset (between ++ first :: older)).isSome = true := by
  induction between generalizing newer with
  | nil =>
      obtain ⟨d, hd⟩ := Option.isSome_iff_exists.1 hpart
      have hout := hregion first (by simp) d hd
      simp [survivor?, hd, hout, hfirst]
  | cons g between ih =>
      have hg : g ∈ newer ++ [e] := by
        cases newer with
        | nil => simp_all
        | cons g' newer => simp_all
      obtain ⟨d, hd⟩ := Option.isSome_iff_exists.1 (hnewer g hg List.mem_cons_self)
      have hout := hregion g (by simp) d hd
      rw [List.cons_append, survivor?, hd]
      by_cases htracked : g.binding.isTracked = true
      · simp [hout, htracked]
      · cases newer with
        | nil =>
            obtain ⟨rfl, -⟩ := List.cons.inj heq
            exact absurd he htracked
        | cons g' newer =>
            obtain ⟨rfl, htail⟩ := List.cons.inj heq
            have hrest := ih (fun f hf => hregion f (List.mem_cons_of_mem _ hf)) htail
              fun f hf hmem => hnewer f (List.mem_cons_of_mem _ hf) (List.mem_cons_of_mem _ hmem)
            simpa [hout, htracked] using hrest

/-- What a name stands for is tracked if the scan for a tracked binding ends at one. -/
theorem tracked_iff_survivor? {earlier : List Event}
    (hvisible : visibleEvents scope.events name offset = latest :: earlier)
    (hlatest : latest.binding.isTracked = false) : ∃ m,
    visible? scope.events name offset = some m ∧
      (m.isTracked = true ↔ (survivor? latest offset earlier).isSome = true) := by
  rw [visible?_eq, deciding?, hvisible]
  simp only [hlatest, Bool.false_eq_true, if_false, Option.map_some]
  refine ⟨_, rfl, ?_⟩
  cases hsurvivor : survivor? latest offset earlier with
  | none => simp [hlatest]
  | some r =>
      obtain ⟨newer, e⟩ := r
      simp [(survivor?_eq_some hsurvivor).2.1]

/-- Whether a binding was made in an arm. -/
def Event.In (e : Event) (a : Arm) : Prop :=
  ∃ c ∈ e.arms, c.statement = a.statement ∧ c.number = a.number

instance (e : Event) (a : Arm) : Decidable (e.In a) :=
  inferInstanceAs (Decidable (∃ c ∈ e.arms, c.statement = a.statement ∧ c.number = a.number))

/-- Let the latest binding of a name be an untracked one in an arm, and let a tracked one have been
made in another arm of that statement.  Behind the arm of the latest binding the name is tracked if
and only if, from some tracked binding on, the latest one alone rebinds it in that arm, but for arms
inside it that exclude the latest one. -/
theorem tracked_behind_fallback_iff {source : List Char} (ht : parseChecked source = .ok t)
    (hscope : scope ∈ (resolve tracked t).scopes)
    (hvisible : visibleEvents scope.events name offset = latest :: (between ++ first :: older))
    (hlatest : latest.binding.isTracked = false) (hfirst : first.binding.isTracked = true)
    (ha : a ∈ latest.arms) (hb : b ∈ first.arms) (hstatement : a.statement = b.statement)
    (hnumber : a.number ≠ b.number) (hout : a.region.contains offset = false) :
    ∃ m, visible? scope.events name offset = some m ∧
      (m.isTracked = true ↔ ∃ newer e rest, between ++ first :: older = newer ++ e :: rest ∧
        e.binding.isTracked = true ∧ ∀ f ∈ newer ++ [e], f.In a → f.Exclusive latest) := by
  have hv : (wholeVisit t).Sound := wholeVisit_sound (sourced_of_parseChecked ht)
  obtain ⟨id, hid⟩ := List.mem_iff_getElem?.1 hscope
  have hmem : ∀ e ∈ latest :: (between ++ first :: older),
      e ∈ ((wholeVisit t).found tracked).events ∧ e.scope = id := by
    intro e he
    exact (mem_scope_events hid).1 (mem_visibleEvents.1 (hvisible ▸ he)).1
  have horder : (visibleEvents scope.events name offset).Pairwise fun e f => f.offset ≤ e.offset :=
    visibleEvents_pairwise hscope
  rw [hvisible] at horder
  obtain ⟨hlatestOrder, hrestOrder⟩ := List.pairwise_cons.1 horder
  have hbetweenOrder := (List.pairwise_append.1 hrestOrder).2.2
  obtain ⟨hlatestMem, hlatestScope⟩ := hmem latest List.mem_cons_self
  obtain ⟨hfirstMem, hfirstScope⟩ := hmem first (by simp)
  -- All bindings down to the tracked one were made in arms of the statement.
  have harm : ∀ f ∈ between ++ [first], f ∈ ((wholeVisit t).found tracked).events ∧
      ∃ c ∈ f.arms, c.statement = a.statement := by
    intro f hf
    rcases List.mem_append.1 hf with hf | hf
    · obtain ⟨hfMem, hfScope⟩ := hmem f (by simp [hf])
      refine ⟨hfMem, arm_between hv hfirstMem hfMem hlatestMem (hfirstScope.trans hfScope.symm)
        (hlatestScope.trans hfScope.symm) (hbetweenOrder f hf first List.mem_cons_self)
        (hlatestOrder f (by simp [hf])) ha hb hstatement⟩
    · rw [List.mem_singleton.1 hf]
      exact ⟨hfirstMem, b, hb, hstatement.symm⟩
  have hregion : ∀ f ∈ between ++ [first], ∀ d, divergingArm? latest.arms f.arms = some d →
      d.region.contains offset = false := by
    intro f hf d hd
    obtain ⟨hfMem, c, hc, hca⟩ := harm f hf
    have hwithin := diverging_within hv hlatestMem hfMem ha hc hca.symm hd
    have hstart := hwithin.start
    have hstop := hwithin.stop
    simp only [Span.contains, Bool.and_eq_false_iff, decide_eq_false_iff_not] at hout ⊢
    omega
  obtain ⟨m, hm, hiff⟩ := tracked_iff_survivor? hvisible hlatest
  refine ⟨m, hm, hiff.trans ⟨fun hsome => ?_, fun hsurvives => ?_⟩⟩
  · obtain ⟨⟨newer, e⟩, hsurvivor⟩ := Option.isSome_iff_exists.1 hsome
    obtain ⟨⟨rest, heq⟩, htracked, hall⟩ := survivor?_eq_some hsurvivor
    refine ⟨newer, e, rest, heq, htracked, fun f hf _ => ?_⟩
    obtain ⟨d, hd, -⟩ := hall f hf
    exact exclusive_of_diverging hd
  · obtain ⟨newer, e, rest, heq, htracked, hall⟩ := hsurvives
    refine survivor?_isSome hfirst ?_ hregion heq htracked fun f hf hfBetween => ?_
    · exact diverging_of_exclusive hv hlatestMem hfirstMem
        ⟨b, hb, a, ha, hstatement.symm, hnumber.symm⟩
    · obtain ⟨hfMem, c, hc, hca⟩ := harm f (List.mem_append_left _ hfBetween)
      refine diverging_of_exclusive hv hlatestMem hfMem ?_
      by_cases hin : c.number = a.number
      · exact hall f hf ⟨c, hc, hca, hin⟩
      · exact ⟨c, hc, a, ha, hca, hin⟩

/-- A handler with two fallbacks that exclude each other. -/
def branchedFallback : List Char :=
  ("try:\n    from maya import cmds\nexcept ImportError:\n    if a:\n        cmds = None\n" ++
    "    else:\n        cmds = 0\nX\n").toList

/-- The import outlasts both fallbacks of its handler. -/
theorem tracked_behind_branched_fallback : parseChecked branchedFallback =
      .ok (parse branchedFallback) ∧
    ∃ scope ∈ (resolve mayaCmds (parse branchedFallback)).scopes, ∃ latest other first : Event,
      visibleEvents scope.events "cmds" 108 = [latest, other, first] ∧
        latest.binding = .untracked ∧ other.binding = .untracked ∧ first.binding = .module 0 ∧
          ∃ m, visible? scope.events "cmds" 108 = some m ∧ m.isTracked = true := by
  obtain ⟨hfaultless, hevents⟩ : (parse branchedFallback).firstFault? 0 = none ∧
      (resolve mayaCmds (parse branchedFallback)).scopes.map Scope.events =
        [[⟨0, "cmds", 30, .module 0, [⟨0, 0, ⟨9, 30⟩⟩]⟩,
          ⟨0, "cmds", 80, .untracked, [⟨0, 1, ⟨31, 107⟩⟩, ⟨1, 0, ⟨69, 80⟩⟩]⟩,
          ⟨0, "cmds", 107, .untracked, [⟨0, 1, ⟨31, 107⟩⟩, ⟨1, 1, ⟨85, 107⟩⟩]⟩]] := by
    decide +kernel
  have ht := parseChecked_of_faultless hfaultless
  obtain ⟨scope, hscope, heq⟩ := List.mem_map.1 (hevents ▸ List.mem_singleton.2 rfl)
  have hvisible : visibleEvents scope.events "cmds" 108 =
      ⟨0, "cmds", 107, .untracked, [⟨0, 1, ⟨31, 107⟩⟩, ⟨1, 1, ⟨85, 107⟩⟩]⟩ ::
        ([⟨0, "cmds", 80, .untracked, [⟨0, 1, ⟨31, 107⟩⟩, ⟨1, 0, ⟨69, 80⟩⟩]⟩] ++
          ⟨0, "cmds", 30, .module 0, [⟨0, 0, ⟨9, 30⟩⟩]⟩ :: []) := by
    rw [heq]
    rfl
  obtain ⟨m, hm, hiff⟩ := tracked_behind_fallback_iff (a := ⟨0, 1, ⟨31, 107⟩⟩)
    (b := ⟨0, 0, ⟨9, 30⟩⟩) ht hscope hvisible rfl rfl (by decide) (by decide) rfl (by decide) rfl
  exact ⟨ht, scope, hscope, _, _, _, hvisible, rfl, rfl, rfl, m, hm,
    hiff.2 ⟨_, _, [], rfl, rfl, by decide⟩⟩

/-- A handler that binds its fallback twice in a straight line. -/
def stubbedFallback : List Char :=
  ("try:\n    from maya import cmds\nexcept ImportError:\n    cmds = None\n" ++
    "    cmds = stub(cmds)\nX\n").toList

/-- An import does not outlast two fallbacks in a straight line, although it is the last binding of
the name in its own arm and the handler that rebinds the name does not hold the offset. -/
theorem stubbed_fallback_hides : ∃ t, parseChecked stubbedFallback = .ok t ∧
    ∃ scope ∈ (resolve mayaCmds t).scopes, ∃ latest other first : Event,
      visibleEvents scope.events "cmds" 89 = [latest, other, first] ∧
        latest.binding.isTracked = false ∧ first.binding.isTracked = true ∧
        (∃ a ∈ latest.arms, ∃ b ∈ first.arms, a.statement = b.statement ∧ a.number ≠ b.number ∧
          a.region.contains 89 = false ∧ other.In a) ∧
        visible? scope.events "cmds" 89 = some .untracked := by
  obtain ⟨hfaultless, hevents⟩ : (parse stubbedFallback).firstFault? 0 = none ∧
      (resolve mayaCmds (parse stubbedFallback)).scopes.map Scope.events =
        [[⟨0, "cmds", 30, .module 0, [⟨0, 0, ⟨9, 30⟩⟩]⟩,
          ⟨0, "cmds", 66, .untracked, [⟨0, 1, ⟨31, 88⟩⟩]⟩,
          ⟨0, "cmds", 88, .untracked, [⟨0, 1, ⟨31, 88⟩⟩]⟩]] := by
    decide +kernel
  obtain ⟨scope, hscope, heq⟩ := List.mem_map.1 (hevents ▸ List.mem_singleton.2 rfl)
  refine ⟨parse stubbedFallback, parseChecked_of_faultless hfaultless, scope, hscope,
    _, _, _, by rw [heq]; rfl, rfl, rfl, ?_, by rw [heq]; rfl⟩
  exact ⟨⟨0, 1, ⟨31, 88⟩⟩, by decide, ⟨0, 0, ⟨9, 30⟩⟩, by decide, rfl, by decide, rfl, by decide⟩

end Longhand.Scope
