import Longhand.Proofs.Nesting

/-!
# Bindings of sibling arms

A binding of one arm reaches the arms behind it in the text, and no others.  Only an arm that has
not bound the name by itself can see one, and a name that nothing in the statement has rebound means
what it meant at the start of the statement.
-/

namespace Longhand.Scope

open Syntax Text

variable {tracked : Tracked.Set} {p : Place} {n : Numbering} {t : Tree} {scope : Scope}
  {name : String} {offset : Nat} {e f : Event} {a : Arm} {v w : Visit}

/-! ## Bindings inside a node -/

theorem next_within (hv : v.Sound) (hw : w ∈ v.next tracked) :
    w.tree.span.Within v.tree.span :=
  hv.sourced.within (next_isNode hw)

/-- The offset from which a binding of a node itself holds is not inside a part of the node. -/
theorem own_outside (ht : Sourced t) (he : e ∈ (course tracked p n t).own)
    (hw : w ∈ (course tracked p n t).next) :
    e.offset ≤ w.tree.span.start ∨ w.tree.span.stop ≤ e.offset := by
  rcases own_offset ht he hw with ⟨hoffset, -⟩ | ⟨right, -, hoffset, ⟨-, hle⟩ | hle⟩
  · rw [hoffset]
    exact .inr (ht.within (next_isNode hw)).stop
  · rw [hoffset]
    exact .inr hle
  · rw [hoffset]
    exact .inl hle

/-- The offset from which the bindings at the start of a scope hold is not inside a part of the
node. -/
theorem opened_outside (ht : Sourced t) (he : e ∈ (course tracked p n t).opened.events)
    (hw : w ∈ (course tracked p n t).next) :
    e.offset ≤ w.tree.span.start ∨ w.tree.span.stop ≤ e.offset := by
  rcases List.mem_append.1 hw with hw | hw
  · right
    have hspans : (course tracked p n t).next.Pairwise
        fun v w => v.tree.span.stop ≤ w.tree.span.start := next_spans ht
    rcases course_of_bound he with hcourse | ⟨k, b, -, hb, hcourse⟩
    · rw [hcourse] at hw
      cases hw
    · rw [hcourse] at he hw hspans
      simp only [bodyCourse, hb, Course.next] at he hw hspans
      rw [(mem_untracked he).2.1]
      exact (List.pairwise_append.1 hspans).2.2 w hw _ List.mem_cons_self
  · exact .inl (opened_le ht he hw)

/-- Each binding from an offset inside a node on is found by the walk over the node. -/
theorem found_of_inside (ht : Sourced t) (hv : Visited tracked t v)
    (he : e ∈ ((wholeVisit t).found tracked).events) (hstart : v.tree.span.start < e.offset)
    (hstop : e.offset < v.tree.span.stop) : e ∈ (v.found tracked).events := by
  induction hv with
  | whole => exact he
  | @next u w hu hw ih =>
      have hsound := hu.sound ht
      have hwithin := next_within hsound hw
      have hwstart := hwithin.start
      have hwstop := hwithin.stop
      rcases mem_walk_events.1 (ih (by omega) (by omega)) with he | he | ⟨w', hw', he⟩
      · rcases own_outside hsound.sourced he hw with hle | hle
        · omega
        · omega
      · rcases opened_outside hsound.sourced he hw with hle | hle
        · omega
        · omega
      · rcases pairwise_cases (next_spans hsound.sourced) hw hw' with heq | hle | hle
        · rw [heq]
          exact he
        · have := ((hsound.next hw').holds e he).start
          omega
        · have := ((hsound.next hw').holds e he).stop
          omega

/-- Each binding with an arm of a statement inside a node is found by the walk over the node. -/
theorem found_of_arm (ht : Sourced t) (hv : Visited tracked t v)
    (he : e ∈ ((wholeVisit t).found tracked).events) (ha : a ∈ e.arms)
    (hlow : v.numbering.statement ≤ a.statement) (hhigh : a.statement < (v.end tracked).statement) :
    e ∈ (v.found tracked).events := by
  induction hv with
  | whole => exact he
  | @next u w hu hw ih =>
      have hsound := hu.sound ht
      obtain ⟨hle, hend⟩ := next_le hw
      have hle' := hle.statement
      have hend' : (w.end tracked).statement ≤ (u.end tracked).statement := hend.statement
      have heu := ih (by omega) (by omega)
      obtain ⟨w', hw', hew⟩ := exists_next hsound heu ha (by omega)
      rcases new_or_inside hsound hw' hew ha (by omega) with ⟨hkind, hnew, -⟩ | ⟨hlow', hhigh', -⟩
      · have := next_statement_lt hkind hw
        omega
      · rw [eq_of_inside hw hw' hlow hhigh hlow' hhigh']
        exact hew

/-! ## The regions of arms -/

/-- The arms of statements inside a node lie inside the node. -/
theorem region_within (hv : v.Sound) : ∀ {e : Event} {a : Arm}, e ∈ (v.found tracked).events →
    a ∈ e.arms → v.numbering.statement ≤ a.statement → a.region.Within v.tree.span := by
  refine hv.induction tracked (P := fun v => ∀ {e : Event} {a : Arm},
    e ∈ (v.found tracked).events → a ∈ e.arms → v.numbering.statement ≤ a.statement →
      a.region.Within v.tree.span) ?_
  intro v hv ih e a he ha hlow
  obtain ⟨w, hw, he⟩ := exists_next hv he ha hlow
  have hwithin := next_within hv hw
  rcases new_or_inside hv hw he ha hlow with ⟨-, -, -, hregion⟩ | ⟨hlow', -, -⟩
  · rw [hregion]
    exact hwithin
  · exact (ih w hw he ha hlow').trans hwithin

/-- An arm belongs to a statement inside a node, or it holds the node, or it lies apart from it. -/
theorem region_cases (ht : Sourced t) (hv : Visited tracked t v)
    (he : e ∈ ((wholeVisit t).found tracked).events) (ha : a ∈ e.arms) :
    (v.numbering.statement ≤ a.statement ∧ a.statement < (v.end tracked).statement) ∨
      v.tree.span.Within a.region ∨ a.region.Apart v.tree.span := by
  induction hv with
  | whole =>
      obtain ⟨extra, harms, hextra⟩ := ((wholeVisit_sound ht).holds e he).arms
      rw [harms] at ha
      exact .inl (hextra a (by simpa [wholeVisit] using ha))
  | @next u w hu hw ih =>
      have hsound := hu.sound ht
      have hwithin := next_within hsound hw
      have apart : ∀ w' ∈ u.next tracked, w' ≠ w → w'.tree.span.Apart w.tree.span := by
        intro w' hw' hne
        rcases pairwise_cases (next_spans hsound.sourced) hw' hw with heq | hle | hle
        · exact absurd heq hne
        · exact .inl hle
        · exact .inr hle
      rcases ih with ⟨hlow, hhigh⟩ | hwithin' | hapart
      · have heu := found_of_arm ht hu he ha hlow hhigh
        obtain ⟨w', hw', hew⟩ := exists_next hsound heu ha hlow
        rcases new_or_inside hsound hw' hew ha hlow with ⟨-, -, -, hregion⟩ | ⟨hlow', hhigh', -⟩
        · right
          rw [hregion]
          by_cases heq : w' = w
          · rw [heq]
            exact .inl (.refl _)
          · exact .inr (apart w' hw' heq)
        · by_cases heq : w' = w
          · rw [← heq]
            exact .inl ⟨hlow', hhigh'⟩
          · have hregion := region_within (hsound.next hw') hew ha hlow'
            exact .inr (.inr ((apart w' hw' heq).within hregion (.refl _)))
      · exact .inr (.inl (hwithin.trans hwithin'))
      · exact .inr (.inr (hapart.within (.refl _) hwithin))

/-! ## One name at two offsets -/

/-- A name is found to stand for the same thing at two offsets if it does so in each scope on the
way. -/
theorem lookupFrom_congr {s : Scopes} {offset' steps id : Nat} {innermost : Bool}
    (hparent : ∀ k (scope : Scope), s.scopes[k]? = some scope →
      ∀ j, scope.frame.parent = some j → j < k)
    (h : ∀ k ≤ id, ∀ scope, s.scopes[k]? = some scope →
      visible? scope.events name offset = visible? scope.events name offset') :
    s.lookupFrom name offset steps innermost id = s.lookupFrom name offset' steps innermost id := by
  induction steps generalizing innermost id with
  | zero => rfl
  | succ steps ih =>
      rw [Scopes.lookupFrom, Scopes.lookupFrom]
      cases hscope : s.scopes[id]? with
      | none => rfl
      | some scope =>
          have hhere := h id (Nat.le_refl _) scope hscope
          dsimp only
          rw [hhere]
          generalize (if (innermost || decide (scope.frame.kind ≠ .classBody)) = true then
            visible? scope.events name offset' else none) = here
          cases here with
          | some b => rfl
          | none =>
              cases houter : scope.frame.parent with
              | none => rfl
              | some j =>
                  have hlt := hparent id scope hscope j houter
                  exact ih fun k hk => h k (by omega)

/-! ## What an arm sees -/

/-- Whether a walk is over an arm of a branching statement. -/
def ArmOf (tracked : Tracked.Set) (v w : Visit) (number : Nat) : Prop :=
  w ∈ v.next tracked ∧
    w.place.arms = v.place.arms ++ [⟨v.numbering.statement, number, w.tree.span⟩]

theorem ArmOf.branching {number : Nat} (h : ArmOf tracked v w number) :
    isBranching v.tree.kind = true := by
  obtain ⟨hw, harms⟩ := h
  rcases next_place hw with hplace | ⟨hkind, -⟩ | ⟨-, -, hplace⟩
  · rw [hplace] at harms
    simp at harms
  · exact hkind
  · rw [hplace] at harms
    simp at harms

/-- A binding in an arm of a statement is found by the walk over that arm. -/
theorem exists_part (ht : Sourced t) (hs : Visited tracked t v) {number : Nat}
    (hw : ArmOf tracked v w number) (he : e ∈ ((wholeVisit t).found tracked).events)
    (ha : a ∈ e.arms) (hstatement : a.statement = v.numbering.statement) :
    ∃ w' ∈ v.next tracked, e ∈ (w'.found tracked).events ∧
      w'.place.arms = v.place.arms ++ [a] ∧ a.region = w'.tree.span := by
  have hsound := hs.sound ht
  have hlt := next_statement_lt hw.branching hw.1
  have hend : (w.end tracked).statement ≤ (v.end tracked).statement := (next_le hw.1).2.statement
  have hself : w.numbering.statement ≤ (w.end tracked).statement :=
    (Numbering.le_after w.numbering (w.found tracked)).statement
  have hev := found_of_arm ht hs he ha (by omega) (by omega)
  obtain ⟨w', hw', hew⟩ := exists_next hsound hev ha (by omega)
  rcases new_or_inside hsound hw' hew ha (by omega) with ⟨-, -, harms, hregion⟩ | ⟨-, -, hlt'⟩
  · exact ⟨w', hw', hew, harms, hregion⟩
  · have := hlt' hw.branching
    omega

/-- A binding of another arm that is made before an arm ends is made before it begins. -/
theorem ArmOf.behind (ht : Sourced t) (hv : Visited tracked t v) {number : Nat}
    (hw : ArmOf tracked v w number) (he : e ∈ ((wholeVisit t).found tracked).events)
    (hoffset : e.offset < w.tree.span.stop) {c : Arm} (hc : c ∈ e.arms)
    (hstatement : c.statement = v.numbering.statement) (hnumber : c.number ≠ number) :
    c.region.stop ≤ w.tree.span.start ∧ e.offset ≤ w.tree.span.start ∧
      ∃ rest, e.arms = v.place.arms ++ c :: rest := by
  have hsound := hv.sound ht
  obtain ⟨w', hw', hew, harms', hregion⟩ := exists_part ht hv hw he hc hstatement
  have hholds := (hsound.next hw').holds e hew
  obtain ⟨hw, harms⟩ := hw
  have hne : w' ≠ w := by
    rintro rfl
    have heq := List.append_cancel_left (harms.symm.trans harms')
    have hnumber' := congrArg Arm.number (List.singleton_inj.1 heq)
    exact hnumber hnumber'.symm
  have hbefore : w'.tree.span.stop ≤ w.tree.span.start := by
    rcases pairwise_cases (next_spans hsound.sourced) hw' hw with heq | hle | hle
    · exact absurd heq hne
    · exact hle
    · have := hholds.start
      omega
  obtain ⟨extra, hextra, -⟩ := hholds.arms
  exact ⟨by rw [hregion]; exact hbefore, Nat.le_trans hholds.stop hbefore, extra,
    by rw [hextra, harms']; simp⟩

/-- A binding of another arm that decides inside an arm comes from an earlier arm, and the arm has
not bound the name by itself. -/
theorem earlier_arm (ht : Sourced t) (hv : Visited tracked t v) {number : Nat}
    (hw : ArmOf tracked v w number) (hoffset : w.tree.span.contains offset = true)
    (hscope : scope ∈ (resolve tracked t).scopes) {newer : List Event}
    (hdeciding : deciding? scope.events name offset = some (newer, e)) {c : Arm} (hc : c ∈ e.arms)
    (hstatement : c.statement = v.numbering.statement) (hnumber : c.number ≠ number) :
    c.region.stop ≤ w.tree.span.start ∧
      ∀ f ∈ visibleEvents scope.events name offset, f.offset ≤ w.tree.span.start := by
  obtain ⟨id, hid⟩ := List.mem_iff_getElem?.1 hscope
  obtain ⟨⟨older, hvisible⟩, hnewer⟩ := deciding?_eq_some hdeciding
  have hmem : ∀ f ∈ visibleEvents scope.events name offset,
      f ∈ ((wholeVisit t).found tracked).events ∧ f.offset ≤ offset := by
    intro f hf
    obtain ⟨hf, -, hle⟩ := mem_visibleEvents.1 hf
    exact ⟨((mem_scope_events hid).1 hf).1, hle⟩
  obtain ⟨hstart, hstop⟩ : w.tree.span.start ≤ offset ∧ offset < w.tree.span.stop :=
    Span.contains_iff.1 hoffset
  obtain ⟨he, heOffset⟩ := hmem e (by simp [hvisible])
  obtain ⟨hregion, heStart, rest, hrest⟩ :=
    hw.behind ht hv he (Nat.lt_of_le_of_lt heOffset hstop) hc hstatement hnumber
  refine ⟨hregion, fun f hf => ?_⟩
  by_contra hinside
  -- Otherwise the latest binding was made in the arm, and the scan stops there.
  have horder : (visibleEvents scope.events name offset).Pairwise fun e f => f.offset ≤ e.offset :=
    visibleEvents_pairwise hscope
  rw [hvisible] at horder hmem
  obtain ⟨-, holderOrder, -⟩ := List.pairwise_append.1 horder
  have hfnewer : f ∈ newer := by
    rw [hvisible] at hf
    rcases List.mem_append.1 hf with hf | hf
    · exact hf
    · rcases List.mem_cons.1 hf with rfl | hf
      · omega
      · have := (List.pairwise_cons.1 holderOrder).1 f hf
        omega
  rcases hnewer with rfl | ⟨latest, between, rfl, -, -, hpart⟩
  · cases hfnewer
  obtain ⟨hlatest, hlatestOffset⟩ := hmem latest (by simp)
  have hflatest : f.offset ≤ latest.offset := offset_le_of_head hscope (by rw [hvisible]; rfl) hf
  obtain ⟨hw, harms⟩ := hw
  have hlatestFound := found_of_inside ht (.next hv hw) hlatest (by omega) (by omega)
  obtain ⟨extra, hextra, -⟩ := (((hv.sound ht).next hw).holds latest hlatestFound).arms
  obtain ⟨d, hd, hdregion⟩ := hpart e (by simp)
  rw [hextra, hrest, harms, List.append_assoc, divergingArm?_append, List.singleton_append,
    divergingArm?, if_neg (by simp [hstatement]), if_pos (Ne.symm hnumber)] at hd
  cases hd
  rw [hoffset] at hdregion
  cases hdregion

/-- The regions of the arms of a binding hold all offsets in the arms of a later statement or
none. -/
theorem contains_congr (ht : Sourced t) (hv : Visited tracked t v)
    (he : e ∈ ((wholeVisit t).found tracked).events) (hscope : e.scope < v.numbering.scope)
    (hle : e.offset ≤ v.tree.span.start) (hoffset : v.tree.span.contains offset = true)
    (ha : a ∈ e.arms) :
    a.region.contains offset = a.region.contains v.tree.span.start := by
  obtain ⟨hstart, hstop⟩ : v.tree.span.start ≤ offset ∧ offset < v.tree.span.stop :=
    Span.contains_iff.1 hoffset
  rw [Bool.eq_iff_iff, Span.contains_iff, Span.contains_iff]
  rcases region_cases ht hv he ha with ⟨hlow, hhigh⟩ | ⟨hwithin, hwithin'⟩ | hle | hle
  · have hev := found_of_arm ht hv he ha hlow hhigh
    have hholds := (hv.sound ht).holds e hev
    rcases hholds.scope with hplace | hinside
    · have := hholds.lt hplace
      omega
    · omega
  · omega
  · omega
  · omega

theorem survivor?_congr {latest : Event} {offset' : Nat} {earlier : List Event}
    (h : ∀ a ∈ latest.arms, a.region.contains offset = a.region.contains offset') :
    survivor? latest offset earlier = survivor? latest offset' earlier := by
  induction earlier with
  | nil => rfl
  | cons e rest ih =>
      rw [survivor?, survivor?]
      cases hd : divergingArm? latest.arms e.arms with
      | none => rfl
      | some d =>
          dsimp only
          rw [h d (divergingArm?_mem hd).1, ih]

/-- A name that nothing rebinds between two offsets stands for the same thing at both, if the arms
of its bindings hold both or none. -/
theorem visible?_congr {offset' : Nat} (hle : offset' ≤ offset)
    (hnone : ∀ e ∈ scope.events, e.name = name → e.offset ≤ offset → e.offset ≤ offset')
    (hcontains : ∀ e ∈ scope.events, e.offset ≤ offset' → ∀ a ∈ e.arms,
      a.region.contains offset = a.region.contains offset') :
    visible? scope.events name offset = visible? scope.events name offset' := by
  have hvisible : visibleEvents scope.events name offset =
      visibleEvents scope.events name offset' := by
    refine List.filter_congr fun e he => ?_
    have he := List.mem_reverse.1 he
    rw [Bool.eq_iff_iff]
    simp only [Bool.and_eq_true, beq_iff_eq, decide_eq_true_eq]
    constructor
    · rintro ⟨hname, hoffset⟩
      exact ⟨hname, hnone e he hname hoffset⟩
    · rintro ⟨hname, hoffset⟩
      exact ⟨hname, Nat.le_trans hoffset hle⟩
  rw [visible?_eq, visible?_eq, deciding?, deciding?, hvisible]
  cases hlist : visibleEvents scope.events name offset' with
  | nil => rfl
  | cons latest earlier =>
      obtain ⟨hlatest, -, hoffset⟩ :=
        mem_visibleEvents.1 (hlist ▸ List.mem_cons_self : latest ∈ visibleEvents _ name offset')
      dsimp only
      rw [survivor?_congr (hcontains latest hlatest hoffset)]

/-- A name that is bound before a branching statement and imported in its first arm. -/
def siblingImport : List Char :=
  "import mock as cmds\nif a:\n    from maya import cmds\nelse:\n    X\n".toList

/-- What its second arm is and what is bound in it. -/
theorem resolve_siblingImport : (parse siblingImport).firstFault? 0 = none ∧
    (resolve mayaCmds (parse siblingImport)).scopes.map Scope.events =
      [[⟨0, "cmds", 19, .untracked, []⟩, ⟨0, "cmds", 51, .module 0, [⟨0, 0, ⟨30, 51⟩⟩]⟩]] ∧
    (resolve mayaCmds (parse siblingImport)).lookup "cmds" 62 = some (.module 0) ∧
    (resolve mayaCmds (parse siblingImport)).scopeAt 62 = 0 ∧
    ∃ v ∈ (wholeVisit (parse siblingImport)).next mayaCmds, v.tree.kind = .ifStatement ∧
      v.place.scope = 0 ∧ v.tree.span.start = 20 ∧ v.numbering.statement = 0 ∧
      ∃ w ∈ v.next mayaCmds, w.tree.span = ⟨52, 63⟩ ∧
        w.place.arms = v.place.arms ++ [⟨v.numbering.statement, 1, w.tree.span⟩] := by
  decide +kernel

end Longhand.Scope
