import Longhand.Proofs.Tied

/-!
# Places of a reading

A reading stands at a place of a text when its open scopes are the scope of that place and those
around it, each with the bindings that were made so far.  It still stands at a place when it binds
names or opens and leaves a scope.  At the start of a call the bindings made so far are those that
hold there, so its callee is read as what it is found to stand for.
-/

namespace Longhand.Scope

open Syntax Text

variable {tracked : Tracked.Set} {p : Place} {n : Numbering} {t : Tree} {e f : Event}
  {v w : Visit} {j k depth offset : Nat} {name : String} {frame : Frame} {st : Stack}
  {es done made rest later : List Event}

/-! ## Open scopes and numbers -/

@[simp] theorem held_append : held k (done ++ made) = held k made ++ held k done := by
  simp [held, List.filter_append]

theorem held_of_scope (h : ∀ e ∈ made, e.scope = k) : held k made = (namesOf made).reverse := by
  rw [held, List.filter_eq_self.2 fun e he => by simpa using h e he]

theorem held_eq_nil (h : ∀ e ∈ made, e.scope ≠ k) : held k made = [] := by
  rw [held, List.filter_eq_nil_iff.2 fun e he => by simpa using h e he]
  rfl

/-- Whether some open scopes are the scope with a number and those around it, after some
bindings. -/
inductive Represents (frames : List Frame) (done : List Event) : Stack → Nat → Prop
  | outermost {k : Nat} {frame : Frame} : frames[k]? = some frame → frame.parent = none →
      Represents frames done [⟨frame.kind, held k done⟩] k
  | inside {k parent : Nat} {frame : Frame} {outer : Stack} : frames[k]? = some frame →
      frame.parent = some parent → Represents frames done outer parent →
      Represents frames done (⟨frame.kind, held k done⟩ :: outer) k

theorem frame_parent_lt {parent : Nat} (ht : Ordered t)
    (hframe : (framesOf tracked t)[k]? = some frame) (hparent : frame.parent = some parent) :
    parent < k := by
  obtain ⟨scope, hscope, rfl⟩ := exists_scope hframe
  exact parent_lt ht hscope hparent

/-- The scope with the number is one. -/
theorem Represents.lt {frames : List Frame} (h : Represents frames done st k) :
    k < frames.length := by
  cases h with
  | outermost hframe => exact (List.getElem?_eq_some_iff.1 hframe).1
  | inside hframe => exact (List.getElem?_eq_some_iff.1 hframe).1

/-- Bindings of other scopes than the open ones do not matter. -/
theorem Represents.congr (ht : Ordered t) (h : Represents (framesOf tracked t) done st k)
    (heq : ∀ j ≤ k, held j made = held j done) : Represents (framesOf tracked t) made st k := by
  induction h with
  | outermost hframe hparent =>
      rw [← heq _ (Nat.le_refl _)]
      exact .outermost hframe hparent
  | inside hframe hparent _ ih =>
      have hlt := frame_parent_lt ht hframe hparent
      rw [← heq _ (Nat.le_refl _)]
      exact .inside hframe hparent (ih fun j hj => heq j (by omega))

/-- Bindings of the innermost scope are bound there. -/
theorem Represents.bind (ht : Ordered t) (h : Represents (framesOf tracked t) done st k)
    (hmade : ∀ e ∈ made, e.scope = k) :
    Represents (framesOf tracked t) (done ++ made) (st.bind (namesOf made)) k := by
  have hheld : (namesOf made).reverse ++ held k done = held k (done ++ made) := by
    rw [held_append, held_of_scope hmade]
  cases h with
  | outermost hframe hparent =>
      rw [Stack.bind, hheld]
      exact .outermost hframe hparent
  | inside hframe hparent houter =>
      have hlt := frame_parent_lt ht hframe hparent
      rw [Stack.bind, hheld]
      refine .inside hframe hparent (houter.congr ht fun j hj => ?_)
      rw [held_append, held_eq_nil fun e he => ?_, List.nil_append]
      rw [hmade e he]
      omega

/-- What a name is read as is what it is found to stand for, if this is so in each scope. -/
theorem Represents.readFrom_eq (ht : Ordered t) (h : Represents (framesOf tracked t) done st k)
    (hvisible : ∀ j scope, j ≤ k → (resolve tracked t).scopes[j]? = some scope →
      visible? scope.events name offset = (held j done).lookup name) :
    ∀ (steps : Nat) (innermost : Bool), k < steps → st.readFrom name innermost =
      (resolve tracked t).lookupFrom name offset steps innermost k := by
  induction h with
  | @outermost k frame hframe hparent =>
      intro steps innermost hk
      obtain ⟨steps, rfl⟩ := Nat.exists_eq_add_one_of_ne_zero (Nat.ne_of_gt (Nat.zero_lt_of_lt hk))
      obtain ⟨scope, hscope, rfl⟩ := exists_scope hframe
      rw [Scopes.lookupFrom, hscope, Stack.readFrom]
      dsimp only
      rw [hparent, hvisible k scope (Nat.le_refl _) hscope]
      cases if (innermost || decide (scope.frame.kind ≠ .classBody)) = true then
        (held k done).lookup name else none <;> rfl
  | @inside k parent frame outer hframe hparent _ ih =>
      intro steps innermost hk
      have hlt := frame_parent_lt ht hframe hparent
      obtain ⟨steps, rfl⟩ := Nat.exists_eq_add_one_of_ne_zero (Nat.ne_of_gt (Nat.zero_lt_of_lt hk))
      obtain ⟨scope, hscope, rfl⟩ := exists_scope hframe
      rw [Scopes.lookupFrom, hscope, Stack.readFrom]
      dsimp only
      rw [hparent, hvisible k scope (Nat.le_refl _) hscope,
        ih (fun j scope hj => hvisible j scope (by omega)) steps false (by omega)]
      cases if (innermost || decide (scope.frame.kind ≠ .classBody)) = true then
        (held k done).lookup name else none <;> rfl

/-! ## Places of a reading -/

/-- Whether a reading stands in the scope with a number, some bindings made and the others not. -/
structure Arrived (tracked : Tracked.Set) (t : Tree) (done rest : List Event) (st : Stack)
    (k : Nat) : Prop where
  perm : ((wholeVisit t).found tracked).events.Perm (done ++ rest)
  sorted : done.Pairwise fun e f => e.offset ≤ f.offset
  tied : Tied ((wholeVisit t).found tracked).events done
  represents : Represents (framesOf tracked t) done st k

namespace Arrived

theorem perm_rest {rest' : List Event} (h : Arrived tracked t done rest st k)
    (hperm : rest.Perm rest') : Arrived tracked t done rest' st k :=
  { h with perm := h.perm.trans (hperm.append_left done) }

/-- Bindings that hold from one offset on come behind those that hold before it. -/
theorem sorted_append (h : done.Pairwise fun e f => e.offset ≤ f.offset)
    (hmade : ∀ e ∈ made, e.offset = offset) (hle : ∀ e ∈ done, e.offset ≤ offset) :
    (done ++ made).Pairwise fun e f => e.offset ≤ f.offset := by
  refine List.pairwise_append.2 ⟨h, List.pairwise_of_forall_mem_list fun e he f hf => ?_,
    fun e he f hf => ?_⟩
  · rw [hmade e he, hmade f hf]
  · rw [hmade f hf]
    exact hle e he

/-- Bindings are made in the scope in which the reading stands. -/
theorem bind (ht : Ordered t) (h : Arrived tracked t done (made ++ rest) st k)
    (hscope : ∀ e ∈ made, e.scope = k) (hoffset : ∀ e ∈ made, e.offset = offset)
    (hle : ∀ e ∈ done, e.offset ≤ offset)
    (htied : ∀ e ∈ made, e.binding.isTracked = true →
      slot e.scope e.offset ((wholeVisit t).found tracked).events =
        slot e.scope e.offset made) :
    Arrived tracked t (done ++ made) rest (st.bind (namesOf made)) k where
  perm := by
    rw [List.append_assoc]
    exact h.perm
  sorted := sorted_append h.sorted hoffset hle
  tied := h.tied.add h.perm htied
  represents := h.represents.bind ht hscope

/-- A scope is opened, with bindings at its start. -/
theorem enter (ht : Ordered t) (h : Arrived tracked t done (made ++ rest) st k)
    (hframe : (framesOf tracked t)[j]? = some frame) (hparent : frame.parent = some k)
    (hscope : ∀ e ∈ made, e.scope = j) (hoffset : ∀ e ∈ made, e.offset = offset)
    (huntracked : ∀ e ∈ made, e.binding.isTracked = false)
    (hle : ∀ e ∈ done, e.offset ≤ offset) (hnew : ∀ e ∈ done, e.scope ≠ j) :
    Arrived tracked t (done ++ made) rest (⟨frame.kind, (namesOf made).reverse⟩ :: st) j where
  perm := by
    rw [List.append_assoc]
    exact h.perm
  sorted := sorted_append h.sorted hoffset hle
  tied := h.tied.add h.perm fun e he htracked => by
    rw [huntracked e he] at htracked
    cases htracked
  represents := by
    have hlt := frame_parent_lt ht hframe hparent
    have hheld : (namesOf made).reverse = held j (done ++ made) := by
      rw [held_append, held_of_scope hscope, held_eq_nil hnew, List.append_nil]
    rw [hheld]
    refine .inside hframe hparent (h.represents.congr ht fun i hi => ?_)
    rw [held_append, held_eq_nil fun e he => ?_, List.nil_append]
    rw [hscope e he]
    omega

/-- The reading goes on around a scope. -/
theorem leave (h : Arrived tracked t done rest st j)
    (hframe : (framesOf tracked t)[j]? = some frame) (hparent : frame.parent = some k) :
    Arrived tracked t done rest st.tail k where
  perm := h.perm
  sorted := h.sorted
  tied := h.tied
  represents := by
    cases h.represents with
    | outermost hframe' hnone =>
        cases hframe.symm.trans hframe'
        rw [hparent] at hnone
        cases hnone
    | inside hframe' hsome houter =>
        cases hframe.symm.trans hframe'
        cases hparent.symm.trans hsome
        exact houter

end Arrived

/-! ## Calls -/

/-- A callee that is no name and no dotted name stands for nothing. -/
theorem callee?_cases (tracked : Tracked.Set) (st : Stack) (s : Scopes) (hkind : t.kind = .call) :
    (∃ name after, Calls t (name :: after)) ∨
      (st.callee? tracked t = none ∧ callee? s t = none) := by
  unfold Stack.callee? callee?
  cases hcallee : t.child? .callee with
  | none => exact .inr ⟨rfl, rfl⟩
  | some callee =>
      by_cases hname : callee.kind = .identifier ∨ callee.kind = .attribute
      · cases hsegments : segments? callee with
        | none =>
            right
            rcases hname with hname | hname
            · rw [segments_of_identifier hname] at hsegments
              cases hsegments
            · simp [hname, hsegments]
        | some names =>
            left
            obtain ⟨name, after, rfl⟩ := List.exists_cons_of_ne_nil (ne_nil_of_segments hsegments)
            exact ⟨name, after, hkind, callee, hcallee, hname, hsegments⟩
      · right
        dsimp only
        rw [if_neg hname]
        refine ⟨rfl, ?_⟩
        split
        · exact absurd (.inl ‹_›) hname
        · exact absurd (.inr ‹_›) hname
        · rfl

theorem Stack.callee?_eq {after : List String} (st : Stack) (h : Calls t (name :: after)) :
    st.callee? tracked t = (st.read name).bind (Binding.target? tracked after) := by
  obtain ⟨-, callee, hcallee, hkind, hsegments⟩ := h
  rw [Stack.callee?, hcallee]
  dsimp only
  rw [if_pos hkind, hsegments]

/-- At the start of a call the bindings that were made are those that hold there in the open
scopes. -/
theorem Arrived.complete (ht : Sourced t) (hv : Visited tracked t v)
    (h : Arrived tracked t done ((v.found tracked).events ++ later) st v.place.scope)
    (hlt : v.tree.span.start < v.tree.span.stop)
    (hbefore : ∀ e ∈ done, e.offset ≤ v.tree.span.start)
    (hbehind : ∀ e ∈ later, v.tree.span.stop ≤ e.offset) (hj : j ≤ v.place.scope) :
    Complete ((wholeVisit t).found tracked).events done ((v.found tracked).events ++ later) j
      v.tree.span.start where
  perm := h.perm
  sorted := h.sorted
  tied := h.tied
  before e he _ := hbefore e he
  behind e he hscope := by
    rcases List.mem_append.1 he with he | he
    · have hsound := hv.sound ht
      have hholds := hsound.holds e he
      have := hsound.scope
      rcases hholds.scope with heq | ⟨hlow, -⟩
      · exact hholds.lt heq
      · omega
    · have := hbehind e he
      omega

/-- A callee is read as what it is found to stand for. -/
theorem Arrived.callee?_eq (ht : Sourced t) (hfree : Unbranched t) (hv : Visited tracked t v)
    (h : Arrived tracked t done ((v.found tracked).events ++ later) st v.place.scope)
    (hbefore : ∀ e ∈ done, e.offset ≤ v.tree.span.start)
    (hbehind : ∀ e ∈ later, v.tree.span.stop ≤ e.offset) (hkind : v.tree.kind = .call) :
    st.callee? tracked v.tree = callee? (resolve tracked t) v.tree := by
  rcases callee?_cases tracked st (resolve tracked t) hkind with
    ⟨name, after, hcall⟩ | ⟨hnone, hnone'⟩
  · have hlt := (start_lt_of_namedCall ht hv ⟨_, hcall⟩).1
    have hread : st.read name = (resolve tracked t).lookup name v.tree.span.start := by
      rw [Scopes.lookup, hv.scopeAt_start ht ⟨_, hcall⟩]
      refine h.represents.readFrom_eq ht.ordered (fun j scope hj hscope => ?_) _ _ ?_
      · rw [resolve_getElem?] at hscope
        obtain ⟨frame, -, rfl⟩ := Option.map_eq_some_iff.1 hscope
        exact (h.complete ht hv hlt hbefore hbehind hj).visible?_eq
          fun e he => arms_of_unbranched ht hfree he
      · rw [resolve_scopes_length]
        exact h.represents.lt
    rw [Stack.callee?_eq st hcall, Scope.callee?_eq hcall, hread]
    rfl
  · rw [hnone, hnone']

end Longhand.Scope
