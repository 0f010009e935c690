import Longhand.Proofs.Added
import Longhand.Proofs.Arranged
import Longhand.Proofs.Justified
import Longhand.Proofs.Textual

/-!
# Bindings at one offset

Bindings of one scope that hold from one offset on come from one import statement, or none of them
is tracked.  So any order of the bindings of a text that keeps those of each import statement together
and in order decides what names stand for like the order of the walk.
-/

namespace Longhand.Scope

open Syntax Text

variable {tracked : Tracked.Set} {p : Place} {n : Numbering} {t : Tree} {e f : Event}
  {v w : Visit} {k offset : Nat} {name : String} {es fs done made rest later : List Event}

/-! ## Trees without branching statements -/

/-- Whether no node of a tree is a branching statement. -/
def Unbranched (t : Tree) : Prop :=
  ∀ u, IsNode u t → isBranching u.kind = false

mutual

/-- The same as a check of all nodes. -/
def branchless : Tree → Bool
  | .node kind _ _ _ children => !isBranching kind && branchlessIn children

def branchlessIn : List Tree → Bool
  | [] => true
  | t :: rest => branchless t && branchlessIn rest

end

theorem branchless_iff {t : Tree} : branchless t = true ↔
    isBranching t.kind = false ∧ ∀ c ∈ t.children, branchless c = true := by
  have children : ∀ ts : List Tree, branchlessIn ts = true ↔ ∀ c ∈ ts, branchless c = true := by
    intro ts
    induction ts with
    | nil => simp [branchlessIn]
    | cons c rest ih => simp [branchlessIn, ih]
  cases t
  simp [branchless, children, Tree.kind, Tree.children]

theorem unbranched_of_branchless (h : branchless t = true) : Unbranched t := by
  intro u hu
  induction hu with
  | self => exact (branchless_iff.1 h).1
  | inside hc _ ih => exact ih ((branchless_iff.1 h).2 _ hc)

theorem Unbranched.node {u : Tree} (h : Unbranched t) (hu : IsNode u t) : Unbranched u :=
  fun s hs => h s (hs.trans hu)

theorem statements_of_unbranched {p : Place} {n : Numbering} {t : Tree} (h : Unbranched t) :
    (walk tracked p n t).statements = 0 := by
  have hvisits : ∀ w ∈ (course tracked p n t).next, (w.found tracked).statements = 0 := by
    intro w hw
    have _ := next_sizeOf hw
    exact statements_of_unbranched (h.node (next_isNode hw))
  rw [walk_eq_found, Course.found]
  simp only [Findings.append_statements]
  rw [gather_statements fun w hw => hvisits w (List.mem_append_left _ hw),
    gather_statements fun w hw => hvisits w (List.mem_append_right _ hw),
    opened_statements (h t .self)]
termination_by sizeOf t

/-- Without branching statements no binding is made in an arm. -/
theorem arms_of_unbranched (ht : Sourced t) (h : Unbranched t)
    (he : e ∈ ((wholeVisit t).found tracked).events) : e.arms = [] := by
  obtain ⟨extra, harms, hextra⟩ := ((wholeVisit_sound ht).holds e he).arms
  have hnone : extra = [] := by
    refine List.eq_nil_iff_forall_not_mem.2 fun a ha => ?_
    have hzero : ((wholeVisit t).found tracked).statements = 0 := statements_of_unbranched h
    have hlt := (hextra a ha).2
    have hle := (hextra a ha).1
    simp only [Visit.end, Numbering.after_statement, hzero] at hlt
    omega
  rw [harms, hnone]
  rfl

/-! ## Bindings at one offset of a scope -/

/-- The bindings of a scope that hold from an offset on. -/
def slot (scope offset : Nat) (es : List Event) : List Event :=
  es.filter fun e => e.scope = scope ∧ e.offset = offset

@[simp] theorem slot_append : slot k offset (es ++ fs) = slot k offset es ++ slot k offset fs :=
  List.filter_append ..

theorem mem_slot : e ∈ slot k offset es ↔ e ∈ es ∧ e.scope = k ∧ e.offset = offset := by
  simp [slot]

theorem slot_eq_nil (h : ∀ e ∈ es, e.scope = k → e.offset ≠ offset) : slot k offset es = [] :=
  List.filter_eq_nil_iff.2 fun e he => by simpa using h e he

/-- No import statement is inside an expression, so nothing tracked is bound there. -/
theorem not_tracked_of_plain {p : Place} {n : Numbering} {t : Tree} (h : Plain t)
    (he : e ∈ (walk tracked p n t).events) : e.binding.isTracked = false := by
  have made : e ∈ (course tracked p n t).own ∨ e ∈ (course tracked p n t).opened.events →
      e.binding.isTracked = false := by
    intro he
    rw [Bool.eq_false_iff]
    intro htracked
    have hstatement := isStatement_of_isImport (imported_of_made he htracked).1
    rw [h.isStatement] at hstatement
    cases hstatement
  rcases mem_walk_events.1 he with he | he | ⟨w, hw, he⟩
  · exact made (.inl he)
  · exact made (.inr he)
  · have _ := next_sizeOf hw
    exact not_tracked_of_plain (plain_of_isNode h (next_isNode hw)) he
termination_by sizeOf t

/-- A tracked binding holds from behind the start of each node around its import statement on. -/
theorem Visit.Sound.start_lt (hv : v.Sound) : ∀ e ∈ (v.found tracked).events,
    e.binding.isTracked = true → v.tree.span.start < e.offset := by
  refine hv.induction tracked (P := fun v => ∀ e ∈ (v.found tracked).events,
    e.binding.isTracked = true → v.tree.span.start < e.offset) ?_
  intro v hv ih e he htracked
  rcases mem_walk_events.1 he with hmade | hmade | ⟨w, hw, hfound⟩
  · exact ((own_at hv.sourced hmade).2.bounds hv.sourced).1
  · -- What is bound at the start of a scope is no import.
    obtain ⟨himport, hdepth, -⟩ := imported_of_made (.inr hmade) htracked
    rw [course_import himport hdepth] at hmade
    cases hmade
  · exact Nat.lt_of_le_of_lt (hv.sourced.within (next_isNode hw)).start (ih w hw e hfound htracked)

theorem mem_gather_events {vs : List Visit} :
    e ∈ (gather tracked vs).events ↔ ∃ w ∈ vs, e ∈ (w.found tracked).events := by
  induction vs with
  | nil => simp [gather]
  | cons v rest ih => simp [gather, ih]

/-- The bindings that a walk finds, in the parts of its course. -/
theorem found_events (tracked : Tracked.Set) (v : Visit) : (v.found tracked).events =
    (course tracked v.place v.numbering v.tree).own ++
      ((gather tracked (course tracked v.place v.numbering v.tree).outer).events ++
        ((course tracked v.place v.numbering v.tree).opened.events ++
          (gather tracked (course tracked v.place v.numbering v.tree).inner).events)) := by
  rw [Visit.found, walk_eq_found, Course.found]
  simp

theorem slot_gather_eq_nil {vs : List Visit}
    (h : ∀ w ∈ vs, slot k offset (w.found tracked).events = []) :
    slot k offset (gather tracked vs).events = [] := by
  induction vs with
  | nil => rfl
  | cons v rest ih =>
      rw [gather, Findings.append_events, slot_append, h v List.mem_cons_self,
        ih fun w hw => h w (List.mem_cons_of_mem _ hw)]
      rfl

/-- A walk over another part of a node finds nothing at a tracked binding. -/
theorem slot_of_other {u : Visit} (hv : v.Sound) (hw : w ∈ v.next tracked) (hu : u ∈ v.next tracked)
    (hne : u ≠ w) (he : e ∈ (w.found tracked).events) :
    slot e.scope e.offset (u.found tracked).events = [] := by
  refine slot_eq_nil fun f hf hscope hoffset => ?_
  rcases apart hv hw hu hne hf with h | h
  · have := h e he hscope.symm
    omega
  · have := h e he hscope.symm
    omega

/-- What a walk finds at a tracked binding is found by the walk of its course that finds this
binding. -/
theorem slot_of_next (hv : v.Sound) (hw : w ∈ v.next tracked) (he : e ∈ (w.found tracked).events)
    (htracked : e.binding.isTracked = true) :
    slot e.scope e.offset (v.found tracked).events =
      slot e.scope e.offset (w.found tracked).events := by
  have hholds := (hv.next hw).holds e he
  have hlt := (hv.next hw).start_lt e he htracked
  have hnumbers := (next_le hw).1.scope
  have hplain : ¬ Plain w.tree := by
    intro h
    rw [not_tracked_of_plain h he] at htracked
    cases htracked
  -- Neither the node nor the scope that it opens nor another part of it has a binding there.
  have hown : slot e.scope e.offset (course tracked v.place v.numbering v.tree).own = [] := by
    refine slot_eq_nil fun f hf hscope hoffset => ?_
    have hplace := (own_at hv.sourced hf).1.1
    have hwscope : w.place.scope = v.place.scope := by
      have := hv.scope
      rcases hholds.scope with heq | ⟨hlow, -⟩ <;> omega
    have := own_le hv.sourced hv.scope hf hw hwscope hplain
    omega
  have hopened : slot e.scope e.offset
      (course tracked v.place v.numbering v.tree).opened.events = [] := by
    refine slot_eq_nil fun f hf hscope hoffset => ?_
    obtain ⟨-, hfresh, hpos, -⟩ := opened_at hv.sourced hf
    rcases List.mem_append.1 hw with hw | hw
    · have := scope_of_outer hv.scope hw hholds.scope
      omega
    · have := opened_le hv.sourced hf hw
      omega
  obtain ⟨before, behind, hsplit⟩ := List.append_of_mem hw
  have hspans : (v.next tracked).Pairwise fun u u' => u.tree.span.stop ≤ u'.tree.span.start :=
    next_spans hv.sourced
  rw [hsplit] at hspans
  obtain ⟨-, hbehind, hbefore⟩ := List.pairwise_append.1 hspans
  have hstop := hholds.stop
  have others : ∀ u ∈ before ++ behind, slot e.scope e.offset (u.found tracked).events = [] := by
    intro u hu
    refine slot_of_other hv hw ?_ ?_ he
    · rw [hsplit]
      rcases List.mem_append.1 hu with hu | hu <;> simp [hu]
    · rintro rfl
      rcases List.mem_append.1 hu with hu | hu
      · have := hbefore u hu u List.mem_cons_self
        omega
      · have := (List.pairwise_cons.1 hbehind).1 u hu
        omega
  have hgather : slot e.scope e.offset (gather tracked (v.next tracked)).events =
      slot e.scope e.offset (w.found tracked).events := by
    rw [hsplit, gather_append, gather, Findings.append_events, Findings.append_events, slot_append,
      slot_append, slot_gather_eq_nil fun u hu => others u (List.mem_append_left _ hu),
      slot_gather_eq_nil fun u hu => others u (List.mem_append_right _ hu), List.nil_append,
      List.append_nil]
  rw [Visit.next, Course.next, gather_append, Findings.append_events, slot_append] at hgather
  rw [found_events]
  simp only [slot_append, hown, hopened, List.nil_append]
  exact hgather

/-- All bindings at a tracked binding are found with it. -/
theorem Visited.slot_eq (ht : Sourced t) (hv : Visited tracked t v)
    (he : e ∈ (v.found tracked).events) (htracked : e.binding.isTracked = true) :
    slot e.scope e.offset ((wholeVisit t).found tracked).events =
      slot e.scope e.offset (v.found tracked).events := by
  induction hv with
  | whole => rfl
  | @next u w hu hw ih =>
      have hmem : e ∈ (u.found tracked).events := mem_walk_events.2 (.inr (.inr ⟨w, hw, he⟩))
      exact (ih hmem).trans (slot_of_next (hu.sound ht) hw he htracked)

/-! ## Orders that decide the same -/

/-- Whether the bindings made so far are those of some list, in another order that keeps the ones at
the offset of a tracked binding in theirs. -/
def Tied (es done : List Event) : Prop :=
  ∀ k offset, (∀ e ∈ slot k offset done, e.binding.isTracked = false) ∨
    slot k offset done = slot k offset es

theorem Tied.nil (es : List Event) : Tied es [] :=
  fun _ _ => .inl fun _ h => nomatch h

/-- Further bindings keep the order if all bindings at the tracked ones among them are made at
once. -/
theorem Tied.add (h : Tied es done) (hperm : es.Perm (done ++ (made ++ rest)))
    (hmade : ∀ e ∈ made, e.binding.isTracked = true →
      slot e.scope e.offset es = slot e.scope e.offset made) : Tied es (done ++ made) := by
  intro k offset
  have hlength : (slot k offset es).length = (slot k offset done).length +
      ((slot k offset made).length + (slot k offset rest).length) := by
    have := (hperm.filter fun e => e.scope = k ∧ e.offset = offset).length_eq
    rw [List.filter_append, List.filter_append, List.length_append, List.length_append] at this
    exact this
  rw [slot_append]
  by_cases htracked : ∃ e ∈ slot k offset made, e.binding.isTracked = true
  · obtain ⟨e, he, htracked⟩ := htracked
    obtain ⟨hmem, rfl, rfl⟩ := mem_slot.1 he
    have heq := hmade e hmem htracked
    have hnil : slot e.scope e.offset done = [] := by
      have := congrArg List.length heq
      exact List.eq_nil_of_length_eq_zero (by omega)
    rw [hnil, List.nil_append]
    exact .inr heq.symm
  · have hmade : ∀ e ∈ slot k offset made, e.binding.isTracked = false := by
      intro e he
      rw [Bool.eq_false_iff]
      exact fun h => htracked ⟨e, he, h⟩
    rcases h k offset with hdone | heq
    · exact .inl fun e he => (List.mem_append.1 he).elim (hdone e) (hmade e)
    · have hnil : slot k offset made = [] := by
        have := congrArg List.length heq
        exact List.eq_nil_of_length_eq_zero (by omega)
      rw [hnil, List.append_nil]
      exact .inr heq

/-! ## What the latest binding decides -/

/-- What the names of a scope stand for after some bindings, the latest first. -/
def held (k : Nat) (done : List Event) : List (String × Binding) :=
  (namesOf (done.filter fun e => e.scope = k)).reverse

/-- Without arms the latest binding decides. -/
theorem visible?_of_armless (h : ∀ e ∈ es, e.arms = []) :
    visible? es name offset =
      ((es.filter fun e => e.name == name && e.offset ≤ offset).getLast?).map Event.binding := by
  unfold visible?
  rw [List.filter_reverse, ← List.head?_reverse]
  cases hlist : (es.filter fun e => e.name == name && e.offset ≤ offset).reverse with
  | nil => rfl
  | cons latest earlier =>
      have hlatest : latest.arms = [] := by
        have hmem : latest ∈ (es.filter fun e => e.name == name && e.offset ≤ offset).reverse := by
          rw [hlist]
          exact List.mem_cons_self
        exact h latest (List.mem_filter.1 (List.mem_reverse.1 hmem)).1
      have hnone : surviving? latest offset earlier = none := by
        cases earlier with
        | nil => rfl
        | cons e rest => rw [surviving?, hlatest, divergingArm?.eq_def]
      simp only [hnone, Option.getD_none, ite_self, List.head?_cons, Option.map_some]

theorem lookup_held : (held k done).lookup name =
    (((done.filter fun e => e.scope = k).filter fun e => e.name == name).getLast?).map
      Event.binding := by
  have lookup : ∀ l : List Event, (namesOf l).reverse.lookup name =
      ((l.reverse.filter fun e => e.name == name).head?).map Event.binding := by
    intro l
    rw [namesOf, ← List.map_reverse]
    induction l.reverse with
    | nil => rfl
    | cons e rest ih =>
        rw [List.map_cons, List.lookup_cons, List.filter_cons]
        by_cases hname : e.name = name
        · simp [hname]
        · simp only [beq_iff_eq, hname, if_false, beq_eq_false_iff_ne.2 (Ne.symm hname)]
          exact ih
  rw [held, lookup, List.filter_reverse, List.head?_reverse]

/-- What decides between bindings: where they hold from, and what they say. -/
def Event.key (e : Event) : Nat × Binding :=
  (e.offset, e.binding)

/-- Of bindings that are all untracked, only the number matters. -/
theorem map_key_of_untracked {l : List Event} {o : Nat}
    (h : ∀ e ∈ l, e.offset = o ∧ e.binding.isTracked = false) :
    l.map Event.key = List.replicate l.length (o, .untracked) := by
  refine List.eq_replicate_iff.2 ⟨List.length_map _, fun q hq => ?_⟩
  obtain ⟨e, he, rfl⟩ := List.mem_map.1 hq
  obtain ⟨hoffset, htracked⟩ := h e he
  have huntracked : e.binding = .untracked := Binding.eq_untracked (by simp [htracked])
  rw [Event.key, hoffset, huntracked]

/-- The bindings of a name among those at one offset of a scope are tied too. -/
theorem Tied.keys (h : Tied es done) {o : Nat} (hperm : (slot k o es).Perm (slot k o done)) :
    ((slot k o es).filter fun e => e.name == name).map Event.key =
      ((slot k o done).filter fun e => e.name == name).map Event.key := by
  rcases h k o with huntracked | heq
  · have hdone : ∀ e ∈ (slot k o done).filter fun e => e.name == name,
        e.offset = o ∧ e.binding.isTracked = false := by
      intro e he
      have hmem := (List.mem_filter.1 he).1
      exact ⟨(mem_slot.1 hmem).2.2, huntracked e hmem⟩
    have hname := hperm.filter fun e => e.name == name
    rw [map_key_of_untracked hdone, map_key_of_untracked fun e he => hdone e (hname.mem_iff.1 he),
      hname.length_eq]
  · rw [heq]

/-- Whether the bindings of a scope that were made are those that hold at an offset. -/
structure Complete (es done later : List Event) (k offset : Nat) : Prop where
  perm : es.Perm (done ++ later)
  sorted : done.Pairwise fun e f => e.offset ≤ f.offset
  tied : Tied es done
  before : ∀ e ∈ done, e.scope = k → e.offset ≤ offset
  behind : ∀ e ∈ later, e.scope = k → offset < e.offset

theorem Complete.slot_perm (h : Complete es done later k offset) {o : Nat} (hle : o ≤ offset) :
    (slot k o es).Perm (slot k o done) := by
  have hnone : slot k o later = [] := slot_eq_nil fun e he hscope => by
    have := h.behind e he hscope
    omega
  have hslots := h.perm.filter fun e => e.scope = k ∧ e.offset = o
  rwa [List.filter_append, ← slot, ← slot, ← slot, hnone, List.append_nil] at hslots

/-- The bindings of a scope that hold at an offset, in the order of their offsets, say what those
that were made say. -/
theorem Complete.keys_eq (h : Complete es done later k offset) (name : String) {sorted : List Event}
    (harranged : Arranged (fun e : Event => (⟨e.offset, e.offset⟩ : Span))
      (es.filter fun e => e.scope = k) sorted) :
    (sorted.filter fun e => e.name == name && e.offset ≤ offset).map Event.key =
      ((done.filter fun e => e.scope = k).filter fun e => e.name == name).map Event.key := by
  -- Both lists are in the order of the offsets, so it is enough to compare them at each offset.
  refine eq_of_sameTies
    (show SameTies (fun q : Nat × Binding => (⟨q.1, q.1⟩ : Span)) _ _ from ?_) ?_ ?_
  · rintro ⟨o, o'⟩
    rw [List.filter_map, List.filter_map]
    by_cases ho : o = o' ∧ o ≤ offset
    · obtain ⟨rfl, hle⟩ := ho
      have hat : ∀ l : List Event,
          l.filter ((fun q : Nat × Binding => decide ((⟨q.1, q.1⟩ : Span) = ⟨o, o⟩)) ∘ Event.key) =
            l.filter fun e => e.offset = o := by
        intro l
        refine List.filter_congr fun e _ => decide_eq_decide.2 ?_
        simp [Event.key]
      have hslot : sorted.filter (fun e => e.offset = o) = slot k o es := by
        rw [← hat]
        refine (harranged.ties ⟨o, o⟩).trans ?_
        rw [List.filter_filter]
        refine List.filter_congr fun e _ => ?_
        rw [← Bool.decide_and]
        refine decide_eq_decide.2 ?_
        simp [and_comm]
      have hvisible : (sorted.filter fun e => e.name == name && e.offset ≤ offset).filter
          (fun e => e.offset = o) = (slot k o es).filter fun e => e.name == name := by
        rw [← hslot, List.filter_filter, List.filter_filter]
        refine List.filter_congr fun e _ => ?_
        by_cases heq : e.offset = o <;> simp [heq, hle]
      have hmade : ((done.filter fun e => e.scope = k).filter fun e => e.name == name).filter
          (fun e => e.offset = o) = (slot k o done).filter fun e => e.name == name := by
        rw [slot, List.filter_filter, List.filter_filter, List.filter_filter]
        refine List.filter_congr fun e _ => ?_
        by_cases heq : e.offset = o <;> simp [heq, Bool.and_comm]
      rw [hat, hat, hvisible, hmade]
      exact h.tied.keys (h.slot_perm hle)
    · -- None of the bindings holds from behind the offset on.
      have hnone : ∀ {l : List Event}, (∀ e ∈ l, e.offset ≤ offset) →
          l.filter ((fun q : Nat × Binding => decide ((⟨q.1, q.1⟩ : Span) = ⟨o, o'⟩)) ∘ Event.key) =
            [] := by
        intro l hl
        refine List.filter_eq_nil_iff.2 fun e he hspan => ho ?_
        obtain ⟨hstart, hstop⟩ := Span.mk.inj (of_decide_eq_true hspan)
        have hle := hl e he
        simp only [Event.key] at hstart hstop
        omega
      rw [hnone, hnone]
      · intro e he
        obtain ⟨hmem, hscope⟩ := List.mem_filter.1 (List.mem_filter.1 he).1
        exact h.before e hmem (by simpa using hscope)
      · intro e he
        have hkept := (List.mem_filter.1 he).2
        simp only [Bool.and_eq_true, decide_eq_true_eq] at hkept
        exact hkept.2
  · exact List.pairwise_map.2 ((harranged.ordered.filter _).imp fun h => h)
  · refine List.pairwise_map.2 (((h.sorted.filter _).filter _).imp fun h => ?_)
    simp only [Event.key, Span.UpTo]
    omega

/-- The latest of the bindings that were made decides what a name stands for in a scope. -/
theorem Complete.visible?_eq (h : Complete es done later k offset) (harms : ∀ e ∈ es, e.arms = []) :
    visible? (stableSort (fun a b => a.offset ≤ b.offset) (es.filter fun e => e.scope = k)) name
      offset = (held k done).lookup name := by
  have harranged : Arranged (fun e : Event => (⟨e.offset, e.offset⟩ : Span))
      (es.filter fun e => e.scope = k)
      (stableSort (fun a b => a.offset ≤ b.offset) (es.filter fun e => e.scope = k)) := by
    refine arranged_stableSort _ (fun a b => ?_) _
    simp only [decide_eq_true_eq, Span.UpTo]
    omega
  rw [visible?_of_armless fun e he =>
    harms e (List.mem_filter.1 (harranged.perm.mem_iff.1 he)).1, lookup_held]
  have hlast := congrArg (fun l => (l.getLast?).map Prod.snd) (h.keys_eq name harranged)
  simp only [List.getLast?_map, Option.map_map] at hlast
  exact hlast

end Longhand.Scope
