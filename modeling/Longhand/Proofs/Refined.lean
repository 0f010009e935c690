import Longhand.Proofs.Arrived

/-!
# Look-up refines reading

In a text without branching statements, what the callees of calls stand for by the recorded bindings
and their offsets is what a reading in the order of the text says.  A pass over a node of each kind
makes the bindings that the walk over it finds, in an order of its own, and stands behind the node
afterwards.
-/

namespace Longhand.Scope

open Syntax Text

variable {tracked : Tracked.Set} {p : Place} {n : Numbering} {t : Tree} {e f : Event}
  {v w : Visit} {j k depth offset : Nat} {name : String} {frame : Frame} {st : Stack}
  {es done made rest later : List Event}

/-! ## Passes over nodes -/

/-- What the calls among some nodes are found to be. -/
def answers (tracked : Tracked.Set) (t : Tree) (calls : List Tree) : List Reading :=
  calls.map fun w => (w, callee? (resolve tracked t) w)

@[simp] theorem answers_append (ws ws' : List Tree) :
    answers tracked t (ws ++ ws') = answers tracked t ws ++ answers tracked t ws' :=
  List.map_append

/-- Whether a pass over a node makes its bindings, and reads its calls as what they are found to be,
when all bindings made are from before the node and all further ones from behind it. -/
def Follows (tracked : Tracked.Set) (t : Tree) (v : Visit) : Prop :=
  ∀ done later st,
    Arrived tracked t done ((v.found tracked).events ++ later) st v.place.scope →
    (∀ e ∈ done, e.offset ≤ v.tree.span.start ∧ e.scope < v.numbering.scope) →
    (∀ e ∈ later, v.tree.span.stop ≤ e.offset) →
    ∃ made st', made.Perm (v.found tracked).events ∧
      Arrived tracked t (done ++ made) later st' v.place.scope ∧
      (Reader.bounded tracked).pass v.place.depth st v.tree =
        (st', answers tracked t (callNodes v.place.depth v.tree))

/-- What a walk finds belongs to scopes before those of walks behind it. -/
theorem Visited.scope_lt_of_found (ht : Sourced t) (hv : Visited tracked t v)
    (hle : (v.end tracked).scope ≤ k) (he : e ∈ (v.found tracked).events) : e.scope < k := by
  have hsound := hv.sound ht
  have hself : v.numbering.scope ≤ (v.end tracked).scope :=
    (Numbering.le_after v.numbering (v.found tracked)).scope
  have hscope := hsound.scope
  rcases (hsound.holds e he).scope with heq | ⟨-, hhigh⟩ <;> omega

/-- What a walk finds is behind, in the text and in the scopes, where a later walk begins. -/
theorem Visited.before_of_found (ht : Sourced t) (hv : Visited tracked t v)
    (hspan : v.tree.span.stop ≤ w.tree.span.start) (hnumber : (v.end tracked).Le w.numbering)
    (hmade : made.Perm (v.found tracked).events) :
    ∀ e ∈ made, e.offset ≤ w.tree.span.start ∧ e.scope < w.numbering.scope := by
  intro e he
  have he := hmade.mem_iff.1 he
  have hstop := ((hv.sound ht).holds e he).stop
  exact ⟨Nat.le_trans hstop hspan, hv.scope_lt_of_found ht hnumber.scope he⟩

/-- A node that is too deep in the tree is not looked at. -/
theorem follows_deep (hdepth : depthLimit < v.place.depth) : Follows tracked t v := by
  intro done later st h _ _
  have hfound : (v.found tracked).events = [] := by
    rw [found_events, course, if_pos hdepth]
    rfl
  refine ⟨[], st, by rw [hfound], ?_, ?_⟩
  · rw [hfound] at h
    rw [List.append_nil]
    exact h
  · rw [Reader.pass_eq, callNodes_eq, if_pos hdepth]
    simp [Reader.skips, Reader.bounded, hdepth, answers]

theorem Reader.skips_bounded (hdepth : depth ≤ depthLimit) :
    (Reader.bounded tracked).skips depth = false := by
  simpa [Reader.skips, Reader.bounded] using hdepth

/-- A statement that imports binds its names at its end. -/
theorem follows_import (ht : Sourced t) (hv : Visited tracked t v)
    (hdepth : v.place.depth ≤ depthLimit) (himport : isImport v.tree.kind = true) :
    Follows tracked t v := by
  intro done later st h hbefore hbehind
  have hsourced := ht.node hv.isNode
  have hfound : (v.found tracked).events = importedEvents tracked v.place v.tree := by
    rw [found_events, course_import himport hdepth]
    simp [gather]
  have hinert : ∀ c ∈ v.tree.children, Inert c :=
    fun c hc => (name_of_import hsourced himport hc).1
  obtain ⟨hover, hloop, hcomprehension, hcall⟩ : scopeOver? v.tree.kind = none ∧
      loopNames v.tree = [] ∧ isComprehension v.tree.kind = false ∧ v.tree.kind ≠ .call := by
    unfold isImport at himport
    unfold loopNames
    split at himport
    · rw [‹v.tree.kind = _›]
      exact ⟨rfl, rfl, rfl, by decide⟩
    · rw [‹v.tree.kind = _›]
      exact ⟨rfl, rfl, rfl, by decide⟩
    · cases himport
  have hat : ∀ e ∈ importedEvents tracked v.place v.tree,
      e.scope = v.place.scope ∧ e.offset = v.tree.span.stop :=
    fun e he => ⟨(importedEvents_at he).1.1, (importedEvents_at he).2.1⟩
  refine ⟨importedEvents tracked v.place v.tree,
    st.bind (namesOf (importedEvents tracked v.place v.tree)), by rw [hfound], ?_, ?_⟩
  · rw [hfound] at h
    refine h.bind ht.ordered (fun e he => (hat e he).1) (fun e he => (hat e he).2)
      (fun e he => Nat.le_trans (hbefore e he).1 hsourced.le) fun e he htracked => ?_
    rw [hv.slot_eq ht (by rw [hfound]; exact he) htracked, hfound]
  · rw [Reader.pass_eq, Reader.skips_bounded hdepth, hcomprehension, hloop,
      Reader.passIn_inert _ _ st hover hinert, Reader.bound_of_import himport v.place,
      callNodes_eq, if_neg (Nat.not_lt.2 hdepth), callNodesIn_inert _ hinert]
    simp [answers, hcall]

section Nodes

variable (ht : Sourced t) (hv : Visited tracked t v) (hdepth : v.place.depth ≤ depthLimit)
  (ih : ∀ w ∈ v.next tracked, Visited tracked t w → Follows tracked t w)

include ht hv in
/-- Walks inside a node begin behind the bindings made before it. -/
theorem before_next (hw : w ∈ v.next tracked)
    (hbefore : ∀ e ∈ done, e.offset ≤ v.tree.span.start ∧ e.scope < v.numbering.scope) :
    ∀ e ∈ done, e.offset ≤ w.tree.span.start ∧ e.scope < w.numbering.scope := by
  intro e he
  obtain ⟨hoffset, hscope⟩ := hbefore e he
  have hstart := ((ht.node hv.isNode).within (next_isNode hw)).start
  exact ⟨Nat.le_trans hoffset hstart, Nat.lt_of_lt_of_le hscope (next_le hw).1.scope⟩

include ht hv in
theorem behind_next (hw : w ∈ v.next tracked) (hbehind : ∀ e ∈ later, v.tree.span.stop ≤ e.offset) :
    ∀ e ∈ later, w.tree.span.stop ≤ e.offset :=
  fun e he => Nat.le_trans ((ht.node hv.isNode).within (next_isNode hw)).stop (hbehind e he)

include ht hv in
/-- What parts of a node find is behind any offset that the parts begin behind. -/
theorem gather_behind {vs : List Visit} (hnext : ∀ w ∈ vs, w ∈ v.next tracked)
    (hstart : ∀ w ∈ vs, offset ≤ w.tree.span.start) :
    ∀ e ∈ (gather tracked vs).events, offset ≤ e.offset := by
  intro e he
  obtain ⟨w, hw, he⟩ := mem_gather_events.1 he
  exact Nat.le_trans (hstart w hw) (((hv.next (hnext w hw)).sound ht).holds e he).start

/-- The nodes of a course are one level further down. -/
theorem next_depth (hw : w ∈ v.next tracked) : w.place.depth = v.place.depth + 1 := by
  rcases next_place hw with hplace | ⟨-, number, hplace⟩ | ⟨-, -, hplace⟩ <;> rw [hplace] <;> rfl

include ht hv ih in
/-- A run of parts of a node that open no bodies and that nothing is bound behind. -/
theorem follows_all {vs : List Visit} {pending : List String} (hsub : vs.Sublist (v.next tracked))
    (hscope : ∀ w ∈ vs, w.place.scope = k)
    (hquiet : ∀ w ∈ vs, bodyEnv? v.tree w.tree = none ∧
      (pending = [] ∨ w.tree.role ≠ some .right))
    (h : Arrived tracked t done ((gather tracked vs).events ++ later) st k)
    (hbefore : ∀ w ∈ vs, ∀ e ∈ done, e.offset ≤ w.tree.span.start ∧ e.scope < w.numbering.scope)
    (hbehind : ∀ w ∈ vs, ∀ e ∈ later, w.tree.span.stop ≤ e.offset) :
    ∃ made st', made.Perm (gather tracked vs).events ∧ Arrived tracked t (done ++ made) later st' k ∧
      ∀ more, (Reader.bounded tracked).passIn (v.place.depth + 1) v.tree pending st
          (vs.map Visit.tree ++ more) =
        let behind := (Reader.bounded tracked).passIn (v.place.depth + 1) v.tree pending st' more
        (behind.1, answers tracked t (callNodesIn (v.place.depth + 1) (vs.map Visit.tree)) ++
          behind.2) := by
  induction vs generalizing done st with
  | nil =>
      refine ⟨[], st, .nil, ?_, fun more => rfl⟩
      rw [List.append_nil]
      exact h
  | cons w rest ihrest =>
      have hnext := hsub.subset List.mem_cons_self
      have hw := hv.next hnext
      have hspans : (w :: rest).Pairwise fun v w => v.tree.span.stop ≤ w.tree.span.start :=
        List.Pairwise.sublist hsub (next_spans (ht.node hv.isNode))
      have hnumbers : (w :: rest).Pairwise fun v w => (v.end tracked).Le w.numbering :=
        List.Pairwise.sublist hsub next_pairwise
      obtain ⟨hspan, -⟩ := List.pairwise_cons.1 hspans
      obtain ⟨hnumber, -⟩ := List.pairwise_cons.1 hnumbers
      obtain ⟨hbody, hpending⟩ := hquiet w List.mem_cons_self
      -- The bindings of the parts behind the first one are still to come for it.
      have hgather : ∀ e ∈ (gather tracked rest).events, w.tree.span.stop ≤ e.offset :=
        gather_behind ht hv (fun u hu => hsub.subset (List.mem_cons_of_mem _ hu)) hspan
      rw [gather, Findings.append_events, List.append_assoc, ← hscope w List.mem_cons_self] at h
      obtain ⟨made, st', hperm, harrived, hpass⟩ := ih w hnext hw done _ st h
        (hbefore w List.mem_cons_self)
        fun e he => (List.mem_append.1 he).elim (hgather e) (hbehind w List.mem_cons_self e)
      rw [hscope w List.mem_cons_self] at harrived
      obtain ⟨made', st'', hperm', harrived', hpass'⟩ := ihrest (List.sublist_of_cons_sublist hsub)
        (fun u hu => hscope u (List.mem_cons_of_mem _ hu))
        (fun u hu => hquiet u (List.mem_cons_of_mem _ hu)) harrived (fun u hu e he => by
          rcases List.mem_append.1 he with he | he
          · exact hbefore u (List.mem_cons_of_mem _ hu) e he
          · exact hw.before_of_found ht (hspan u hu) (hnumber u hu) hperm e he)
        fun u hu => hbehind u (List.mem_cons_of_mem _ hu)
      refine ⟨made ++ made', st'', hperm.append hperm', ?_, fun more => ?_⟩
      · rw [← List.append_assoc]
        exact harrived'
      · rw [next_depth hnext] at hpass
        rw [List.map_cons, List.cons_append, Reader.passIn_cons hbody hpending, hpass]
        dsimp only
        rw [hpass', callNodesIn, answers_append, List.append_assoc]

/-- The parts of a comprehension: the names that its clauses bind at the start of its scope, and the
walks over its children, which are all inside. -/
structure ComprehensionParts (tracked : Tracked.Set) (v : Visit) (frame : Frame)
    (targets : List Event) (inside : List Visit) : Prop where
  opened : Opened tracked v.place v.numbering v.tree frame
  env : comprehensionEnv v.tree = ⟨frame.kind, (namesOf targets).reverse⟩
  next : inside.Sublist (v.next tracked)
  children : inside.map Visit.tree = v.tree.children
  scope : ∀ w ∈ inside, w.place.scope = fresh tracked v.place v.numbering v.tree
  lt : ∀ w ∈ inside, fresh tracked v.place v.numbering v.tree < w.numbering.scope
  bound : ∀ e ∈ targets, e.scope = fresh tracked v.place v.numbering v.tree ∧
    e.offset = v.tree.span.start ∧ e.binding.isTracked = false
  found : (v.found tracked).events = targets ++ (gather tracked inside).events

theorem exists_comprehensionParts (tracked : Tracked.Set) (hsourced : Sourced v.tree)
    (hdepth : v.place.depth ≤ depthLimit) (hkind : isComprehension v.tree.kind = true) :
    ∃ frame targets inside, ComprehensionParts tracked v frame targets inside := by
  have hcourse : course tracked v.place v.numbering v.tree =
      comprehensionCourse tracked v.place v.numbering v.tree := course_comprehension hkind hdepth
  obtain ⟨-, hopened⟩ := comprehension_opened tracked v.numbering hsourced.ordered hkind hdepth
  refine ⟨_, (course tracked v.place v.numbering v.tree).opened.events,
    (course tracked v.place v.numbering v.tree).inner, hopened, ?_, List.sublist_append_right _ _, ?_,
    fun w hw => (hopened.inside w hw).2, fun w hw => fresh_lt hw hopened.pos,
    fun e he => ⟨(opened_at hsourced he).2.1, ?_⟩, ?_⟩
  · rw [hcourse, comprehensionEnv, comprehensionCourse, namesOf_clauses]
  · rw [hcourse, comprehensionCourse, visitsAll_trees]
    exact List.filter_eq_self.2 fun _ _ => rfl
  · rw [hcourse] at he
    exact ⟨(clauseEvents_at he).2, not_tracked_of_untracked (clauseEvents_untracked _ _) he⟩
  · rw [found_events, hcourse]
    simp [comprehensionCourse, gather]

include ht hv hdepth ih in
/-- A comprehension is a scope with its targets bound from the start on. -/
theorem follows_comprehension (hkind : isComprehension v.tree.kind = true) :
    Follows tracked t v := by
  intro done later st h hbefore hbehind
  have hsourced := ht.node hv.isNode
  obtain ⟨-, hover⟩ := kinds_of_comprehension hkind
  obtain ⟨hloop, hcall⟩ : loopNames v.tree = [] ∧ v.tree.kind ≠ .call := by
    unfold isComprehension at hkind
    unfold loopNames
    split at hkind <;> simp_all
  obtain ⟨frame, targets, inside, hparts⟩ := exists_comprehensionParts tracked hsourced hdepth hkind
  have hnumber := hv.opened hparts.opened
  have hnext : ∀ w ∈ inside, w ∈ v.next tracked := fun w hw => hparts.next.subset hw
  rw [hparts.found, List.append_assoc] at h
  have hentered := h.enter ht.ordered hnumber hparts.opened.parent (fun e he => (hparts.bound e he).1)
    (fun e he => (hparts.bound e he).2.1) (fun e he => (hparts.bound e he).2.2)
    (fun e he => (hbefore e he).1) fun e he heq => by
      have hlt := (hbefore e he).2
      have hle : v.numbering.scope ≤ fresh tracked v.place v.numbering v.tree := le_fresh
      omega
  obtain ⟨made, st', hperm, hpassed, hpass⟩ := follows_all ht hv ih hparts.next hparts.scope
    (fun w _ => ⟨Reader.bodyEnv?_of_kind hover _, .inl rfl⟩) hentered
    (fun w hw e he => by
      rcases List.mem_append.1 he with he | he
      · exact before_next ht hv (hnext w hw) hbefore e he
      · have hlt := hparts.lt w hw
        have hstart := (hsourced.within (next_isNode (hnext w hw))).start
        obtain ⟨hscope, hoffset, -⟩ := hparts.bound e he
        omega)
    fun w hw => behind_next ht hv (hnext w hw) hbehind
  refine ⟨targets ++ made, st'.tail, ?_, ?_, ?_⟩
  · rw [hparts.found]
    exact hperm.append_left _
  · rw [← List.append_assoc]
    exact hpassed.leave hnumber hparts.opened.parent
  · have hchildren := hpass []
    rw [List.append_nil, hparts.children] at hchildren
    rw [Reader.pass_eq, Reader.skips_bounded hdepth, hkind, hparts.env, hchildren, callNodes_eq,
      if_neg (Nat.not_lt.2 hdepth)]
    simp [hcall, Reader.passIn]

/-- A node other than a loop makes its own bindings at its end. -/
theorem own_at_stop (hsourced : Sourced v.tree) (hloop : v.tree.kind ≠ .forStatement)
    (he : e ∈ ownEvents v.place v.tree) :
    e.scope = v.place.scope ∧ e.offset = v.tree.span.stop ∧ e.binding.isTracked = false := by
  refine ⟨(ownEvents_at he).1, ?_, not_tracked_of_untracked (ownEvents_untracked _ _) he⟩
  rcases ownEvents_offset hsourced he with ⟨hstop, -⟩ | ⟨-, -, -, hkind, -⟩
  · exact hstop
  · exact absurd hkind hloop

/-- The parts of a function or a class: the walks over what stays outside of its scope, what is bound
at the start of the scope, and the walk over its body. -/
structure BodyParts (tracked : Tracked.Set) (v : Visit) (frame : Frame) (visits : List Visit)
    (params : List Event) (inside : Visit) : Prop where
  opened : Opened tracked v.place v.numbering v.tree frame
  next : v.next tracked = visits ++ [inside]
  children : v.tree.children = visits.map Visit.tree ++ [inside.tree]
  beside : ∀ w ∈ visits, w.place.scope = v.place.scope ∧ bodyEnv? v.tree w.tree = none ∧
    w.tree.span.stop ≤ inside.tree.span.start ∧
      (w.end tracked).scope ≤ fresh tracked v.place v.numbering v.tree
  env : bodyEnv? v.tree inside.tree = some ⟨frame.kind, (namesOf params).reverse⟩
  role : inside.tree.role ≠ some .right
  scope : inside.place.scope = fresh tracked v.place v.numbering v.tree
  lt : fresh tracked v.place v.numbering v.tree < inside.numbering.scope
  bound : ∀ e ∈ params, e.scope = fresh tracked v.place v.numbering v.tree ∧
    e.offset = inside.tree.span.start ∧ e.binding.isTracked = false
  found : (v.found tracked).events = ownEvents v.place v.tree ++
    ((gather tracked visits).events ++ (params ++ (inside.found tracked).events))

theorem exists_bodyParts (tracked : Tracked.Set) (hsourced : Sourced v.tree)
    (hdepth : v.place.depth ≤ depthLimit) {kind : ScopeKind}
    (hover : scopeOver? v.tree.kind = some kind) :
    ∃ frame visits params inside, BodyParts tracked v frame visits params inside := by
  obtain ⟨outer, body, hcs, hbody, houter⟩ := exists_body hsourced hover
  have hchild := child?_body hcs hbody fun u hu => (houter u hu).1
  have hcourse : course tracked v.place v.numbering v.tree =
      bodyCourse tracked v.place v.numbering v.tree kind := course_scope hover hdepth
  have hopened : Opened tracked v.place v.numbering v.tree
      ⟨kind, some v.place.scope, body.span⟩ := by
    refine opened_of_frames hsourced.ordered ?_
    rw [hcourse, bodyCourse, hchild]
  -- The body is the only part inside, and all other children are parts outside.
  obtain ⟨inside, hinner, hinside⟩ : ∃ w, (course tracked v.place v.numbering v.tree).inner = [w] ∧
      w.tree = body := by
    rw [hcourse, bodyCourse, hchild]
    exact ⟨_, rfl, rfl⟩
  subst hinside
  have hmem : inside ∈ (course tracked v.place v.numbering v.tree).inner := by
    rw [hinner]
    exact List.mem_cons_self
  have htrees : (course tracked v.place v.numbering v.tree).outer.map Visit.tree = outer := by
    have hbodyless : outer.filter Selection.allButBody.holds = outer :=
      List.filter_eq_self.2 fun u hu => by simpa [Selection.holds] using (houter u hu).1
    rw [hcourse, bodyCourse, hchild, visitsAll_trees, hcs, List.filter_append, hbodyless]
    simp [Selection.holds, hbody]
  have hspans : (v.next tracked).Pairwise fun v w => v.tree.span.stop ≤ w.tree.span.start :=
    next_spans hsourced
  rw [Visit.next, Course.next, hinner] at hspans
  refine ⟨_, (course tracked v.place v.numbering v.tree).outer,
    (course tracked v.place v.numbering v.tree).opened.events, inside, hopened, ?_, ?_,
    fun w hw => ⟨outer_scope hw, ?_, ?_, outer_le_fresh hw⟩, ?_, ?_, (hopened.inside inside hmem).2,
    fresh_lt hmem hopened.pos, fun e he => ⟨(opened_at hsourced he).2.1, ?_⟩, ?_⟩
  · rw [Visit.next, Course.next, hinner]
  · rw [htrees, hcs]
  · rw [bodyEnv?, hover]
    exact if_neg (houter _ (htrees ▸ List.mem_map_of_mem hw)).1
  · exact (List.pairwise_append.1 hspans).2.2 w hw inside List.mem_cons_self
  · rw [bodyEnv?, hover, hcourse, bodyCourse, hchild, namesOf_untracked]
    exact if_pos hbody
  · rw [hbody]
    simp
  · rw [hcourse, bodyCourse, hchild] at he
    exact ⟨(mem_untracked he).2.1, not_tracked_of_untracked (untracked_names _ _ _) he⟩
  · have hown : (course tracked v.place v.numbering v.tree).own = ownEvents v.place v.tree := by
      rw [hcourse, bodyCourse, hchild]
    rw [found_events, hown, hinner]
    simp [gather]

/-- What a walk over a function or a class finds, in the order in which a pass binds it: the parts
outside come first, and the name of the node last. -/
theorem BodyParts.perm {visits : List Visit} {params : List Event} {inside : Visit}
    (hparts : BodyParts tracked v frame visits params inside) :
    (v.found tracked).events.Perm ((gather tracked visits).events ++
      (params ++ ((inside.found tracked).events ++ ownEvents v.place v.tree))) := by
  rw [hparts.found]
  refine List.perm_append_comm.trans (.of_eq ?_)
  simp only [List.append_assoc]

include ht hv hdepth ih in
/-- The body of a function or a class is a scope, and the name is bound behind it. -/
theorem follows_body {kind : ScopeKind} (hover : scopeOver? v.tree.kind = some kind) :
    Follows tracked t v := by
  intro done later st h hbefore hbehind
  have hsourced := ht.node hv.isNode
  obtain ⟨himport, hcomprehension, -⟩ := kinds_of_scope hover
  obtain ⟨hloop, hcall⟩ : v.tree.kind ≠ .forStatement ∧ v.tree.kind ≠ .call := by
    constructor <;> intro hkind <;> rw [hkind] at hover <;> cases hover
  obtain ⟨frame, visits, params, inside, hparts⟩ :=
    exists_bodyParts tracked hsourced hdepth hover
  have hnumber := hv.opened hparts.opened
  have hinside : inside ∈ v.next tracked := by
    rw [hparts.next]
    exact List.mem_append_right _ List.mem_cons_self
  have hvisits : ∀ w ∈ visits, w ∈ v.next tracked := fun w hw => by
    rw [hparts.next]
    exact List.mem_append_left _ hw
  have hbody := hv.next hinside
  have hown := fun e (he : e ∈ ownEvents v.place v.tree) => own_at_stop hsourced hloop he
  have hwithin := hsourced.within (next_isNode hinside)
  have hstart := hwithin.start
  have hstop := hwithin.stop
  have hle := (ht.node hbody.isNode).le
  -- The parts outside.
  have hall := h.perm_rest (hparts.perm.append_right later)
  simp only [List.append_assoc] at hall
  obtain ⟨made, st₁, hmade, harrived, hpass⟩ := follows_all ht hv ih
    (by rw [hparts.next]; exact List.sublist_append_left _ _) (fun w hw => (hparts.beside w hw).1)
    (fun w hw => ⟨(hparts.beside w hw).2.1, .inl rfl⟩) hall
    (fun w hw => before_next ht hv (hvisits w hw) hbefore) fun w hw e he => by
      have hbeside := (hparts.beside w hw).2.2.1
      simp only [List.mem_append] at he
      rcases he with he | he | he | he
      · rw [(hparts.bound e he).2.1]
        exact hbeside
      · exact Nat.le_trans hbeside ((hbody.sound ht).holds e he).start
      · rw [(hown e he).2.1]
        omega
      · have := hbehind e he
        omega
  have hdone : ∀ e ∈ done ++ made, e.offset ≤ inside.tree.span.start ∧
      e.scope < fresh tracked v.place v.numbering v.tree := by
    intro e he
    rcases List.mem_append.1 he with he | he
    · have hle : v.numbering.scope ≤ fresh tracked v.place v.numbering v.tree := le_fresh
      have := hbefore e he
      omega
    · obtain ⟨w, hw, he⟩ := mem_gather_events.1 (hmade.mem_iff.1 he)
      obtain ⟨-, -, hspan, hend⟩ := hparts.beside w hw
      have hvisited := hv.next (hvisits w hw)
      exact ⟨Nat.le_trans ((hvisited.sound ht).holds e he).stop hspan,
        hvisited.scope_lt_of_found ht hend he⟩
  -- The scope, from the names bound at its start to its end.
  have hentered := harrived.enter ht.ordered hnumber hparts.opened.parent
    (fun e he => (hparts.bound e he).1) (fun e he => (hparts.bound e he).2.1)
    (fun e he => (hparts.bound e he).2.2) (fun e he => (hdone e he).1)
    fun e he => Nat.ne_of_lt (hdone e he).2
  rw [← hparts.scope] at hentered
  obtain ⟨made', st₂, hmade', harrived', hpass'⟩ := ih inside hinside hbody _ _ _ hentered
    (fun e he => by
      have hlt := hparts.lt
      rcases List.mem_append.1 he with he | he
      · have := hdone e he
        omega
      · have := hparts.bound e he
        omega)
    fun e he => by
      rcases List.mem_append.1 he with he | he
      · rw [(hown e he).2.1]
        exact hstop
      · exact Nat.le_trans hstop (hbehind e he)
  rw [hparts.scope] at harrived'
  have hbound := (harrived'.leave hnumber hparts.opened.parent).bind ht.ordered
    (fun e he => (hown e he).1) (fun e he => (hown e he).2.1) (fun e he => by
      simp only [List.mem_append, or_assoc] at he
      rcases he with he | he | he | he
      · have := (hdone e (List.mem_append_left _ he)).1
        omega
      · have := (hdone e (List.mem_append_right _ he)).1
        omega
      · have := (hparts.bound e he).2.1
        omega
      · exact Nat.le_trans ((hbody.sound ht).holds e (hmade'.mem_iff.1 he)).stop hstop)
    fun e he htracked => by
      rw [(hown e he).2.2] at htracked
      cases htracked
  refine ⟨made ++ (params ++ (made' ++ ownEvents v.place v.tree)),
    Stack.bind st₂.tail (namesOf (ownEvents v.place v.tree)), ?_, ?_, ?_⟩
  · exact (hmade.append ((hmade'.append_right _).append_left params)).trans hparts.perm.symm
  · simpa only [List.append_assoc] using hbound
  · have hloopNames : loopNames v.tree = [] := if_neg hloop
    have hchildren := hpass [inside.tree]
    rw [next_depth hinside] at hpass'
    rw [Reader.passIn_body hparts.env hparts.role hpass', ← hparts.children,
      ← hloopNames] at hchildren
    rw [Reader.pass_of_passIn (Reader.skips_bounded hdepth) hcomprehension hchildren,
      Reader.bound_of_own hsourced.formed himport hloop v.place, callNodes_eq v.place.depth,
      if_neg (Nat.not_lt.2 hdepth), hparts.children, callNodesIn_eq, callNodesIn_eq]
    simp [hcall, answers]

/-- A node that opens no scope, has no arms and is no import consists of its children, in its own
scope. -/
theorem next_of_plain (tracked : Tracked.Set) (hdepth : v.place.depth ≤ depthLimit)
    (himport : isImport v.tree.kind = false)
    (hcomprehension : isComprehension v.tree.kind = false)
    (hbranch : isBranching v.tree.kind = false) (hover : scopeOver? v.tree.kind = none) :
    (v.next tracked).map Visit.tree = v.tree.children ∧
      (∀ w ∈ v.next tracked, w.place.scope = v.place.scope) ∧
        (v.found tracked).events =
          ownEvents v.place v.tree ++ (gather tracked (v.next tracked)).events := by
  have hcourse : course tracked v.place v.numbering v.tree =
      { own := ownEvents v.place v.tree
        outer := visitsAll tracked .all v.place.below v.numbering v.tree.children } :=
    course_plain himport hcomprehension hbranch hover hdepth
  have hnext : v.next tracked =
      visitsAll tracked .all v.place.below v.numbering v.tree.children := by
    rw [Visit.next, Course.next, hcourse, List.append_nil]
  refine ⟨?_, fun w hw => ?_, ?_⟩
  · rw [hnext, visitsAll_trees]
    exact List.filter_eq_self.2 fun _ _ => rfl
  · rw [hnext] at hw
    rw [mem_visitsAll hw]
    rfl
  · rw [found_events, hnext, hcourse]
    simp [gather]

/-- The parts of a loop: the walks over its target, over what it runs over, and over what is behind
that. -/
structure LoopParts (tracked : Tracked.Set) (v target iterable : Visit) (behind : List Visit) :
    Prop where
  next : v.next tracked = target :: iterable :: behind
  children : v.tree.children = target.tree :: iterable.tree :: behind.map Visit.tree
  scope : ∀ w ∈ v.next tracked, w.place.scope = v.place.scope
  left : target.tree.role ≠ some .right
  right : iterable.tree.role = some .right
  own : ∀ e ∈ ownEvents v.place v.tree, e.scope = v.place.scope ∧
    e.offset = iterable.tree.span.stop ∧ e.binding.isTracked = false
  found : (v.found tracked).events = ownEvents v.place v.tree ++
    ((target.found tracked).events ++ ((iterable.found tracked).events ++
      (gather tracked behind).events))

theorem exists_loopParts (tracked : Tracked.Set) (hsourced : Sourced v.tree)
    (hdepth : v.place.depth ≤ depthLimit) (hkind : v.tree.kind = .forStatement) :
    ∃ target iterable behind, LoopParts tracked v target iterable behind := by
  obtain ⟨htrees, hscope, hfound⟩ := next_of_plain tracked hdepth (by rw [hkind]; rfl)
    (by rw [hkind]; rfl) (by rw [hkind]; rfl) (by rw [hkind]; rfl)
  have hshape := hsourced.formed.shape (by rw [hkind]; rfl)
  rw [hkind] at hshape
  obtain ⟨left, right, rest, hcs, hleft, hright, -⟩ := hshape
  rw [hcs] at htrees
  obtain ⟨target, more, hnext, rfl, hmore⟩ := List.map_eq_cons_iff.1 htrees
  obtain ⟨iterable, behind, rfl, rfl, rfl⟩ := List.map_eq_cons_iff.1 hmore
  refine ⟨target, iterable, behind, hnext, hcs, hscope, by rw [hleft]; simp, hright,
    fun e he => ?_, ?_⟩
  · refine ⟨(ownEvents_at he).1, ?_, not_tracked_of_untracked (ownEvents_untracked _ _) he⟩
    unfold ownEvents at he
    rw [hkind] at he
    simp only [Tree.child?, hcs, List.find?_cons, hleft, hright] at he
    exact (mem_untracked he).2.1
  · rw [hfound, hnext]
    simp [gather]

/-- What a walk over a loop finds, in the order in which a pass over the loop binds it. -/
theorem LoopParts.perm {target iterable : Visit} {behind : List Visit}
    (hparts : LoopParts tracked v target iterable behind) :
    (v.found tracked).events.Perm ((target.found tracked).events ++
      ((iterable.found tracked).events ++
        (ownEvents v.place v.tree ++ (gather tracked behind).events))) := by
  have hmove : (ownEvents v.place v.tree ++ ((target.found tracked).events ++
      (iterable.found tracked).events)).Perm ((target.found tracked).events ++
        (iterable.found tracked).events ++ ownEvents v.place v.tree) := List.perm_append_comm
  rw [hparts.found]
  simpa only [List.append_assoc] using hmove.append_right (gather tracked behind).events

/-- A pass over a loop from the passes over its parts. -/
theorem LoopParts.pass {target iterable : Visit} {behind : List Visit} {st₁ st₂ st₃ : Stack}
    (hparts : LoopParts tracked v target iterable behind) (hkind : v.tree.kind = .forStatement)
    (hdepth : v.place.depth ≤ depthLimit)
    (htarget : (Reader.bounded tracked).pass target.place.depth st target.tree =
      (st₁, answers tracked t (callNodes target.place.depth target.tree)))
    (hiterable : (Reader.bounded tracked).pass iterable.place.depth st₁ iterable.tree =
      (st₂, answers tracked t (callNodes iterable.place.depth iterable.tree)))
    (hbehind : (Reader.bounded tracked).passIn (v.place.depth + 1) v.tree []
        (st₂.bind (namesOf (ownEvents v.place v.tree))) (behind.map Visit.tree) =
      (st₃, answers tracked t (callNodesIn (v.place.depth + 1) (behind.map Visit.tree)))) :
    (Reader.bounded tracked).pass v.place.depth st v.tree =
      (st₃, answers tracked t (callNodes v.place.depth v.tree)) := by
  have hbodies : ∀ c, bodyEnv? v.tree c = none := Reader.bodyEnv?_of_kind (by rw [hkind]; rfl)
  obtain ⟨hnext, hnext'⟩ : target ∈ v.next tracked ∧ iterable ∈ v.next tracked := by
    rw [hparts.next]
    simp
  rw [next_depth hnext] at htarget
  rw [next_depth hnext'] at hiterable
  -- The names are bound between the passes over the second part and over those behind it.
  have hpassIn : (Reader.bounded tracked).passIn (v.place.depth + 1) v.tree (loopNames v.tree) st
      v.tree.children =
        (st₃, answers tracked t (callNodesIn (v.place.depth + 1) v.tree.children)) := by
    rw [hparts.children, Reader.passIn_cons (hbodies _) (.inr hparts.left), htarget]
    dsimp only
    rw [Reader.passIn_right (hbodies _) hparts.right, hiterable,
      Reader.loopNames_of_own hkind v.place]
    dsimp only
    rw [hbehind, callNodesIn, callNodesIn, answers_append, answers_append]
  rw [Reader.pass_of_passIn (Reader.skips_bounded hdepth) (by rw [hkind]; rfl) hpassIn,
    Reader.bound_of_loop hkind, callNodes_eq, if_neg (Nat.not_lt.2 hdepth)]
  simp [hkind]

include ht hv hdepth ih in
/-- A loop binds its names behind what it runs over. -/
theorem follows_loop (hkind : v.tree.kind = .forStatement) : Follows tracked t v := by
  intro done later st h hbefore hbehind
  have hsourced := ht.node hv.isNode
  obtain ⟨target, iterable, behind, hparts⟩ := exists_loopParts tracked hsourced hdepth hkind
  obtain ⟨htarget, hiterable, hrest⟩ : target ∈ v.next tracked ∧ iterable ∈ v.next tracked ∧
      ∀ w ∈ behind, w ∈ v.next tracked := by
    rw [hparts.next]
    simp +contextual
  have hspans : (v.next tracked).Pairwise fun v w => v.tree.span.stop ≤ w.tree.span.start :=
    next_spans hsourced
  have hnumbers : (v.next tracked).Pairwise fun v w => (v.end tracked).Le w.numbering :=
    next_pairwise
  rw [hparts.next] at hspans hnumbers
  simp only [List.pairwise_cons, List.forall_mem_cons] at hspans hnumbers
  obtain ⟨⟨hspan, -⟩, hspans, -⟩ := hspans
  obtain ⟨⟨hnumber, hnumbers⟩, hnumbers', -⟩ := hnumbers
  have hle := (ht.node (hv.next hiterable).isNode).le
  have hgather : ∀ e ∈ (gather tracked behind).events, iterable.tree.span.stop ≤ e.offset :=
    gather_behind ht hv hrest hspans
  -- The target, and what the loop runs over: the names of the loop are still to be bound.
  have hall := h.perm_rest (hparts.perm.append_right later)
  simp only [List.append_assoc] at hall
  obtain ⟨made, st₁, hmade, harrived, hpass⟩ := ih target htarget (hv.next htarget) done _ st
    (by rw [hparts.scope target htarget]; exact hall) (before_next ht hv htarget hbefore)
    fun e he => by
      simp only [List.mem_append] at he
      rcases he with he | he | he | he
      · exact Nat.le_trans hspan (((hv.next hiterable).sound ht).holds e he).start
      · rw [(hparts.own e he).2.1]
        exact Nat.le_trans hspan hle
      · exact Nat.le_trans hspan (Nat.le_trans hle (hgather e he))
      · exact behind_next ht hv htarget hbehind e he
  rw [hparts.scope target htarget, ← hparts.scope iterable hiterable] at harrived
  have hdone : ∀ e ∈ done ++ made, e.offset ≤ iterable.tree.span.start ∧
      e.scope < iterable.numbering.scope :=
    List.forall_mem_append.2 ⟨before_next ht hv hiterable hbefore,
      (hv.next htarget).before_of_found ht hspan hnumber hmade⟩
  obtain ⟨made', st₂, hmade', harrived', hpass'⟩ := ih iterable hiterable (hv.next hiterable) _ _ _
    harrived hdone fun e he => by
      simp only [List.mem_append] at he
      rcases he with he | he | he
      · exact Nat.le_of_eq (hparts.own e he).2.1.symm
      · exact hgather e he
      · exact behind_next ht hv hiterable hbehind e he
  rw [hparts.scope iterable hiterable] at harrived'
  have hmost : ∀ e ∈ done ++ made ++ made', e.offset ≤ iterable.tree.span.stop := fun e he => by
    rcases List.mem_append.1 he with he | he
    · exact Nat.le_trans (hdone e he).1 hle
    · exact (((hv.next hiterable).sound ht).holds e (hmade'.mem_iff.1 he)).stop
  have hbound := harrived'.bind ht.ordered (fun e he => (hparts.own e he).1)
    (fun e he => (hparts.own e he).2.1) hmost fun e he htracked => by
      rw [(hparts.own e he).2.2] at htracked
      cases htracked
  -- What is behind.
  obtain ⟨made'', st₃, hmade'', harrived'', hpass''⟩ := follows_all ht hv ih
    (by rw [hparts.next]; exact ((List.Sublist.refl behind).cons _).cons _)
    (fun w hw => hparts.scope w (hrest w hw))
    (fun w _ => ⟨Reader.bodyEnv?_of_kind (by rw [hkind]; rfl) _, .inl rfl⟩) hbound
    (fun w hw => by
      simp only [List.forall_mem_append]
      refine ⟨⟨⟨before_next ht hv (hrest w hw) hbefore, ?_⟩, ?_⟩, fun e he => ?_⟩
      · exact (hv.next htarget).before_of_found ht (Nat.le_trans hspan
          (Nat.le_trans hle (hspans w hw))) (hnumbers w hw) hmade
      · exact (hv.next hiterable).before_of_found ht (hspans w hw) (hnumbers' w hw) hmade'
      · obtain ⟨hscope, hoffset, -⟩ := hparts.own e he
        have hscopes := (hv.sound ht).scope
        have hle := (next_le (hrest w hw)).1.scope
        have hspan := hspans w hw
        omega)
    fun w hw => behind_next ht hv (hrest w hw) hbehind
  refine ⟨made ++ (made' ++ (ownEvents v.place v.tree ++ made'')), st₃,
    (hmade.append (hmade'.append (hmade''.append_left _))).trans hparts.perm.symm, ?_, ?_⟩
  · simpa only [List.append_assoc] using harrived''
  · have hbehind := hpass'' []
    rw [List.append_nil] at hbehind
    exact hparts.pass hkind hdepth hpass hpass' (by simpa [Reader.passIn] using hbehind)

include ht hv hdepth ih in
/-- Any other node binds its names at its end. -/
theorem follows_plain (hfree : Unbranched t) (himport : isImport v.tree.kind = false)
    (hcomprehension : isComprehension v.tree.kind = false)
    (hbranch : isBranching v.tree.kind = false) (hover : scopeOver? v.tree.kind = none)
    (hloop : v.tree.kind ≠ .forStatement) :
    Follows tracked t v := by
  intro done later st h hbefore hbehind
  have hsourced := ht.node hv.isNode
  obtain ⟨htrees, hscope, hfound⟩ := next_of_plain tracked hdepth himport hcomprehension
    hbranch hover
  have hown := fun e (he : e ∈ ownEvents v.place v.tree) => own_at_stop hsourced hloop he
  have hloopNames : loopNames v.tree = [] := if_neg hloop
  have hcall : v.tree.kind = .call →
      st.callee? tracked v.tree = callee? (resolve tracked t) v.tree :=
    h.callee?_eq ht hfree hv (fun e he => (hbefore e he).1) hbehind
  rw [hfound] at h
  -- The walk lists the bindings of the node first, but they hold behind those of its children.
  have hperm : (ownEvents v.place v.tree ++ (gather tracked (v.next tracked)).events ++ later).Perm
      ((gather tracked (v.next tracked)).events ++ (ownEvents v.place v.tree ++ later)) :=
    (List.perm_append_comm.append_right later).trans (.of_eq (List.append_assoc ..))
  obtain ⟨made, st', hmade, harrived, hpass⟩ := follows_all ht hv ih
    (List.Sublist.refl _) hscope (fun w _ => ⟨Reader.bodyEnv?_of_kind hover _, .inl hloopNames⟩)
    (h.perm_rest hperm) (fun w hw => before_next ht hv hw hbefore) fun w hw e he => by
      rcases List.mem_append.1 he with he | he
      · rw [(hown e he).2.1]
        exact (hsourced.within (next_isNode hw)).stop
      · exact behind_next ht hv hw hbehind e he
  have hbound := harrived.bind ht.ordered (fun e he => (hown e he).1) (fun e he => (hown e he).2.1)
    (fun e he => by
      rcases List.mem_append.1 he with he | he
      · exact Nat.le_trans (hbefore e he).1 hsourced.le
      · have hmem : e ∈ (v.found tracked).events := by
          rw [hfound]
          exact List.mem_append_right _ (hmade.mem_iff.1 he)
        exact ((hv.sound ht).holds e hmem).stop)
    fun e he htracked => by
      rw [(hown e he).2.2] at htracked
      cases htracked
  refine ⟨made ++ ownEvents v.place v.tree, st'.bind (namesOf (ownEvents v.place v.tree)), ?_, ?_, ?_⟩
  · rw [hfound]
    exact (hmade.append_right _).trans List.perm_append_comm
  · rw [← List.append_assoc]
    exact hbound
  · have hchildren := hpass []
    rw [List.append_nil, htrees] at hchildren
    rw [Reader.pass_of_passIn (Reader.skips_bounded hdepth) hcomprehension hchildren,
      Reader.bound_of_own hsourced.formed himport hloop v.place, callNodes_eq,
      if_neg (Nat.not_lt.2 hdepth)]
    by_cases hkind : v.tree.kind = .call
    · simp [hkind, Reader.passIn, Reader.bounded, hcall hkind, answers]
    · simp [hkind, Reader.passIn, answers]

end Nodes

/-- Passes follow the walks of a text without branching statements. -/
theorem Visited.follows (ht : Sourced t) (hfree : Unbranched t) (v : Visit) :
    Visited tracked t v → Follows tracked t v := by
  refine Visit.induction tracked (P := fun v => Visited tracked t v → Follows tracked t v)
    (fun v ih hv => ?_) v
  by_cases hdepth : depthLimit < v.place.depth
  · exact follows_deep hdepth
  have hdepth := Nat.le_of_not_lt hdepth
  cases himport : isImport v.tree.kind with
  | true => exact follows_import ht hv hdepth himport
  | false =>
      cases hcomprehension : isComprehension v.tree.kind with
      | true => exact follows_comprehension ht hv hdepth ih hcomprehension
      | false =>
          cases hover : scopeOver? v.tree.kind with
          | some kind => exact follows_body ht hv hdepth ih hover
          | none =>
              by_cases hloop : v.tree.kind = .forStatement
              · exact follows_loop ht hv hdepth ih hloop
              · exact follows_plain ht hv hdepth ih hfree himport hcomprehension
                  (hfree v.tree hv.isNode) hover hloop

/-! ## Readings -/

/-- The call of a tracked module that a call is read as, if it is read as one. -/
def Reading.call? (source : List Char) (x : Reading) : Option Edit.Call :=
  x.2.map fun (place, command) => ⟨place, command, x.1.span, keywords source x.1⟩

/-- Before anything is read, the module is open and binds no names. -/
theorem Arrived.start (tracked : Tracked.Set) (t : Tree) :
    Arrived tracked t [] ((wholeVisit t).found tracked).events [⟨.module, []⟩] 0 where
  perm := .refl _
  sorted := .nil
  tied := .nil _
  represents := by
    have hframe : (framesOf tracked t)[0]? = some (moduleFrame t) := rfl
    exact .outermost hframe rfl

/-- In a text without branching statements the recorded bindings and their offsets say of each call
at which the search arrives what a reading in the order of the text says, and the calls of tracked
modules are those that are read as such. -/
theorem readings_refined (tracked : Tracked.Set) {source : List Char}
    (h : parseChecked source = .ok t) (hfree : Unbranched t) :
    (Reader.bounded tracked).readings t =
        (callNodes 0 t).map (fun w => (w, callee? (resolve tracked t) w)) ∧
      calls source (resolve tracked t) t =
        ((Reader.bounded tracked).readings t).filterMap (Reading.call? source) := by
  have hreadings : (Reader.bounded tracked).readings t = answers tracked t (callNodes 0 t) := by
    obtain ⟨made, st, -, -, hpass⟩ := Visited.follows (sourced_of_parseChecked h) hfree (wholeVisit t)
      .whole [] [] [⟨.module, []⟩] (by rw [List.append_nil]; exact .start tracked t)
      (fun e he => nomatch he) fun e he => nomatch he
    exact congrArg Prod.snd hpass
  refine ⟨hreadings, ?_⟩
  rw [hreadings, answers, List.filterMap_map, calls, callsAt_eq]
  refine List.filterMap_congr fun w hw => ?_
  rw [call?, if_pos (mem_callNodes.1 hw).2]
  cases hcallee : callee? (resolve tracked t) w with
  | none => simp [Reading.call?, hcallee]
  | some found => simp [Reading.call?, hcallee]

/-- A parameter with the name of an import, whose default is from before it, and a class that binds the
name anew. -/
def shadowed : List Char :=
  ("from maya import cmds\ndef f(cmds=cmds.ls(l=1)):\n    cmds.ls(l=2)\n" ++
    "class A:\n    cmds = cmds.ls(l=3)\n").toList

/-- The call in the body of the function is of the parameter. -/
theorem readings_refined_shadowed : ∃ t, parseChecked shadowed = .ok t ∧ Unbranched t ∧
    (callNodes 0 t).map (callee? (resolve mayaCmds t)) = [some (0, "ls"), none, some (0, "ls")] ∧
    (calls shadowed (resolve mayaCmds t) t).map (fun call => call.span) = [⟨33, 45⟩, ⟨85, 97⟩] := by
  obtain ⟨hfaultless, hbranchless, hread, hcalls⟩ : (parse shadowed).firstFault? 0 = none ∧
      branchless (parse shadowed) = true ∧
      ((Reader.bounded mayaCmds).readings (parse shadowed)).map Prod.snd =
        [some (0, "ls"), none, some (0, "ls")] ∧
      (((Reader.bounded mayaCmds).readings (parse shadowed)).filterMap
        (Reading.call? shadowed)).map (fun call => call.span) = [⟨33, 45⟩, ⟨85, 97⟩] := by
    decide +kernel
  have hsource := parseChecked_of_faultless hfaultless
  have hfree := unbranched_of_branchless hbranchless
  obtain ⟨hreadings, hfound⟩ := readings_refined mayaCmds hsource hfree
  refine ⟨parse shadowed, hsource, hfree, ?_, ?_⟩
  · rw [← hread, hreadings, List.map_map]
    rfl
  · rw [hfound]
    exact hcalls

/-- An assignment expression rebinds an import. -/
def rebinding : List Char :=
  "from maya import cmds\n(cmds := 1)\ncmds.ls(l=1)\n".toList

/-- A tree with its second statement inside others. -/
def deepened (t : Tree) (n : Nat) : Tree :=
  .node t.kind t.role t.span t.text (t.children.modify 1 fun u => nested u n)

/-- A reading that takes an import from `__future__` for one says otherwise, and so does one that looks
at nodes which are too deep in the tree. -/
theorem whole_readings_differ :
    (∃ t, parseChecked futureImport = .ok t ∧ Unbranched t ∧
      ((Reader.whole futureModule).readings t).map Prod.snd = [some (0, "f")] ∧
      (callNodes 0 t).map (callee? (resolve futureModule t)) = [none]) ∧
    ∃ t, parseChecked rebinding = .ok t ∧
      Unbranched (deepened t 511) ∧
      ((Reader.whole mayaCmds).readings (deepened t 511)).map Prod.snd = [none] ∧
      (callNodes 0 (deepened t 511)).map (callee? (resolve mayaCmds (deepened t 511))) =
        [some (0, "ls")] ∧
      (callNodes 0 (deepened t 510)).map (callee? (resolve mayaCmds (deepened t 510))) = [none] := by
  constructor
  · obtain ⟨hfaultless, hbranchless, hdiffer⟩ : (parse futureImport).firstFault? 0 = none ∧
        branchless (parse futureImport) = true ∧
        ((Reader.whole futureModule).readings (parse futureImport)).map Prod.snd =
          [some (0, "f")] ∧
        (callNodes 0 (parse futureImport)).map
          (callee? (resolve futureModule (parse futureImport))) = [none] := by
      decide +kernel
    exact ⟨_, parseChecked_of_faultless hfaultless, unbranched_of_branchless hbranchless, hdiffer⟩
  · obtain ⟨hfaultless, hbranchless, hdiffer⟩ : (parse rebinding).firstFault? 0 = none ∧
        branchless (deepened (parse rebinding) 511) = true ∧
        ((Reader.whole mayaCmds).readings (deepened (parse rebinding) 511)).map Prod.snd = [none] ∧
        (callNodes 0 (deepened (parse rebinding) 511)).map
          (callee? (resolve mayaCmds (deepened (parse rebinding) 511))) = [some (0, "ls")] ∧
        (callNodes 0 (deepened (parse rebinding) 510)).map
          (callee? (resolve mayaCmds (deepened (parse rebinding) 510))) = [none] := by
      decide +kernel
    exact ⟨_, parseChecked_of_faultless hfaultless, unbranched_of_branchless hbranchless, hdiffer⟩

end Longhand.Scope
