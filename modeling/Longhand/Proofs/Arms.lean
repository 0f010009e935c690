import Longhand.Proofs.Located

/-!
# Arms of one statement

Two bindings in arms of one branching statement have the same arms around that statement.  A binding
of the same scope between them was made in an arm of the statement too.
-/

namespace Longhand.Scope

open Syntax Text

variable {tracked : Tracked.Set} {p : Place} {n : Numbering} {t : Tree} {e f : Event}
  {a b : Arm} {v w w' : Visit}

/-! ## Visits of one walk -/

/-- Two arms of a nested list with one statement are the same. -/
theorem Nested.eq {arms : List Arm} (h : Nested arms) (ha : a ∈ arms) (hb : b ∈ arms)
    (hab : a.statement = b.statement) : a = b := by
  rcases pairwise_cases h ha hb with heq | hlt | hlt
  · exact heq
  · have := hlt.1
    omega
  · have := hlt.1
    omega

/-- The scope of a walk in a course is not among those that another walk of the course opens. -/
theorem next_scope (hp : p.scope < n.scope) (hw : w ∈ (course tracked p n t).next)
    (hw' : w' ∈ (course tracked p n t).next) :
    w'.place.scope < w.numbering.scope ∨ (w.end tracked).scope ≤ w'.place.scope := by
  have hle := (next_le hw).1.scope
  rcases next_place hw' with hplace | ⟨-, number, hplace⟩ | ⟨-, hopened, hplace⟩
  · left
    rw [hplace]
    exact Nat.lt_of_lt_of_le hp hle
  · left
    rw [hplace]
    exact Nat.lt_of_lt_of_le hp hle
  · rw [hplace]
    rcases List.mem_append.1 hw with hw | hw
    · exact .inr (outer_le_fresh hw)
    · exact .inl (fresh_lt hw hopened)

/-- Bindings of one scope that different walks of a course find belong to the scope in which these
walks begin. -/
theorem scope_of_apart (hv : v.Sound) (hw : w ∈ v.next tracked) (hw' : w' ∈ v.next tracked)
    (hne : w ≠ w') (he : e ∈ (w.found tracked).events) (hf : f ∈ (w'.found tracked).events)
    (hscope : e.scope = f.scope) : e.scope = w.place.scope ∧ f.scope = w'.place.scope := by
  have hne' : (w.end tracked).Le w'.numbering ∨ (w'.end tracked).Le w.numbering :=
    (pairwise_cases next_pairwise hw hw').resolve_left hne
  have h := next_scope hv.scope hw hw'
  have h' := next_scope hv.scope hw' hw
  rcases ((hv.next hw).holds e he).scope with he | he
  · rcases ((hv.next hw').holds f hf).scope with hf | hf
    · exact ⟨he, hf⟩
    · omega
  · rcases ((hv.next hw').holds f hf).scope with hf | hf
    · omega
    · rcases hne' with hle | hle
      · have := hle.scope
        omega
      · have := hle.scope
        omega

/-! ## The arms around a statement -/

/-- A binding with an arm of a statement inside a node is found by a walk inside the node. -/
theorem exists_next (hv : v.Sound) (he : e ∈ (v.found tracked).events) (ha : a ∈ e.arms)
    (hlow : v.numbering.statement ≤ a.statement) :
    ∃ w ∈ v.next tracked, e ∈ (w.found tracked).events := by
  have old : e.arms ≠ v.place.arms := by
    intro harms
    rw [harms] at ha
    have := hv.statement a ha
    omega
  rcases mem_walk_events.1 he with he | he | ⟨w, hw, he⟩
  · exact absurd (own_at hv.sourced he).1.2 old
  · exact absurd (opened_at hv.sourced he).1 old
  · exact ⟨w, hw, he⟩

/-- An arm of a statement inside a node is the arm of the node in which a walk begins, or its
statement is inside the part that is walked over. -/
theorem new_or_inside (hv : v.Sound) (hw : w ∈ v.next tracked)
    (he : e ∈ (w.found tracked).events) (ha : a ∈ e.arms)
    (hlow : v.numbering.statement ≤ a.statement) :
    (isBranching v.tree.kind = true ∧ a.statement = v.numbering.statement ∧
        w.place.arms = v.place.arms ++ [a] ∧ a.region = w.tree.span) ∨
      (w.numbering.statement ≤ a.statement ∧ a.statement < (w.end tracked).statement ∧
        (isBranching v.tree.kind = true → v.numbering.statement < a.statement)) := by
  obtain ⟨extra, harms, hextra⟩ := ((hv.next hw).holds e he).arms
  have old : a ∉ v.place.arms := by
    intro ha
    have := hv.statement a ha
    omega
  rw [harms] at ha
  rcases List.mem_append.1 ha with ha | ha
  · rcases next_place hw with hplace | ⟨hkind, number, hplace⟩ | ⟨-, -, hplace⟩
    · rw [hplace] at ha
      exact absurd ha old
    · rw [hplace] at ha ⊢
      rcases List.mem_append.1 ha with ha | ha
      · exact absurd ha old
      · rw [List.mem_singleton.1 ha]
        exact .inl ⟨hkind, rfl, rfl, rfl⟩
    · rw [hplace] at ha
      exact absurd ha old
  · obtain ⟨hlow, hhigh⟩ := hextra a ha
    exact .inr ⟨hlow, hhigh, fun hkind => Nat.lt_of_lt_of_le (next_statement_lt hkind hw) hlow⟩

/-- Two walks of a course whose bindings have arms of one statement inside them are the same. -/
theorem eq_of_inside (hw : w ∈ v.next tracked) (hw' : w' ∈ v.next tracked) {k : Nat}
    (hlow : w.numbering.statement ≤ k) (hhigh : k < (w.end tracked).statement)
    (hlow' : w'.numbering.statement ≤ k) (hhigh' : k < (w'.end tracked).statement) : w = w' := by
  rcases pairwise_cases next_pairwise hw hw' with heq | hle | hle
  · exact heq
  · have := hle.statement
    omega
  · have := hle.statement
    omega

/-- Two bindings in arms of one statement have the same arms around that statement. -/
theorem same_around (hv : v.Sound) : ∀ {e f : Event} {a b : Arm}, e ∈ (v.found tracked).events →
    f ∈ (v.found tracked).events → a ∈ e.arms → b ∈ f.arms → a.statement = b.statement →
      ∃ around rest rest', e.arms = around ++ a :: rest ∧ f.arms = around ++ b :: rest' := by
  refine hv.induction tracked (P := fun v => ∀ {e f : Event} {a b : Arm},
    e ∈ (v.found tracked).events → f ∈ (v.found tracked).events → a ∈ e.arms → b ∈ f.arms →
      a.statement = b.statement →
        ∃ around rest rest', e.arms = around ++ a :: rest ∧ f.arms = around ++ b :: rest') ?_
  intro v hv ih e f a b he hf ha hb hab
  obtain ⟨extra, harms, hextra⟩ := (hv.holds e he).arms
  obtain ⟨extra', harms', hextra'⟩ := (hv.holds f hf).arms
  by_cases hold : a.statement < v.numbering.statement
  · -- The statement is around the node, and so the arm is the same one.
    have mem : ∀ {c : Arm} {l : List Arm}, c ∈ v.place.arms ++ l → (∀ d ∈ l,
        v.numbering.statement ≤ d.statement ∧ d.statement < (v.end tracked).statement) →
        c.statement = a.statement → c ∈ v.place.arms := by
      intro c l hc hl hca
      rcases List.mem_append.1 hc with hc | hc
      · exact hc
      · have := (hl c hc).1
        omega
    have ha' := mem (harms ▸ ha) hextra rfl
    have hb' := mem (harms' ▸ hb) hextra' hab.symm
    have heq := hv.nested.eq ha' hb' hab
    subst heq
    obtain ⟨around, rest, hsplit⟩ := List.append_of_mem ha'
    exact ⟨around, rest ++ extra, rest ++ extra', by simp [harms, hsplit],
      by simp [harms', hsplit]⟩
  · have hlow : v.numbering.statement ≤ a.statement := by omega
    obtain ⟨w, hw, he⟩ := exists_next hv he ha hlow
    obtain ⟨w', hw', hf⟩ := exists_next hv hf hb (hab ▸ hlow)
    rcases new_or_inside hv hw he ha hlow with ⟨hkind, hnew, hplace, -⟩ | ⟨hlow₁, hhigh₁, hlt⟩
    · rcases new_or_inside hv hw' hf hb (hab ▸ hlow) with ⟨-, -, hplace', -⟩ | ⟨-, -, hlt⟩
      · obtain ⟨rest, hrest, -⟩ := ((hv.next hw).holds e he).arms
        obtain ⟨rest', hrest', -⟩ := ((hv.next hw').holds f hf).arms
        exact ⟨v.place.arms, rest, rest', by simp [hrest, hplace], by simp [hrest', hplace']⟩
      · have := hlt hkind
        omega
    · rcases new_or_inside hv hw' hf hb (hab ▸ hlow) with ⟨hkind, hnew, -, -⟩ | ⟨hlow₂, hhigh₂, -⟩
      · have := hlt hkind
        omega
      · have heq := eq_of_inside hw hw' hlow₁ hhigh₁ (hab ▸ hlow₂) (hab ▸ hhigh₂)
        subst heq
        exact ih w hw he hf ha hb hab

/-! ## The arms of a statement come one after the other -/

theorem visitsArms_append (tracked : Tracked.Set) (p : Place) (n : Numbering) (kind : Kind)
    (statement next : Nat) (ts us : List Tree) :
    ∃ n' next', visitsArms tracked kind statement p n next (ts ++ us) =
      visitsArms tracked kind statement p n next ts ++
        visitsArms tracked kind statement p n' next' us := by
  induction ts generalizing n next with
  | nil => exact ⟨n, next, rfl⟩
  | cons t rest ih =>
      simp only [List.cons_append, visitsArms]
      obtain ⟨n', next', heq⟩ := @ih
        (n.after (gather tracked (visitsPart tracked kind statement p n next t)))
        (if (armOf? kind next t).any (· = next) then next + 1 else next)
      exact ⟨n', next', by rw [heq, List.append_assoc]⟩

/-- Parts that are arms are visited as such. -/
theorem visitsArms_arms {kind : Kind} {statement next : Nat} {ts : List Tree}
    (h : ∀ t ∈ ts, ¬ (kind = .matchStatement ∧ t.role = some .body) ∧
      ∀ next, (armOf? kind next t).isSome = true)
    (hw : w ∈ visitsArms tracked kind statement p n next ts) :
    ∃ number, w.place = p.arm statement number w.tree := by
  induction ts generalizing n next with
  | nil => cases hw
  | cons t rest ih =>
      rw [visitsArms] at hw
      rcases List.mem_append.1 hw with hw | hw
      · obtain ⟨hmatch, hsome⟩ := h t List.mem_cons_self
        unfold visitsPart at hw
        rw [if_neg (by simpa using hmatch)] at hw
        split at hw
        · rw [List.mem_singleton.1 hw]
          exact ⟨_, rfl⟩
        · rename_i hnone
          have := hsome next
          rw [hnone] at this
          cases this
      · exact ih (fun t ht => h t (List.mem_cons_of_mem _ ht)) hw

/-- Parts that are no arms are visited at the place itself. -/
theorem visitsArms_beside {kind : Kind} {statement next : Nat} {ts : List Tree}
    (h : ∀ t ∈ ts, ¬ (kind = .matchStatement ∧ t.role = some .body) ∧
      ∀ next, armOf? kind next t = none)
    (hw : w ∈ visitsArms tracked kind statement p n next ts) :
    w.place = p := by
  induction ts generalizing n next with
  | nil => cases hw
  | cons t rest ih =>
      rw [visitsArms] at hw
      rcases List.mem_append.1 hw with hw | hw
      · obtain ⟨hmatch, hnone⟩ := h t List.mem_cons_self
        unfold visitsPart at hw
        rw [if_neg (by simpa using hmatch), hnone next] at hw
        rw [List.mem_singleton.1 hw]
      · exact ih (fun t ht => h t (List.mem_cons_of_mem _ ht)) hw

/-- All cases are visited as arms. -/
theorem visitsCases_arms {statement next : Nat} {ts : List Tree}
    (h : ∀ t ∈ ts, t.kind = .caseClause) (hw : w ∈ visitsCases tracked statement p n next ts) :
    ∃ number, w.place = p.arm statement number w.tree := by
  induction ts generalizing n next with
  | nil => cases hw
  | cons t rest ih =>
      rw [visitsCases] at hw
      rcases List.mem_cons.1 hw with rfl | hw
      · exact ⟨next, if_pos (h t List.mem_cons_self)⟩
      · exact ih (fun t ht => h t (List.mem_cons_of_mem _ ht)) hw

/-- An expression is no arm. -/
theorem armOf?_plain {kind : Kind} {next : Nat} {t : Tree} (h : Plain t) (hrole : t.role = none) :
    armOf? kind next t = none := by
  have hkind := h.isStatement
  have hne : ∀ {k : Kind}, k.isStatement = true → t.kind ≠ k := by
    intro k hk heq
    rw [heq, hk] at hkind
    cases hkind
  unfold armOf?
  split
  · simp [hrole, hne (k := .elifClause) rfl, hne (k := .elseClause) rfl]
  · simp [hrole, hne (k := .exceptClause) rfl, hne (k := .elseClause) rfl]
  · simp [hne (k := .caseClause) rfl]

/-- The parts of a branching statement that are no arms come before all arms or behind them. -/
theorem exists_arms (tracked : Tracked.Set) (p : Place) (n : Numbering) (ht : Sourced t)
    (hkind : isBranching t.kind = true) (statement : Nat) :
    ∃ before arms behind, visitsArms tracked t.kind statement p n 1 t.children =
      before ++ (arms ++ behind) ∧ (before = [] ∨ behind = []) ∧
        (∀ w ∈ before ++ behind, w.place = p) ∧
        ∀ w ∈ arms, ∃ number, w.place = p.arm statement number w.tree := by
  unfold isBranching at hkind
  split at hkind
  · -- The condition comes first, and all other parts are arms.
    rename_i hif
    have hshape := ht.formed.shape (by rw [hif]; rfl)
    rw [hif] at hshape ⊢
    obtain ⟨condition, first, rest, hcs, hplain, hnone, hfirst, hrest⟩ := hshape
    obtain ⟨n', next', heq⟩ :=
      visitsArms_append tracked p n .ifStatement statement 1 [condition] (first :: rest)
    refine ⟨_, _, [], by rw [hcs, List.append_nil]; exact heq, .inr rfl, fun w hw => ?_,
      fun w hw => ?_⟩
    · rw [List.append_nil] at hw
      refine visitsArms_beside (fun t ht => ⟨by simp, fun next => ?_⟩) hw
      rw [List.mem_singleton.1 ht]
      exact armOf?_plain hplain hnone
    · refine visitsArms_arms (fun t ht => ⟨by simp, fun next => ?_⟩) hw
      rcases List.mem_cons.1 ht with rfl | ht
      · simp [armOf?, hfirst]
      · by_cases hrole : t.role = some .consequence
        · simp [armOf?, hrole]
        · rcases hrest t ht with hk | hk
          · simp [armOf?, hrole, hk]
          · simp [armOf?, hrole, hk]
  · -- Only a clause that always runs is no arm, and it comes last.
    rename_i htry
    have hshape := ht.formed.shape (by rw [htry]; rfl)
    rw [htry] at hshape ⊢
    obtain ⟨body, clauses, final, hcs, hbody, hclauses, hfinal⟩ := hshape
    obtain ⟨n', next', heq⟩ :=
      visitsArms_append tracked p n .tryStatement statement 1 (body :: clauses) final
    refine ⟨[], _, _, by rw [hcs, List.nil_append]; exact heq, .inl rfl, fun w hw => ?_,
      fun w hw => ?_⟩
    · refine visitsArms_beside (fun t ht => ⟨by simp, fun next => ?_⟩) hw
      obtain ⟨hk, hrole⟩ := hfinal t ht
      simp [armOf?, hk, hrole]
    · refine visitsArms_arms (fun t ht => ⟨by simp, fun next => ?_⟩) hw
      rcases List.mem_cons.1 ht with rfl | ht
      · simp [armOf?, hbody]
      · rcases hclauses t ht with hk | hk
        · by_cases hrole : t.role = some .body
          · simp [armOf?, hrole]
          · simp [armOf?, hk, hrole]
        · simp [armOf?, hk]
  · -- The subjects come first, and all parts of the block are cases.
    rename_i hmatch
    have hshape := ht.formed.shape (by rw [hmatch]; rfl)
    rw [hmatch] at hshape ⊢
    obtain ⟨subjects, block, hcs, hsubjects, hrole, -, hcases⟩ := hshape
    obtain ⟨n', next', heq⟩ :=
      visitsArms_append tracked p n .matchStatement statement 1 subjects [block]
    refine ⟨_, _, [], by rw [hcs, List.append_nil]; exact heq, .inr rfl, fun w hw => ?_,
      fun w hw => ?_⟩
    · rw [List.append_nil] at hw
      refine visitsArms_beside (fun t ht => ⟨by simp [(hsubjects t ht).2], fun next => ?_⟩) hw
      exact armOf?_plain (hsubjects t ht).1 (hsubjects t ht).2
    · simp only [visitsArms, visitsPart, hrole, List.append_nil, decide_true, Bool.and_self,
        if_true] at hw
      exact visitsCases_arms hcases hw
  · cases hkind

/-! ## Bindings between two arms -/

theorem course_of_branching (hkind : isBranching t.kind = true)
    (hw : w ∈ (course tracked p n t).next) :
    course tracked p n t = branchCourse tracked p n t :=
  course_branching hkind (depth_le_of_next hw)

theorem course_of_scope {k : ScopeKind} (hk : scopeOver? t.kind = some k)
    (hw : w ∈ (course tracked p n t).next) :
    course tracked p n t = bodyCourse tracked p n t k :=
  course_scope hk (depth_le_of_next hw)

theorem gather_statements {vs : List Visit} (h : ∀ w ∈ vs, (w.found tracked).statements = 0) :
    (gather tracked vs).statements = 0 := by
  induction vs with
  | nil => rfl
  | cons w rest ih =>
      rw [gather, Findings.append_statements, h w List.mem_cons_self,
        ih fun w' hw' => h w' (List.mem_cons_of_mem _ hw')]

/-- Only a branching statement is counted. -/
theorem opened_statements (hkind : isBranching t.kind = false) :
    (course tracked p n t).opened.statements = 0 := by
  refine course_ind (P := fun c => c.opened.statements = 0) rfl (fun _ => rfl) (fun _ => rfl) ?_
    ?_ (fun _ _ _ => rfl) (fun _ _ _ _ => rfl)
  · intro h
    rw [hkind] at h
    cases h
  · intro k b hk hb
    simp only [bodyCourse, hb]

/-- All nodes of an expression are expressions. -/
theorem plain_of_isNode {u : Tree} (h : Plain t) (hu : IsNode u t) : Plain u := by
  induction hu with
  | self => exact h
  | inside hmem _ ih => exact ih (h.child hmem)

/-- A branching statement is a statement. -/
theorem not_branching_of_plain (h : Plain t) : isBranching t.kind = false := by
  have hkind := h.isStatement
  unfold isBranching
  split
  all_goals first
    | rfl
    | rename_i heq
      rw [heq] at hkind
      cases hkind

/-- No branching statement is inside an expression. -/
theorem statements_of_plain {p : Place} {n : Numbering} {t : Tree} (h : Plain t) :
    (walk tracked p n t).statements = 0 := by
  have hvisits : ∀ w ∈ (course tracked p n t).next, (w.found tracked).statements = 0 := by
    intro w hw
    have hw' := plain_of_isNode h (next_isNode hw)
    have := next_sizeOf hw
    exact statements_of_plain hw'
  rw [walk_eq_found, Course.found]
  simp only [Findings.append_statements]
  rw [gather_statements fun w hw => hvisits w (List.mem_append_left _ hw),
    gather_statements fun w hw => hvisits w (List.mem_append_right _ hw),
    opened_statements (not_branching_of_plain h)]
termination_by sizeOf t

/-- A node in which some branching statement is numbered is a statement. -/
theorem not_plain {k : Nat} (hlow : w.numbering.statement ≤ k)
    (hhigh : k < (w.end tracked).statement) : ¬ Plain w.tree := by
  intro h
  have hzero : (w.found tracked).statements = 0 := statements_of_plain h
  simp only [Visit.end, Numbering.after_statement, hzero] at hhigh
  omega

/-- The bindings that a node makes by itself hold from its end on, and a loop makes its own behind
what it runs over. -/
theorem ownEvents_offset (ht : Sourced t) (h : e ∈ ownEvents p t) :
    (e.offset = t.span.stop ∧ (t.kind.isStatement = true → (scopeOver? t.kind).isSome = true)) ∨
      ∃ left right rest, t.kind = .forStatement ∧ t.children = left :: right :: rest ∧
        Plain left ∧ Plain right ∧ e.offset = right.span.stop := by
  -- What an expression binds holds from its end on, and it is no statement.
  have expression : t.kind.isStatement = false → ∀ {names : List String},
      e ∈ p.untracked t.span.stop names → e.offset = t.span.stop ∧
        (t.kind.isStatement = true → (scopeOver? t.kind).isSome = true) := by
    intro hkind names he
    refine ⟨(mem_untracked he).2.1, fun hstatement => ?_⟩
    rw [hkind] at hstatement
    cases hstatement
  unfold ownEvents at h
  split at h
  · split at h
    · exact .inl (expression (by rw [‹t.kind = _›]; rfl) h)
    · cases h
  · split at h
    · exact .inl (expression (by rw [‹t.kind = _›]; rfl) h)
    · cases h
  · rename_i hkind
    have hshape := ht.formed.shape (by rw [hkind]; rfl)
    rw [hkind] at hshape
    obtain ⟨left, right, rest, hcs, hleft, hright, hplainLeft, hplainRight⟩ := hshape
    simp only [Tree.child?, hcs, List.find?_cons, hleft, hright] at h
    exact .inr ⟨left, right, rest, hkind, hcs, hplainLeft, hplainRight, (mem_untracked h).2.1⟩
  · split at h
    · exact .inl (expression (by rw [‹t.kind = _›]; rfl) h)
    · cases h
  · -- In the tree of a text no name stands beside the expression of a handler.
    rename_i hkind
    have hshape := ht.formed.shape (by rw [hkind]; rfl)
    rw [hkind] at hshape
    split at h
    · rename_i other hother
      obtain ⟨hother, hrole⟩ := Draft.child?_eq_some hother
      exact absurd hrole (hshape other hother)
    · cases h
  · split at h
    · exact .inl (expression (by rw [‹t.kind = _›]; rfl) h)
    · cases h
  · split at h
    · rw [List.mem_singleton.1 h]
      exact .inl ⟨rfl, fun _ => by rw [‹t.kind = _›]; rfl⟩
    · cases h
  · split at h
    · rw [List.mem_singleton.1 h]
      exact .inl ⟨rfl, fun _ => by rw [‹t.kind = _›]; rfl⟩
    · cases h
  · cases h

/-- The same of a node that consists of further walks. -/
theorem own_offset (ht : Sourced t) (he : e ∈ (course tracked p n t).own)
    (hw : w ∈ (course tracked p n t).next) :
    (e.offset = t.span.stop ∧ (t.kind.isStatement = true → (scopeOver? t.kind).isSome = true)) ∨
      ∃ right, Plain right ∧ e.offset = right.span.stop ∧
        (Plain w.tree ∧ w.tree.span.stop ≤ right.span.stop ∨
          right.span.stop ≤ w.tree.span.start) := by
  -- The children of a loop are in order: its target, what it runs over, and what is behind that.
  have own : e ∈ ownEvents p t → (t.kind = .forStatement → w.tree ∈ t.children) →
      (e.offset = t.span.stop ∧ (t.kind.isStatement = true → (scopeOver? t.kind).isSome = true)) ∨
        ∃ right, Plain right ∧ e.offset = right.span.stop ∧
          (Plain w.tree ∧ w.tree.span.stop ≤ right.span.stop ∨
            right.span.stop ≤ w.tree.span.start) := by
    intro he hmem
    rcases ownEvents_offset ht he with hstop | ⟨left, right, rest, hkind, hcs, hleft, hright, hoffset⟩
    · exact .inl hstop
    · refine .inr ⟨right, hright, hoffset, ?_⟩
      have hpairwise := ht.pairwise
      have hmem := hmem hkind
      rw [hcs] at hpairwise hmem
      obtain ⟨hfirst, hpairwise⟩ := List.pairwise_cons.1 hpairwise
      rcases List.mem_cons.1 hmem with heq | hmem
      · have hle := (ht.child (u := right) (by simp [hcs])).le
        rw [heq]
        exact .inl ⟨hleft, Nat.le_trans (hfirst right List.mem_cons_self) hle⟩
      · rcases List.mem_cons.1 hmem with heq | hmem
        · rw [heq]
          exact .inl ⟨hright, Nat.le_refl _⟩
        · exact .inr ((List.pairwise_cons.1 hpairwise).1 _ hmem)
  -- A node with a body is no loop.
  have definition : ∀ {k : ScopeKind}, scopeOver? t.kind = some k →
      t.kind = .forStatement → w.tree ∈ t.children := by
    intro k hk hkind
    rw [hkind] at hk
    cases hk
  revert he hw
  refine course_ind (P := fun c => e ∈ c.own → w ∈ c.next → _) ?_ ?_ ?_ ?_ ?_ ?_ ?_
  · exact fun h => nomatch h
  · exact fun _ _ h => nomatch h
  · exact fun _ h => nomatch h
  · exact fun _ h => nomatch h
  · intro k b hk hb he _
    simp only [bodyCourse, hb] at he
    exact own he (definition hk)
  · exact fun k hk _ he _ => own he (definition hk)
  · intro _ _ _ _ he hw
    refine own he fun _ => ?_
    simp only [Course.next, List.append_nil] at hw
    have hmem := List.mem_map_of_mem (f := Visit.tree) hw
    rw [visitsAll_trees] at hmem
    exact (List.mem_filter.1 hmem).1

/-- All walks over a function or a class in the scope that it stands in are over expressions. -/
theorem plain_of_beside (ht : Sourced t) {k : ScopeKind} (hk : scopeOver? t.kind = some k)
    (hp : p.scope < n.scope) (hw : w ∈ (course tracked p n t).next)
    (hscope : w.place.scope = p.scope) : Plain w.tree := by
  obtain ⟨outer, body, hcs, hbody, houter⟩ := exists_body ht hk
  rw [course_of_scope hk hw] at hw
  simp only [bodyCourse, child?_body hcs hbody fun u hu => (houter u hu).1, Course.next,
    List.mem_append, List.mem_singleton] at hw
  rcases hw with hw | rfl
  · have hmem := List.mem_map_of_mem (f := Visit.tree) hw
    rw [visitsAll_trees] at hmem
    exact (houter _ (mem_outer hcs hbody hmem rfl)).2
  · simp only [Place.below_scope, Numbering.after_scope] at hscope
    omega

/-- The bindings that a node makes by itself hold before the statements inside it that belong to its
scope. -/
theorem own_le (ht : Sourced t) (hp : p.scope < n.scope) (he : e ∈ (course tracked p n t).own)
    (hw : w ∈ (course tracked p n t).next) (hscope : w.place.scope = p.scope)
    (hplain : ¬ Plain w.tree) : e.offset ≤ w.tree.span.start := by
  rcases own_offset ht he hw with ⟨-, hkind⟩ | ⟨right, -, hoffset, hbeside⟩
  · cases hstatement : t.kind.isStatement with
    | false =>
        exact absurd (plain_of_isNode (ht.formed.plain_of_kind hstatement) (next_isNode hw)) hplain
    | true =>
        obtain ⟨k, hk⟩ := Option.isSome_iff_exists.1 (hkind hstatement)
        exact absurd (plain_of_beside ht hk hp hw hscope) hplain
  · rw [hoffset]
    exact hbeside.resolve_left fun h => hplain h.1

/-- The bindings at the start of a scope hold before all that is inside it. -/
theorem opened_le (ht : Sourced t) (he : e ∈ (course tracked p n t).opened.events)
    (hw : w ∈ (course tracked p n t).inner) : e.offset ≤ w.tree.span.start := by
  have hstart := (ht.within (next_isNode (List.mem_append_right _ hw))).start
  rcases course_of_bound he with hcourse | ⟨k, b, -, hb, hcourse⟩
  · rw [hcourse] at he
    rw [(clauseEvents_at he).2]
    exact hstart
  · rw [hcourse] at he hw
    simp only [bodyCourse, hb, List.mem_singleton] at he hw
    rw [(mem_untracked he).2.1, hw]

/-- The scopes of the walks in the scope that a node stands in come before the one it opens. -/
theorem scope_of_outer (hp : p.scope < n.scope) (hw : w ∈ (course tracked p n t).outer) {k : Nat}
    (hk : k = w.place.scope ∨ (w.numbering.scope ≤ k ∧ k < (w.end tracked).scope)) :
    k < fresh tracked p n t := by
  have hle := outer_le_fresh hw
  have hle' : n.scope ≤ fresh tracked p n t := le_fresh
  have hself := (Numbering.le_after w.numbering (w.found tracked)).scope
  rcases hk with rfl | hk
  · rcases next_place (List.mem_append_left _ hw) with h | ⟨-, number, h⟩ | ⟨hinner, hopened, -⟩
    · rw [h]
      exact Nat.lt_of_lt_of_le hp hle'
    · rw [h]
      exact Nat.lt_of_lt_of_le hp hle'
    · have := fresh_lt hinner hopened
      simp only [Visit.end] at hle
      omega
  · omega

/-- A binding of one scope that another walk of a course finds holds before or behind all that a
walk of the course finds in that scope. -/
theorem apart (hv : v.Sound) (hw : w ∈ v.next tracked) (hw' : w' ∈ v.next tracked) (hne : w' ≠ w)
    (he : e ∈ (w'.found tracked).events) :
    (∀ f ∈ (w.found tracked).events, f.scope = e.scope → e.offset < f.offset) ∨
      ∀ f ∈ (w.found tracked).events, f.scope = e.scope → f.offset < e.offset := by
  have hholds := (hv.next hw').holds e he
  rcases pairwise_cases (next_spans hv.sourced) hw' hw with heq | hle | hle
  · exact absurd heq hne
  · left
    intro f hf hscope
    have hplace := scope_of_apart hv hw hw' (Ne.symm hne) hf he hscope
    have hlt := ((hv.next hw).holds f hf).lt hplace.1
    have hstop := hholds.stop
    omega
  · right
    intro f hf hscope
    have hplace := scope_of_apart hv hw hw' (Ne.symm hne) hf he hscope
    have hlt := hholds.lt hplace.2
    have hstop := ((hv.next hw).holds f hf).stop
    omega

/-- A binding between two bindings of its scope that were made in arms of a branching statement was
made in an arm of it. -/
theorem arm_of_parts (hv : v.Sound) (hkind : isBranching v.tree.kind = true) {first last : Event}
    (hw : w ∈ v.next tracked) (hw' : w' ∈ v.next tracked) (harm : w.place.arms ≠ v.place.arms)
    (harm' : w'.place.arms ≠ v.place.arms) (hlast : last ∈ (w.found tracked).events)
    (hfirst : first ∈ (w'.found tracked).events) (he : e ∈ (v.found tracked).events)
    (hscope : first.scope = e.scope) (hscope' : last.scope = e.scope)
    (hle : first.offset ≤ e.offset) (hle' : e.offset ≤ last.offset) :
    ∃ c ∈ e.arms, c.statement = v.numbering.statement := by
  have hcourse := course_of_branching hkind hw
  obtain ⟨before, arms, behind, heq, hempty, hbeside, harms⟩ := exists_arms tracked v.place.below
    (v.numbering.after { statements := 1 }) hv.sourced hkind v.numbering.statement
  have hnext : v.next tracked = before ++ (arms ++ behind) := by
    rw [Visit.next, hcourse, ← heq]
    rfl
  have beside_arms : ∀ u ∈ before ++ behind, u.place.arms = v.place.arms :=
    fun u hu => by rw [hbeside u hu, Place.below_arms]
  -- The parts in which the two bindings were made are arms.
  have mem_arms : ∀ {u : Visit}, u ∈ v.next tracked → u.place.arms ≠ v.place.arms → u ∈ arms := by
    intro u hu hne
    rw [hnext, List.mem_append, List.mem_append] at hu
    rcases hu with hu | hu | hu
    · exact absurd (beside_arms u (List.mem_append_left _ hu)) hne
    · exact hu
    · exact absurd (beside_arms u (List.mem_append_right _ hu)) hne
  have hspans : (v.next tracked).Pairwise fun u u' => u.tree.span.stop ≤ u'.tree.span.start :=
    next_spans hv.sourced
  rw [hnext] at hspans
  obtain ⟨-, hspans, hbefore⟩ := List.pairwise_append.1 hspans
  have hbehind := (List.pairwise_append.1 hspans).2.2
  rcases mem_walk_events.1 he with he | he | ⟨u, hu, he⟩
  · rw [hcourse] at he
    cases he
  · rw [hcourse] at he
    cases he
  have hholds := (hv.next hu).holds e he
  have hu' : u ∈ v.next tracked := hu
  rw [hnext, List.mem_append, List.mem_append] at hu'
  -- Beside the arms the binding would come before the first one or behind the last one.
  rcases hu' with hu' | hu' | hu'
  · have hne : w' ≠ u := by
      rintro rfl
      exact harm' (beside_arms w' (List.mem_append_left _ hu'))
    have hplace := scope_of_apart hv hw' hu hne hfirst he hscope
    have hlt := ((hv.next hw').holds first hfirst).lt hplace.1
    have hstop := hholds.stop
    have := hbefore u hu' w' (List.mem_append_left _ (mem_arms hw' harm'))
    omega
  · obtain ⟨number, hplace⟩ := harms u hu'
    obtain ⟨extra, hextra, -⟩ := hholds.arms
    exact ⟨⟨v.numbering.statement, number, u.tree.span⟩, by simp [hextra, hplace], rfl⟩
  · have hne : w ≠ u := by
      rintro rfl
      exact harm (beside_arms w (List.mem_append_right _ hu'))
    have hplace := scope_of_apart hv hw hu hne hlast he hscope'
    have hlt := hholds.lt hplace.2
    have hstop := ((hv.next hw).holds last hlast).stop
    have := hbehind w (mem_arms hw harm) u hu'
    omega

/-- A binding between two bindings of its scope that were made in arms of one statement was made in
an arm of that statement. -/
theorem arm_between (hv : v.Sound) : ∀ {first e last : Event} {a b : Arm},
    first ∈ (v.found tracked).events → e ∈ (v.found tracked).events →
    last ∈ (v.found tracked).events → first.scope = e.scope → last.scope = e.scope →
    first.offset ≤ e.offset → e.offset ≤ last.offset → a ∈ last.arms → b ∈ first.arms →
    a.statement = b.statement → ∃ c ∈ e.arms, c.statement = a.statement := by
  refine hv.induction tracked (P := fun v => ∀ {first e last : Event} {a b : Arm},
    first ∈ (v.found tracked).events → e ∈ (v.found tracked).events →
    last ∈ (v.found tracked).events → first.scope = e.scope → last.scope = e.scope →
    first.offset ≤ e.offset → e.offset ≤ last.offset → a ∈ last.arms → b ∈ first.arms →
    a.statement = b.statement → ∃ c ∈ e.arms, c.statement = a.statement) ?_
  intro v hv ih first e last a b hfirst he hlast hscope hscope' hle hle' ha hb hab
  obtain ⟨extra, harms, hextra⟩ := (hv.holds last hlast).arms
  obtain ⟨extra', harms', -⟩ := (hv.holds e he).arms
  -- By induction on the walk: the statement is around the node, or the node itself, or inside it.
  by_cases hold : a.statement < v.numbering.statement
  · -- The statement is around the node, and so is the arm.
    refine ⟨a, ?_, rfl⟩
    rw [harms] at ha
    rw [harms']
    refine List.mem_append_left _ ((List.mem_append.1 ha).resolve_right fun ha => ?_)
    have := (hextra a ha).1
    omega
  have hlow : v.numbering.statement ≤ a.statement := by omega
  obtain ⟨w, hw, hlast⟩ := exists_next hv hlast ha hlow
  obtain ⟨w', hw', hfirst⟩ := exists_next hv hfirst hb (hab ▸ hlow)
  have hlastHolds := (hv.next hw).holds last hlast
  have hfirstHolds := (hv.next hw').holds first hfirst
  rcases new_or_inside hv hw hlast ha hlow with ⟨hkind, hnew, hplace, -⟩ | ⟨hlow₁, hhigh₁, hlt⟩
  · rcases new_or_inside hv hw' hfirst hb (hab ▸ hlow) with ⟨-, -, hplace', -⟩ | ⟨-, -, hlt⟩
    · -- The node is the statement, and the binding was made in one of its parts.
      rw [hnew]
      exact arm_of_parts hv hkind hw hw' (by simp [hplace]) (by simp [hplace']) hlast hfirst he
        hscope hscope' hle hle'
    · have := hlt hkind
      omega
  · rcases new_or_inside hv hw' hfirst hb (hab ▸ hlow) with ⟨hkind, hnew, -, -⟩ | ⟨hlow₂, hhigh₂, -⟩
    · have := hlt hkind
      omega
    · -- The statement is inside the node, and so is all that lies between its parts.
      have heq := eq_of_inside hw hw' hlow₁ hhigh₁ (hab ▸ hlow₂) (hab ▸ hhigh₂)
      subst heq
      rcases mem_walk_events.1 he with he | he | ⟨w', hw', he⟩
      · have hown := (own_at hv.sourced he).1.1
        have hplace : w.place.scope = v.place.scope := by
          have := (next_le hw).1.scope
          have := hv.scope
          rcases hfirstHolds.scope with h | h
          · omega
          · omega
        have := own_le hv.sourced hv.scope he hw hplace (not_plain hlow₁ hhigh₁)
        have := hfirstHolds.lt (by omega)
        omega
      · -- The scope that the node opens is the one in which the walk begins.
        obtain ⟨-, hfresh, hframes, -⟩ := opened_at hv.sourced he
        rcases List.mem_append.1 hw with hw | hw
        · have hscope₁ := scope_of_outer hv.scope hw hfirstHolds.scope
          omega
        · have := fresh_lt hw hframes
          have := opened_le hv.sourced he hw
          have := hfirstHolds.lt (hfirstHolds.scope.resolve_right (by omega))
          omega
      · by_cases heq : w' = w
        · subst heq
          exact ih w' hw' hfirst he hlast hscope hscope' hle hle' ha hb hab
        · rcases apart hv hw hw' heq he with hbefore | hbehind
          · have := hbefore first hfirst hscope
            omega
          · have := hbehind last hlast hscope'
            omega

end Longhand.Scope
