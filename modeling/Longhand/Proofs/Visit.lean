import Longhand.Proofs.Keyword
import Longhand.Proofs.Walk

/-!
# Steps of a walk

The walk over a node consists of the bindings that the node makes by itself, of the scope or the
branching statement that it opens, and of walks over nodes inside it.  All that a walk finds is
found in one of these places.
-/

namespace Longhand.Scope

open Syntax

/-! ## Findings -/

namespace Findings

@[simp] theorem append_frames (f g : Findings) : (f ++ g).frames = f.frames ++ g.frames := rfl

@[simp] theorem append_events (f g : Findings) : (f ++ g).events = f.events ++ g.events := rfl

@[simp] theorem append_statements (f g : Findings) :
    (f ++ g).statements = f.statements + g.statements := rfl

@[simp] theorem append_empty (f : Findings) : f ++ ({} : Findings) = f := by
  show Findings.append f {} = f
  simp [Findings.append]

@[simp] theorem empty_append (f : Findings) : ({} : Findings) ++ f = f := by
  show Findings.append {} f = f
  simp [Findings.append]

end Findings

@[simp] theorem Numbering.after_scope (n : Numbering) (f : Findings) :
    (n.after f).scope = n.scope + f.frames.length := rfl

@[simp] theorem Numbering.after_statement (n : Numbering) (f : Findings) :
    (n.after f).statement = n.statement + f.statements := rfl

theorem Numbering.after_append (n : Numbering) (f g : Findings) :
    n.after (f ++ g) = (n.after f).after g := by
  simp [Numbering.after, Nat.add_assoc]

/-! ## Visits -/

/-- A walk over a part of a tree. -/
structure Visit where
  place : Place
  numbering : Numbering
  tree : Tree

variable (tracked : Tracked.Set)

def Visit.found (v : Visit) : Findings :=
  walk tracked v.place v.numbering v.tree

/-- What some walks find, one after the other. -/
def gather : List Visit → Findings
  | [] => {}
  | v :: rest => v.found tracked ++ gather rest

/-- Whether each of some walks begins with the numbers behind those of the walk before it. -/
def Consecutive : Numbering → List Visit → Prop
  | _, [] => True
  | n, v :: rest => v.numbering = n ∧ Consecutive (n.after (v.found tracked)) rest

/-- The walks over the selected ones of some trees. -/
def visitsAll (selection : Selection) (p : Place) (n : Numbering) : List Tree → List Visit
  | [] => []
  | t :: rest =>
      if selection.holds t then
        ⟨p, n, t⟩ :: visitsAll selection p (n.after (walk tracked p n t)) rest
      else visitsAll selection p n rest

/-- The place of an arm of a branching statement. -/
def Place.arm (p : Place) (statement number : Nat) (t : Tree) : Place :=
  { p with arms := p.arms ++ [⟨statement, number, t.span⟩] }

/-- The walks over the cases of a match statement, given the number of the next one. -/
def visitsCases (statement : Nat) (p : Place) (n : Numbering) (next : Nat) :
    List Tree → List Visit
  | [] => []
  | t :: rest =>
      let v : Visit :=
        ⟨if t.kind = .caseClause then p.arm statement next t else p, n, t⟩
      v :: visitsCases statement p (n.after (v.found tracked))
        (if t.kind = .caseClause then next + 1 else next) rest

/-- The walks over a part of a branching statement, given the number of its next arm. -/
def visitsPart (kind : Kind) (statement : Nat) (p : Place) (n : Numbering) (next : Nat) (t : Tree) :
    List Visit :=
  if kind = .matchStatement && t.role = some .body then
    visitsCases tracked statement p n 1 t.children
  else
    match armOf? kind next t with
    | some number => [⟨p.arm statement number t, n, t⟩]
    | none => [⟨p, n, t⟩]

/-- The walks over the parts of a branching statement, given the number of its next arm. -/
def visitsArms (kind : Kind) (statement : Nat) (p : Place) (n : Numbering) (next : Nat) :
    List Tree → List Visit
  | [] => []
  | t :: rest =>
      let here := visitsPart tracked kind statement p n next t
      let next := if (armOf? kind next t).any (· = next) then next + 1 else next
      here ++ visitsArms kind statement p (n.after (gather tracked here)) next rest

section Gather

variable {tracked} {p : Place} {n : Numbering}

theorem gather_append (vs ws : List Visit) :
    gather tracked (vs ++ ws) = gather tracked vs ++ gather tracked ws := by
  induction vs with
  | nil => simp [gather]
  | cons v rest ih => rw [List.cons_append, gather, ih, gather, Findings.append_assoc]

theorem consecutive_append (vs ws : List Visit) : Consecutive tracked n (vs ++ ws) ↔
    Consecutive tracked n vs ∧ Consecutive tracked (n.after (gather tracked vs)) ws := by
  induction vs generalizing n with
  | nil => simp [Consecutive, gather, Numbering.after]
  | cons v rest ih =>
      simp only [List.cons_append, Consecutive, ih, gather, Numbering.after_append, and_assoc]

theorem walkAll_eq (selection : Selection) (ts : List Tree) :
    walkAll tracked selection p n ts = gather tracked (visitsAll tracked selection p n ts) := by
  induction ts generalizing n with
  | nil => rw [walkAll, visitsAll, gather]
  | cons t rest ih =>
      rw [walkAll, visitsAll]
      split
      · rw [gather, ← ih]
        rfl
      · exact ih

theorem consecutive_visitsAll (selection : Selection) (ts : List Tree) :
    Consecutive tracked n (visitsAll tracked selection p n ts) := by
  induction ts generalizing n with
  | nil => trivial
  | cons t rest ih =>
      rw [visitsAll]
      split
      · exact ⟨rfl, ih⟩
      · exact ih

theorem walkBody_eq (ts : List Tree) : walkBody tracked p n ts =
    gather tracked ((ts.find? fun c => c.role = some .body).toList.map fun t => ⟨p, n, t⟩) := by
  induction ts with
  | nil => rw [walkBody]; rfl
  | cons t rest ih =>
      rw [walkBody]
      split
      · rename_i hrole
        rw [List.find?_cons_of_pos (by simpa using hrole)]
        simp [gather, Visit.found]
      · rename_i hrole
        rw [List.find?_cons_of_neg (by simpa using hrole), ih]

theorem walkCases_eq (statement next : Nat) (ts : List Tree) :
    walkCases tracked statement p n next ts =
      gather tracked (visitsCases tracked statement p n next ts) := by
  induction ts generalizing n next with
  | nil => rw [walkCases, visitsCases, gather]
  | cons t rest ih =>
      obtain ⟨k, r, s, x, cs⟩ := t
      rw [walkCases, visitsCases, gather, ← ih]
      by_cases hk : k = .caseClause
      · simp [Visit.found, Tree.kind, Place.arm, Tree.span, hk]
      · simp [Visit.found, Tree.kind, hk]

theorem consecutive_visitsCases (statement next : Nat) (ts : List Tree) :
    Consecutive tracked n (visitsCases tracked statement p n next ts) := by
  induction ts generalizing n next with
  | nil => trivial
  | cons t rest ih => exact ⟨rfl, ih _⟩

theorem gather_visitsPart (kind : Kind) (statement next : Nat) (t : Tree) :
    gather tracked (visitsPart tracked kind statement p n next t) =
      if kind = .matchStatement && t.role = some .body then
        walkCases tracked statement p n 1 t.children
      else
        match armOf? kind next t with
        | some number => walk tracked (p.arm statement number t) n t
        | none => walk tracked p n t := by
  unfold visitsPart
  split
  · rw [walkCases_eq]
  · split <;> simp [gather, Visit.found]

theorem walkArms_eq (kind : Kind) (statement next : Nat) (ts : List Tree) :
    walkArms tracked kind statement p n next ts =
      gather tracked (visitsArms tracked kind statement p n next ts) := by
  induction ts generalizing n next with
  | nil => rw [walkArms, visitsArms, gather]
  | cons t rest ih =>
      rw [visitsArms, gather_append, ← ih, gather_visitsPart]
      obtain ⟨k, r, s, x, cs⟩ := t
      rw [walkArms]
      rfl

theorem consecutive_visitsPart (kind : Kind) (statement next : Nat) (t : Tree) :
    Consecutive tracked n (visitsPart tracked kind statement p n next t) := by
  unfold visitsPart
  split
  · exact consecutive_visitsCases _ _ _
  · split
    · exact ⟨rfl, trivial⟩
    · exact ⟨rfl, trivial⟩

theorem consecutive_visitsArms (kind : Kind) (statement next : Nat) (ts : List Tree) :
    Consecutive tracked n (visitsArms tracked kind statement p n next ts) := by
  induction ts generalizing n next with
  | nil => trivial
  | cons t rest ih =>
      rw [visitsArms, consecutive_append]
      exact ⟨consecutive_visitsPart _ _ _ _, ih _⟩

end Gather

/-! ## The course of a walk -/

/-- What a walk over a node consists of: the bindings that the node makes by itself, the walks in
the scope that it stands in, the scope or the branching statement that it opens, and the walks
inside that. -/
structure Course where
  own : List Event := []
  outer : List Visit := []
  opened : Findings := {}
  inner : List Visit := []

/-- The walks that a walk consists of. -/
def Course.next (c : Course) : List Visit :=
  c.outer ++ c.inner

def Course.found (c : Course) : Findings :=
  ({ events := c.own } : Findings) ++ gather tracked c.outer ++ c.opened ++
    gather tracked c.inner

/-- The bindings that an import statement makes. -/
def importedEvents (p : Place) (t : Tree) : List Event :=
  match t.kind with
  | .importStatement => (t.childrenIn .name).flatMap (importEvents tracked p t.span.stop)
  | _ => (t.childrenIn .name).flatMap
      (importFromEvents tracked p t.span.stop (originPath? t))

/-- The kind of scope that a node of some kind opens over its body, if it does. -/
def scopeOver? : Kind → Option ScopeKind
  | .functionDefinition | .lambda => some .function
  | .classDefinition => some .classBody
  | _ => none

/-- Whether a node is a scope as a whole. -/
def isComprehension : Kind → Bool
  | .listComprehension | .setComprehension | .dictionaryComprehension | .generatorExpression => true
  | _ => false

def isImport : Kind → Bool
  | .importStatement | .importFromStatement => true
  | _ => false

/-- Whether the parts of a node may be arms. -/
def isBranching : Kind → Bool
  | .ifStatement | .tryStatement | .matchStatement => true
  | _ => false

/-- The names that are bound at the start of the scope over the body of a node. -/
def bodyNames (t : Tree) : List String :=
  if t.kind = .classDefinition then []
  else ((t.child? .parameters).map fun ps => ps.children.flatMap parameterNames).getD []

/-- The course of the walk over a node that opens a scope over its body. -/
def bodyCourse (p : Place) (n : Numbering) (t : Tree) (k : ScopeKind) : Course :=
  let own := ownEvents p t
  let outer := visitsAll tracked .allButBody p.below n t.children
  match t.child? .body with
  | none => { own, outer }
  | some body =>
      let n := n.after (gather tracked outer)
      let inner : Place := { p with scope := n.scope }
      let opened : Findings :=
        { frames := [⟨k, some p.scope, body.span⟩]
          events := inner.untracked body.span.start (bodyNames t) }
      { own, outer, opened, inner := [⟨inner.below, n.after opened, body⟩] }

/-- The course of the walk over a comprehension. -/
def comprehensionCourse (p : Place) (n : Numbering) (t : Tree) : Course :=
  let inner : Place := { p with scope := n.scope }
  let opened : Findings :=
    { frames := [⟨.comprehension, some p.scope, t.span⟩], events := clauseEvents inner t }
  { opened, inner := visitsAll tracked .all inner.below (n.after opened) t.children }

/-- The course of the walk over a branching statement. -/
def branchCourse (p : Place) (n : Numbering) (t : Tree) : Course :=
  let opened : Findings := { statements := 1 }
  { opened
    inner := visitsArms tracked t.kind n.statement p.below (n.after opened) 1 t.children }

/-- The course of a walk. -/
def course (p : Place) (n : Numbering) (t : Tree) : Course :=
  if depthLimit < p.depth then {}
  else if isImport t.kind then { own := importedEvents tracked p t }
  else if isComprehension t.kind then comprehensionCourse tracked p n t
  else if isBranching t.kind then branchCourse tracked p n t
  else
    match scopeOver? t.kind with
    | some k => bodyCourse tracked p n t k
    | none =>
        { own := ownEvents p t, outer := visitsAll tracked .all p.below n t.children }

section Course

variable {tracked} {p : Place} {n : Numbering} {t : Tree}

/-- The walk over a node that opens a scope over its body, as it is written out. -/
theorem found_bodyCourse (tracked : Tracked.Set) (p : Place) (n : Numbering) (t : Tree)
    (k : ScopeKind) : (bodyCourse tracked p n t k).found tracked =
    (let outer := ({ events := ownEvents p t } : Findings) ++
      walkAll tracked .allButBody p.below n t.children
    match t.child? .body with
    | none => outer
    | some body =>
        let n := n.after outer
        let inner : Place := { p with scope := n.scope }
        let frame : Findings :=
          { frames := [⟨k, some p.scope, body.span⟩]
            events := inner.untracked body.span.start (bodyNames t) }
        outer ++ frame ++ walkBody tracked inner.below (n.after frame) t.children) := by
  unfold bodyCourse
  dsimp only
  cases hbody : t.child? .body with
  | none => simp [Course.found, gather, walkAll_eq]
  | some body =>
      have hfind : t.children.find? (fun c => c.role = some .body) = some body := hbody
      have hafter : n.after (({ events := ownEvents p t } : Findings) ++
          gather tracked (visitsAll tracked .allButBody p.below n t.children)) =
          n.after (gather tracked (visitsAll tracked .allButBody p.below n t.children)) := by
        simp [Numbering.after]
      simp [Course.found, gather, walkAll_eq, walkBody_eq, hfind, hafter]

theorem found_comprehensionCourse (tracked : Tracked.Set) (p : Place) (n : Numbering) (t : Tree) :
    (comprehensionCourse tracked p n t).found tracked =
    (let inner : Place := { p with scope := n.scope }
    let frame : Findings :=
      { frames := [⟨.comprehension, some p.scope, t.span⟩], events := clauseEvents inner t }
    frame ++ walkAll tracked .all inner.below (n.after frame) t.children) := by
  simp [comprehensionCourse, Course.found, gather, walkAll_eq]

theorem found_branchCourse (tracked : Tracked.Set) (p : Place) (n : Numbering) (t : Tree) :
    (branchCourse tracked p n t).found tracked =
    (let counted : Findings := { statements := 1 }
    counted ++ walkArms tracked t.kind n.statement p.below (n.after counted) 1 t.children) := by
  simp [branchCourse, Course.found, gather, walkArms_eq]

/-- A walk finds what its course says. -/
theorem walk_eq_found : walk tracked p n t = (course tracked p n t).found tracked := by
  have body := fun k => (found_bodyCourse tracked p n t k).symm
  have comprehension := (found_comprehensionCourse tracked p n t).symm
  have branch := (found_branchCourse tracked p n t).symm
  obtain ⟨kind, role, span, text, children⟩ := t
  rw [walk]
  unfold course
  split
  · simp [Course.found, gather]
  dsimp only
  split
  · simp [Tree.kind, isImport, Course.found, gather, importedEvents]
    rfl
  · simp [Tree.kind, isImport, Course.found, gather, importedEvents]
    rfl
  · exact body .function
  · exact body .function
  · exact body .classBody
  · exact comprehension
  · exact comprehension
  · exact comprehension
  · exact comprehension
  · exact branch
  · exact branch
  · exact branch
  · -- Nodes of all other kinds make bindings by themselves at most.
    have hkind : isImport kind = false ∧ isComprehension kind = false ∧
        isBranching kind = false ∧ scopeOver? kind = none := by
      refine ⟨?_, ?_, ?_, ?_⟩
      · unfold isImport
        split <;> simp_all
      · unfold isComprehension
        split <;> simp_all
      · unfold isBranching
        split <;> simp_all
      · unfold scopeOver?
        split <;> simp_all
    simp [Tree.kind, hkind, Course.found, gather, walkAll_eq, Tree.children]

/-! ## The nodes that are visited -/

/-- The nodes that are the parts of a branching statement. -/
def armTrees (kind : Kind) (ts : List Tree) : List Tree :=
  ts.flatMap fun t => if kind = .matchStatement && t.role = some .body then t.children else [t]

theorem visitsAll_trees (selection : Selection) (ts : List Tree) :
    (visitsAll tracked selection p n ts).map Visit.tree = ts.filter selection.holds := by
  induction ts generalizing n with
  | nil => rfl
  | cons t rest ih =>
      rw [visitsAll]
      split
      · rename_i hholds
        rw [List.filter_cons_of_pos hholds, List.map_cons, ih]
      · rename_i hholds
        rw [List.filter_cons_of_neg hholds, ih]

theorem visitsCases_trees (statement next : Nat) (ts : List Tree) :
    (visitsCases tracked statement p n next ts).map Visit.tree = ts := by
  induction ts generalizing n next with
  | nil => rfl
  | cons t rest ih =>
      rw [visitsCases, List.map_cons, ih]

theorem visitsArms_trees (kind : Kind) (statement next : Nat) (ts : List Tree) :
    (visitsArms tracked kind statement p n next ts).map Visit.tree = armTrees kind ts := by
  induction ts generalizing n next with
  | nil => rfl
  | cons t rest ih =>
      rw [visitsArms, List.map_append, ih, armTrees, armTrees, List.flatMap_cons]
      congr 1
      unfold visitsPart
      split
      · exact visitsCases_trees _ _ _
      · split <;> rfl

/-! ## Inversion -/

/-- What holds of all kinds of courses holds of the course of a walk. -/
theorem course_ind {P : Course → Prop} (deep : P {})
    (imports : isImport t.kind = true → P { own := importedEvents tracked p t })
    (comprehension : isComprehension t.kind = true → P (comprehensionCourse tracked p n t))
    (branch : isBranching t.kind = true → P (branchCourse tracked p n t))
    (body : ∀ k body, scopeOver? t.kind = some k → t.child? .body = some body →
      P (bodyCourse tracked p n t k))
    (bodiless : ∀ k, scopeOver? t.kind = some k → t.child? .body = none →
      P { own := ownEvents p t
          outer := visitsAll tracked .allButBody p.below n t.children })
    (plain : isImport t.kind = false → isComprehension t.kind = false →
      isBranching t.kind = false → scopeOver? t.kind = none →
      P { own := ownEvents p t, outer := visitsAll tracked .all p.below n t.children }) :
    P (course tracked p n t) := by
  unfold course
  split
  · exact deep
  split
  · exact imports ‹_›
  rename_i himport
  split
  · exact comprehension ‹_›
  rename_i hcomprehension
  split
  · exact branch ‹_›
  rename_i hbranch
  split
  · rename_i k hk
    cases hbody : t.child? .body with
    | none =>
        have hcourse := bodiless k hk hbody
        unfold bodyCourse
        rw [hbody]
        exact hcourse
    | some b => exact body k b hk hbody
  · simp only [Bool.not_eq_true] at himport hcomprehension hbranch
    exact plain himport hcomprehension hbranch ‹_›

/-- A node that opens a scope over its body is no import, no comprehension and no branching
statement. -/
theorem kinds_of_scope {k : ScopeKind} (hk : scopeOver? t.kind = some k) :
    isImport t.kind = false ∧ isComprehension t.kind = false ∧ isBranching t.kind = false := by
  unfold scopeOver? at hk
  split at hk <;> simp_all [isImport, isComprehension, isBranching]

theorem kinds_of_branching (hkind : isBranching t.kind = true) :
    isImport t.kind = false ∧ isComprehension t.kind = false := by
  unfold isBranching at hkind
  split at hkind <;> simp_all [isImport, isComprehension]

theorem kinds_of_comprehension (hkind : isComprehension t.kind = true) :
    isImport t.kind = false ∧ scopeOver? t.kind = none := by
  unfold isComprehension at hkind
  split at hkind <;> simp_all [isImport, scopeOver?]

/-! ### Courses by kind -/

theorem course_deep (hdepth : depthLimit < p.depth) : course tracked p n t = {} := by
  rw [course, if_pos hdepth]

theorem depth_le_of_next {w : Visit} (hw : w ∈ (course tracked p n t).next) :
    p.depth ≤ depthLimit := by
  refine Nat.le_of_not_lt fun hdepth => ?_
  rw [course_deep hdepth] at hw
  cases hw

theorem course_import (hkind : isImport t.kind = true) (hdepth : p.depth ≤ depthLimit) :
    course tracked p n t = { own := importedEvents tracked p t } := by
  rw [course, if_neg (Nat.not_lt.2 hdepth), if_pos hkind]

theorem course_comprehension (hkind : isComprehension t.kind = true)
    (hdepth : p.depth ≤ depthLimit) :
    course tracked p n t = comprehensionCourse tracked p n t := by
  rw [course, if_neg (Nat.not_lt.2 hdepth), (kinds_of_comprehension hkind).1, hkind]
  rfl

theorem course_branching (hkind : isBranching t.kind = true) (hdepth : p.depth ≤ depthLimit) :
    course tracked p n t = branchCourse tracked p n t := by
  obtain ⟨himport, hcomprehension⟩ := kinds_of_branching hkind
  rw [course, if_neg (Nat.not_lt.2 hdepth), himport, hcomprehension, hkind]
  rfl

theorem course_scope {k : ScopeKind} (hk : scopeOver? t.kind = some k)
    (hdepth : p.depth ≤ depthLimit) :
    course tracked p n t = bodyCourse tracked p n t k := by
  obtain ⟨himport, hcomprehension, hbranch⟩ := kinds_of_scope hk
  rw [course, if_neg (Nat.not_lt.2 hdepth), himport, hcomprehension, hbranch, hk]
  rfl

theorem course_plain (himport : isImport t.kind = false)
    (hcomprehension : isComprehension t.kind = false) (hbranch : isBranching t.kind = false)
    (hk : scopeOver? t.kind = none) (hdepth : p.depth ≤ depthLimit) :
    course tracked p n t =
      { own := ownEvents p t, outer := visitsAll tracked .all p.below n t.children } := by
  rw [course, if_neg (Nat.not_lt.2 hdepth), himport, hcomprehension, hbranch, hk]
  rfl

/-- The bindings that a node makes by itself are those of an import statement, or those that other
nodes of its kind make. -/
theorem own_cases {e : Event} (h : e ∈ (course tracked p n t).own) :
    p.depth ≤ depthLimit ∧ (isImport t.kind = true ∧ e ∈ importedEvents tracked p t ∨
      isImport t.kind = false ∧ e ∈ ownEvents p t) := by
  have hdepth : p.depth ≤ depthLimit := by
    refine Nat.le_of_not_lt fun hdeep => ?_
    rw [course_deep hdeep] at h
    cases h
  refine ⟨hdepth, ?_⟩
  revert h
  refine course_ind (P := fun c => e ∈ c.own → _) ?_ ?_ ?_ ?_ ?_ ?_ ?_
  · exact fun h => nomatch h
  · exact fun himport h => .inl ⟨himport, h⟩
  · exact fun _ h => nomatch h
  · exact fun _ h => nomatch h
  · intro k b hk hb h
    simp only [bodyCourse, hb] at h
    exact .inr ⟨(kinds_of_scope hk).1, h⟩
  · exact fun k hk _ h => .inr ⟨(kinds_of_scope hk).1, h⟩
  · exact fun himport _ _ _ h => .inr ⟨himport, h⟩

variable (tracked p n t) in
/-- A node opens no scope, or it is a comprehension, or it opens one over its body. -/
theorem course_opens :
    ((course tracked p n t).opened.frames = [] ∧ (course tracked p n t).opened.events = []) ∨
      (isComprehension t.kind = true ∧ course tracked p n t = comprehensionCourse tracked p n t) ∨
        ∃ k body, scopeOver? t.kind = some k ∧ t.child? .body = some body ∧
          course tracked p n t = bodyCourse tracked p n t k := by
  refine course_ind (P := fun c => (c.opened.frames = [] ∧ c.opened.events = []) ∨
    (isComprehension t.kind = true ∧ c = comprehensionCourse tracked p n t) ∨
      ∃ k body, scopeOver? t.kind = some k ∧ t.child? .body = some body ∧
        c = bodyCourse tracked p n t k) ?_ ?_ ?_ ?_ ?_ ?_ ?_
  · exact .inl ⟨rfl, rfl⟩
  · exact fun _ => .inl ⟨rfl, rfl⟩
  · exact fun hkind => .inr (.inl ⟨hkind, rfl⟩)
  · exact fun _ => .inl ⟨rfl, rfl⟩
  · exact fun k body hk hbody => .inr (.inr ⟨k, body, hk, hbody, rfl⟩)
  · exact fun _ _ _ => .inl ⟨rfl, rfl⟩
  · exact fun _ _ _ _ => .inl ⟨rfl, rfl⟩

/-- So what is bound at the start of a scope is bound by a comprehension, or over a body. -/
theorem course_of_bound {e : Event} (h : e ∈ (course tracked p n t).opened.events) :
    course tracked p n t = comprehensionCourse tracked p n t ∨
      ∃ k body, scopeOver? t.kind = some k ∧ t.child? .body = some body ∧
        course tracked p n t = bodyCourse tracked p n t k := by
  rcases course_opens tracked p n t with ⟨-, hnone⟩ | ⟨-, hcourse⟩ | hbody
  · rw [hnone] at h
    cases h
  · exact .inl hcourse
  · exact .inr hbody

/-- Each binding that a walk finds is made by the node itself, in the scope that it opens, or by a
walk inside. -/
theorem mem_walk_events {e : Event} : e ∈ (walk tracked p n t).events ↔
    e ∈ (course tracked p n t).own ∨ e ∈ (course tracked p n t).opened.events ∨
      ∃ w ∈ (course tracked p n t).next, e ∈ (w.found tracked).events := by
  have gathered : ∀ vs : List Visit, e ∈ (gather tracked vs).events ↔
      ∃ w ∈ vs, e ∈ (w.found tracked).events := by
    intro vs
    induction vs with
    | nil => simp [gather]
    | cons v rest ih => simp [gather, ih]
  rw [walk_eq_found]
  simp only [Course.found, Findings.append_events, List.mem_append, gathered, Course.next]
  constructor
  · rintro (((h | ⟨w, hw, h⟩) | h) | ⟨w, hw, h⟩)
    · exact .inl h
    · exact .inr (.inr ⟨w, .inl hw, h⟩)
    · exact .inr (.inl h)
    · exact .inr (.inr ⟨w, .inr hw, h⟩)
  · rintro (h | h | ⟨w, hw | hw, h⟩)
    · exact .inl (.inl (.inl h))
    · exact .inl (.inr h)
    · exact .inl (.inl (.inr ⟨w, hw, h⟩))
    · exact .inr ⟨w, hw, h⟩

/-- The numbers that a walk gives, in the parts of its course. -/
theorem after_walk : n.after (walk tracked p n t) =
    ((n.after (gather tracked (course tracked p n t).outer)).after
      (course tracked p n t).opened).after (gather tracked (course tracked p n t).inner) := by
  rw [walk_eq_found, Course.found]
  simp [Numbering.after, Nat.add_assoc]

/-- The walks of a course follow each other. -/
theorem course_consecutive (tracked : Tracked.Set) (p : Place) (n : Numbering) (t : Tree) :
    Consecutive tracked n (course tracked p n t).outer ∧
    Consecutive tracked ((n.after (gather tracked (course tracked p n t).outer)).after
      (course tracked p n t).opened) (course tracked p n t).inner := by
  refine course_ind (P := fun c => Consecutive tracked n c.outer ∧ Consecutive tracked
    ((n.after (gather tracked c.outer)).after c.opened) c.inner) ?_ ?_ ?_ ?_ ?_ ?_ ?_
  · exact ⟨trivial, trivial⟩
  · exact fun _ => ⟨trivial, trivial⟩
  · intro _
    refine ⟨trivial, ?_⟩
    simpa [comprehensionCourse, gather, Numbering.after] using consecutive_visitsAll _ _
  · intro _
    refine ⟨trivial, ?_⟩
    simpa [branchCourse, gather, Numbering.after] using consecutive_visitsArms _ _ _ _
  · intro k b hk hb
    simp only [bodyCourse, hb]
    exact ⟨consecutive_visitsAll _ _, rfl, trivial⟩
  · exact fun _ _ _ => ⟨consecutive_visitsAll _ _, trivial⟩
  · exact fun _ _ _ _ => ⟨consecutive_visitsAll _ _, trivial⟩

/-- The nodes that are visited next are children, or children of the block of a match statement. -/
theorem mem_next_tree {w : Visit} (h : w ∈ (course tracked p n t).next) :
    w.tree ∈ t.children ∨ ∃ b ∈ t.children, w.tree ∈ b.children := by
  have selected : ∀ {s : Selection} {q : Place} {m : Numbering},
      w ∈ visitsAll tracked s q m t.children → w.tree ∈ t.children := by
    intro s q m hw
    have hmem := List.mem_map_of_mem (f := Visit.tree) hw
    rw [visitsAll_trees] at hmem
    exact (List.mem_filter.1 hmem).1
  revert h
  refine course_ind (P := fun c => w ∈ c.next → _) ?_ ?_ ?_ ?_ ?_ ?_ ?_
  · exact fun h => nomatch h
  · exact fun _ h => nomatch h
  · exact fun _ h => .inl (selected h)
  · intro _ h
    have hmem := List.mem_map_of_mem (f := Visit.tree) h
    simp only [branchCourse, Course.next, List.nil_append, visitsArms_trees, armTrees,
      List.mem_flatMap] at hmem
    obtain ⟨c, hc, hmem⟩ := hmem
    split at hmem
    · exact .inr ⟨c, hc, hmem⟩
    · rw [List.mem_singleton.1 hmem]
      exact .inl hc
  · intro k b hk hb h
    simp only [bodyCourse, hb, Course.next, List.mem_append, List.mem_singleton] at h
    rcases h with h | rfl
    · exact .inl (selected h)
    · exact .inl (Draft.child?_eq_some hb).1
  · intro _ _ _ h
    simp only [Course.next, List.append_nil] at h
    exact .inl (selected h)
  · intro _ _ _ _ h
    simp only [Course.next, List.append_nil] at h
    exact .inl (selected h)

end Course

end Longhand.Scope
