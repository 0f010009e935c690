import Longhand.Proofs.Route

/-!
# Reading a text in its order

A reading goes over a tree once, in the order of the text, and keeps what the names stand for in
each scope that is open.  What a form binds it binds in the innermost open scope, where the form ends.  A
name is read from the innermost scope that binds it, where classes other than the innermost scope
do not count.  Neither offsets nor numbers of scopes play a part in it.
-/

namespace Longhand.Scope

open Syntax

/-! ## Open scopes -/

/-- An open scope: what it is, and what its names stand for, the latest first. -/
structure Env where
  kind : ScopeKind
  names : List (String × Binding)

/-- The open scopes, the innermost one first. -/
abbrev Stack := List Env

namespace Stack

/-- Names are bound in the innermost scope, one after the other. -/
def bind : Stack → List (String × Binding) → Stack
  | [], _ => []
  | env :: outer, names => { env with names := names.reverse ++ env.names } :: outer

/-- What a name stands for, read from scopes that begin with the innermost one or further out. -/
def readFrom (name : String) : Bool → Stack → Option Binding
  | _, [] => none
  | innermost, env :: outer =>
      let here := if innermost || env.kind ≠ .classBody then env.names.lookup name else none
      match here with
      | some b => some b
      | none => readFrom name false outer

/-- What a name stands for. -/
def read (st : Stack) (name : String) : Option Binding :=
  st.readFrom name true

/-- The module and the command that the callee of a call stands for, if it is a name or a dotted
name. -/
def callee? (tracked : Tracked.Set) (st : Stack) (t : Tree) : Option (Nat × String) :=
  match t.child? .callee with
  | none => none
  | some callee =>
      if callee.kind = .identifier ∨ callee.kind = .attribute then
        match segments? callee with
        | some (name :: after) => (st.read name).bind (Binding.target? tracked after)
        | _ => none
      else none

@[simp] theorem bind_nil (st : Stack) : st.bind [] = st := by
  cases st <;> simp [bind]

end Stack

/-! ## Forms that bind names -/

/-- Names that stand for nothing tracked. -/
def untrackedNames (names : List String) : List (String × Binding) :=
  names.map fun name => (name, .untracked)

/-- The names that some bindings bind, with what they stand for. -/
def namesOf (es : List Event) : List (String × Binding) :=
  es.map fun e => (e.name, e.binding)

/-- The names of a target that is a child of a node. -/
def partNames (r : Role) (t : Tree) : List String :=
  ((t.child? r).map targetNames).getD []

/-- The names that a loop binds behind what it runs over. -/
def loopNames (t : Tree) : List String :=
  if t.kind = .forStatement then partNames .left t else []

/-- The scope that is opened for a child of a node, if it is the body of a function or a class.  The
parameters of a function are bound from the start on. -/
def bodyEnv? (parent t : Tree) : Option Env :=
  match scopeOver? parent.kind with
  | some kind =>
      if t.role = some .body then some ⟨kind, (untrackedNames (bodyNames parent)).reverse⟩ else none
  | none => none

/-- The scope that a comprehension is, its targets bound from the start on. -/
def comprehensionEnv (t : Tree) : Env :=
  ⟨.comprehension, (untrackedNames ((t.children.filter fun c => c.kind = .forInClause).flatMap
    (partNames .left))).reverse⟩

/-! ## Readings -/

/-- A call with the module and the command that its callee is read as. -/
abbrev Reading := Tree × Option (Nat × String)

/-- How a text is read. -/
structure Reader where
  tracked : Tracked.Set
  /-- The depth below which no node is looked at, if there is one. -/
  limit : Option Nat
  /-- Whether an import from `__future__` binds names. -/
  future : Bool

namespace Reader

/-- A reading of all nodes that takes each import for one. -/
def whole (tracked : Tracked.Set) : Reader :=
  ⟨tracked, none, true⟩

/-- A reading as deep as the searches go, that skips imports from `__future__`. -/
def bounded (tracked : Tracked.Set) : Reader :=
  ⟨tracked, some depthLimit, false⟩

variable (r : Reader)

def skips (depth : Nat) : Bool :=
  r.limit.any (· < depth)

/-- The names that a form binds in the scope that it is written in, where it ends. -/
def bound (t : Tree) : List (String × Binding) :=
  match t.kind with
  | .importStatement | .importFromStatement => namesOf (importedEvents r.tracked ⟨0, 0, []⟩ t)
  | .futureImportStatement =>
      if r.future then
        namesOf (t.children.flatMap
          (importFromEvents r.tracked ⟨0, 0, []⟩ t.span.stop (some "__future__")))
      else []
  | .assignment | .augmentedAssignment => untrackedNames (partNames .left t)
  | .asPattern => untrackedNames (partNames .alias t)
  | .namedExpression => untrackedNames (partNames .name t)
  | .functionDefinition | .classDefinition =>
      untrackedNames ((t.child? .name).map Tree.text).toList
  | _ => []

mutual

/-- The open scopes behind a tree, and the calls that are read in it. -/
def pass (depth : Nat) (st : Stack) : Tree → Stack × List Reading
  | .node kind role span text children =>
      let t := Syntax.Tree.node kind role span text children
      if r.skips depth then (st, [])
      else if isComprehension kind then
        let inside := passIn (depth + 1) t [] (comprehensionEnv t :: st) children
        (inside.1.tail, inside.2)
      else
        let here := if kind = .call then [(t, st.callee? r.tracked t)] else []
        let inside := passIn (depth + 1) t (loopNames t) st children
        (Stack.bind inside.1 (r.bound t), here ++ inside.2)

/-- The same for children of a node, with names that are bound behind the first one that plays the
part of what a loop runs over. -/
def passIn (depth : Nat) (parent : Tree) (pending : List String) (st : Stack) :
    List Tree → Stack × List Reading
  | [] => (st, [])
  | t :: rest =>
      let here :=
        match bodyEnv? parent t with
        | some env =>
            let inside := pass depth (env :: st) t
            (inside.1.tail, inside.2)
        | none => pass depth st t
      let isRight := t.role = some .right
      let st := if isRight then Stack.bind here.1 (untrackedNames pending) else here.1
      let behind := passIn depth parent (if isRight then [] else pending) st rest
      (behind.1, here.2 ++ behind.2)

end

/-- The calls that are read in a tree, each before those inside it. -/
def readings (t : Tree) : List Reading :=
  (r.pass 0 [⟨.module, []⟩] t).2

end Reader

/-! ## Calls of a tree -/

variable {tracked : Tracked.Set} {p q : Place} {t u : Tree} {st : Stack} {depth : Nat}

mutual

/-- The calls in a tree at which the search arrives, each before those inside it. -/
def callNodes (depth : Nat) : Tree → List Tree
  | .node kind role span text children =>
      if depthLimit < depth then []
      else
        (if kind = .call then [Syntax.Tree.node kind role span text children] else []) ++
          callNodesIn (depth + 1) children

def callNodesIn (depth : Nat) : List Tree → List Tree
  | [] => []
  | t :: rest => callNodes depth t ++ callNodesIn depth rest

end

theorem callNodes_eq (depth : Nat) (t : Tree) : callNodes depth t =
    if depthLimit < depth then []
    else (if t.kind = .call then [t] else []) ++ callNodesIn (depth + 1) t.children := by
  cases t
  rw [callNodes]
  rfl

theorem callNodesIn_eq (depth : Nat) (ts : List Tree) :
    callNodesIn depth ts = ts.flatMap (callNodes depth) := by
  induction ts with
  | nil => rfl
  | cons t rest ih => rw [callNodesIn, ih, List.flatMap_cons]

theorem mem_callNodes {depth : Nat} {t : Tree} :
    u ∈ callNodes depth t ↔ Searched u depth t ∧ u.kind = .call := by
  rw [callNodes_eq, searched_iff, callNodesIn_eq]
  by_cases hdepth : depthLimit < depth
  · simp [hdepth, Nat.not_le.2 hdepth]
  · rw [if_neg hdepth, List.mem_append, List.mem_flatMap]
    have hchildren : (∃ c ∈ t.children, u ∈ callNodes (depth + 1) c) ↔
        (∃ c ∈ t.children, Searched u (depth + 1) c) ∧ u.kind = .call := by
      constructor
      · rintro ⟨c, hc, hu⟩
        have _ := sizeOf_child hc
        obtain ⟨hu, hkind⟩ := mem_callNodes.1 hu
        exact ⟨⟨c, hc, hu⟩, hkind⟩
      · rintro ⟨⟨c, hc, hu⟩, hkind⟩
        have _ := sizeOf_child hc
        exact ⟨c, hc, mem_callNodes.2 ⟨hu, hkind⟩⟩
    rw [hchildren]
    constructor
    · rintro (hu | ⟨hu, hkind⟩)
      · split at hu
        · rw [List.mem_singleton.1 hu]
          exact ⟨⟨Nat.le_of_not_lt hdepth, .inl rfl⟩, ‹_›⟩
        · cases hu
      · exact ⟨⟨Nat.le_of_not_lt hdepth, .inr hu⟩, hkind⟩
    · rintro ⟨⟨-, rfl | hu⟩, hkind⟩
      · simp [hkind]
      · exact .inr ⟨hu, hkind⟩
termination_by sizeOf t

/-- The calls of tracked modules are those among them whose callees stand for a command. -/
theorem callsAt_eq (source : List Char) (s : Scopes) (depth : Nat) (t : Tree) :
    callsAt source s depth t = (callNodes depth t).filterMap (call? source s) := by
  have children : ∀ (depth : Nat) (ts : List Tree),
      (∀ c ∈ ts, callsAt source s depth c = (callNodes depth c).filterMap (call? source s)) →
        callsIn source s depth ts = (callNodesIn depth ts).filterMap (call? source s) := by
    intro depth ts h
    induction ts with
    | nil => simp [callsIn, callNodesIn]
    | cons c rest ih =>
        rw [callsIn, callNodesIn, List.filterMap_append, h c List.mem_cons_self,
          ih fun c hc => h c (List.mem_cons_of_mem _ hc)]
  obtain ⟨kind, role, span, text, cs⟩ := t
  rw [callsAt, callNodes]
  split
  · rfl
  · rw [List.filterMap_append, children (depth + 1) cs fun c hc => by
      have _ := sizeOf_child (t := .node kind role span text cs) hc
      exact callsAt_eq source s (depth + 1) c]
    split
    · rw [List.filterMap_cons]
      cases call? source s (.node kind role span text cs) <;> rfl
    · have hnone : call? source s (.node kind role span text cs) = none := if_neg ‹_›
      rw [hnone]
      rfl
termination_by sizeOf t

/-! ## Passes over single nodes -/

namespace Reader

variable (r : Reader)

theorem pass_eq (depth : Nat) (st : Stack) (t : Tree) : r.pass depth st t =
    if r.skips depth then (st, [])
    else if isComprehension t.kind then
      let inside := r.passIn (depth + 1) t [] (comprehensionEnv t :: st) t.children
      (inside.1.tail, inside.2)
    else
      let inside := r.passIn (depth + 1) t (loopNames t) st t.children
      (Stack.bind inside.1 (r.bound t),
        (if t.kind = .call then [(t, st.callee? r.tracked t)] else []) ++ inside.2) := by
  cases t
  rw [pass]
  rfl

variable {r}

theorem bodyEnv?_of_kind {parent : Tree} (h : scopeOver? parent.kind = none) (c : Tree) :
    bodyEnv? parent c = none := by
  unfold bodyEnv?
  rw [h]

/-- A child that is not a body and that nothing is bound behind. -/
theorem passIn_cons {parent c : Tree} {pending : List String} (hbody : bodyEnv? parent c = none)
    (hpending : pending = [] ∨ c.role ≠ some .right) (rest : List Tree) :
    r.passIn depth parent pending st (c :: rest) =
      let behind := r.passIn depth parent pending (r.pass depth st c).1 rest
      (behind.1, (r.pass depth st c).2 ++ behind.2) := by
  rw [passIn, hbody]
  rcases hpending with rfl | hrole
  · simp [untrackedNames]
  · simp [hrole]

/-- What a loop runs over, with the names that are bound behind it. -/
theorem passIn_right {parent c : Tree} {pending : List String} (hbody : bodyEnv? parent c = none)
    (hrole : c.role = some .right) (rest : List Tree) :
    r.passIn depth parent pending st (c :: rest) =
      let behind := r.passIn depth parent []
        (Stack.bind (r.pass depth st c).1 (untrackedNames pending)) rest
      (behind.1, (r.pass depth st c).2 ++ behind.2) := by
  rw [passIn, hbody]
  simp [hrole]

/-- A body, as the last child. -/
theorem passIn_body {parent c : Tree} {pending : List String} {env : Env} {st' : Stack}
    {calls : List Reading} (hbody : bodyEnv? parent c = some env) (hrole : c.role ≠ some .right)
    (hpass : r.pass depth (env :: st) c = (st', calls)) :
    r.passIn depth parent pending st [c] = (st'.tail, calls) := by
  rw [passIn, hbody]
  simp [hrole, hpass, passIn]

/-- A node that is looked at and that is no scope as a whole. -/
theorem pass_of_passIn {st' : Stack} {calls : List Reading} (hdepth : r.skips depth = false)
    (hkind : isComprehension t.kind = false)
    (h : r.passIn (depth + 1) t (loopNames t) st t.children = (st', calls)) :
    r.pass depth st t = (Stack.bind st' (r.bound t),
      (if t.kind = .call then [(t, st.callee? r.tracked t)] else []) ++ calls) := by
  rw [pass_eq, hdepth, hkind, h]
  rfl

theorem bound_of_inert (h : Inert t) : r.bound t = [] := by
  obtain ⟨⟨-, hstatement, hbinder⟩, -⟩ := inert_iff.1 h
  unfold bound
  split
  all_goals first
    | rfl
    | rename_i heq
      rw [heq] at hstatement hbinder
      first
        | exact absurd hstatement (by decide)
        | exact absurd hbinder (by decide)

theorem scopeOver?_of_inert (h : Inert t) : scopeOver? t.kind = none := by
  obtain ⟨⟨-, hstatement, hbinder⟩, -⟩ := inert_iff.1 h
  unfold scopeOver?
  split
  all_goals first
    | rfl
    | rename_i heq
      rw [heq] at hstatement hbinder
      first
        | exact absurd hstatement (by decide)
        | exact absurd hbinder (by decide)

theorem loopNames_of_inert (h : Inert t) : loopNames t = [] := by
  obtain ⟨⟨-, hstatement, -⟩, -⟩ := inert_iff.1 h
  unfold loopNames
  rw [if_neg]
  intro hkind
  rw [hkind] at hstatement
  cases hstatement

theorem not_comprehension_of_inert (h : Inert t) : isComprehension t.kind = false := by
  obtain ⟨⟨-, -, hbinder⟩, -⟩ := inert_iff.1 h
  unfold isComprehension
  split
  all_goals first
    | rfl
    | rename_i heq
      rw [heq] at hbinder
      cases hbinder

mutual

/-- Nothing is bound or called in a tree without calls, statements and expressions that bind
names. -/
theorem pass_inert (r : Reader) : ∀ (depth : Nat) (st : Stack) {t : Tree}, Inert t →
    r.pass depth st t = (st, [])
  | depth, st, .node kind role span text children, h => by
      have hin := passIn_inert r (depth + 1) st (scopeOver?_of_inert h) (inert_iff.1 h).2
      have hcall := (inert_iff.1 h).1.1
      rw [pass_eq, not_comprehension_of_inert h, loopNames_of_inert h, bound_of_inert h,
        if_neg hcall]
      simp only [Tree.children] at hin
      simp [Tree.children, hin]

theorem passIn_inert (r : Reader) : ∀ (depth : Nat) (st : Stack) {parent : Tree} {ts : List Tree},
    scopeOver? parent.kind = none → (∀ c ∈ ts, Inert c) →
      r.passIn depth parent [] st ts = (st, [])
  | depth, st, parent, [], hbody, h => by
      rw [passIn]
  | depth, st, parent, c :: rest, hbody, h => by
      rw [passIn_cons (bodyEnv?_of_kind hbody c) (.inl rfl),
        pass_inert r depth st (h c List.mem_cons_self)]
      exact passIn_inert r depth st hbody fun c hc => h c (List.mem_cons_of_mem _ hc)

end

end Reader

mutual

theorem callNodes_inert : ∀ (depth : Nat) {t : Tree}, Inert t → callNodes depth t = []
  | depth, .node kind role span text children, h => by
      rw [callNodes_eq, if_neg (inert_iff.1 h).1.1, callNodesIn_inert (depth + 1) (inert_iff.1 h).2]
      simp

theorem callNodesIn_inert : ∀ (depth : Nat) {ts : List Tree}, (∀ c ∈ ts, Inert c) →
    callNodesIn depth ts = []
  | depth, [], h => by rw [callNodesIn]
  | depth, c :: rest, h => by
      rw [callNodesIn, callNodes_inert depth (h c List.mem_cons_self),
        callNodesIn_inert depth fun c hc => h c (List.mem_cons_of_mem _ hc)]
      rfl

end

/-! ## Names and bindings -/

@[simp] theorem namesOf_append (es fs : List Event) :
    namesOf (es ++ fs) = namesOf es ++ namesOf fs :=
  List.map_append

@[simp] theorem namesOf_untracked (p : Place) (offset : Nat) (names : List String) :
    namesOf (p.untracked offset names) = untrackedNames names := by
  simp [namesOf, Place.untracked, untrackedNames, Place.event]

theorem namesOf_flatMap {α : Type} (l : List α) (f : α → List Event) :
    namesOf (l.flatMap f) = l.flatMap fun a => namesOf (f a) :=
  List.map_flatMap

/-- What an import statement makes names stand for does not depend on where it stands. -/
theorem namesOf_imported (p q : Place) (t : Tree) :
    namesOf (importedEvents tracked p t) = namesOf (importedEvents tracked q t) := by
  have path : ∀ (offset : Nat) (c : Tree),
      namesOf (importEvents tracked p offset c) = namesOf (importEvents tracked q offset c) := by
    intro offset c
    unfold importEvents
    split
    · split <;> rfl
    · split
      · split <;> rfl
      · rfl
    · rfl
  have member : ∀ (offset : Nat) (origin : Option String) (c : Tree),
      namesOf (importFromEvents tracked p offset origin c) =
        namesOf (importFromEvents tracked q offset origin c) := by
    intro offset origin c
    unfold importFromEvents
    dsimp only
    split <;> rfl
  unfold importedEvents
  split
  · rw [namesOf_flatMap, namesOf_flatMap]
    simp only [path]
  · rw [namesOf_flatMap, namesOf_flatMap]
    simp only [member]

theorem namesOf_clauses (p : Place) (t : Tree) : namesOf (clauseEvents p t) =
    untrackedNames ((t.children.filter fun c => c.kind = .forInClause).flatMap
      (partNames .left)) := by
  unfold clauseEvents
  rw [namesOf_flatMap, untrackedNames, List.map_flatMap]
  refine congrArg (List.flatMap · _) (funext fun c => ?_)
  unfold partNames
  cases c.child? .left with
  | none => rfl
  | some left => exact namesOf_untracked _ _ _

namespace Reader

theorem bound_of_import (h : isImport t.kind = true) (p : Place) :
    (bounded tracked).bound t = namesOf (importedEvents tracked p t) := by
  rw [namesOf_imported p ⟨0, 0, []⟩]
  unfold isImport at h
  split at h
  · unfold bound
    rw [‹t.kind = _›]
    rfl
  · unfold bound
    rw [‹t.kind = _›]
    rfl
  · cases h

/-- A node binds at its end what it binds by itself, unless it is a loop. -/
theorem bound_of_own (ht : Formed t) (himport : isImport t.kind = false)
    (hloop : t.kind ≠ .forStatement) (p : Place) :
    (bounded tracked).bound t = namesOf (ownEvents p t) := by
  -- A part that is missing binds nothing on either side.
  have target : ∀ (part : Role) (offset : Nat), untrackedNames (partNames part t) =
      namesOf (((t.child? part).map fun c => p.untracked offset (targetNames c)).getD []) := by
    intro part offset
    unfold partNames
    cases t.child? part with
    | none => rfl
    | some c => exact (namesOf_untracked _ _ _).symm
  have definition : untrackedNames ((t.child? .name).map Tree.text).toList =
      namesOf (((t.child? .name).map fun c => [p.event c.text t.span.stop .untracked]).getD []) := by
    cases t.child? .name <;> rfl
  unfold bound ownEvents
  split
  · rw [‹t.kind = _›] at himport
    cases himport
  · rw [‹t.kind = _›] at himport
    cases himport
  · rw [‹t.kind = _›]
    rfl
  · rw [‹t.kind = _›, target .left t.span.stop]
    cases t.child? .left <;> rfl
  · rw [‹t.kind = _›, target .left t.span.stop]
    cases t.child? .left <;> rfl
  · rw [‹t.kind = _›, target .alias t.span.stop]
    cases t.child? .alias <;> rfl
  · rw [‹t.kind = _›, target .name t.span.stop]
    cases t.child? .name <;> rfl
  · rw [‹t.kind = _›, definition]
    cases t.child? .name <;> rfl
  · rw [‹t.kind = _›, definition]
    cases t.child? .name <;> rfl
  · -- No name stands beside the expression of a handler.
    split
    all_goals first
      | exact absurd ‹t.kind = _› ‹_›
      | rfl
      | have hshape := ht.shape (by rw [‹t.kind = _›]; rfl)
        rw [‹t.kind = _›] at hshape
        have hnone : t.child? .alias = none :=
          List.find?_eq_none.2 fun c hc => by simpa using hshape c hc
        rw [hnone]
        rfl

theorem bound_of_loop (h : t.kind = .forStatement) : (bounded tracked).bound t = [] := by
  unfold bound
  rw [h]

theorem loopNames_of_own (h : t.kind = .forStatement) (p : Place) :
    untrackedNames (loopNames t) = namesOf (ownEvents p t) := by
  unfold ownEvents loopNames partNames
  rw [h, if_pos rfl]
  cases t.child? .left with
  | none => rfl
  | some left => exact (namesOf_untracked _ _ _).symm

end Reader

end Longhand.Scope
