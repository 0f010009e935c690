import Mathlib
import Longhand.Proofs.Twin

/-!
# Forms of trees

In the tree of a text the statements stand above the expressions: no statement is inside an
expression, and the parts of a compound statement come in a fixed order.  What a parser yields is
told by a triple without a precondition that says nothing of failures.
-/

namespace Longhand.Syntax

open Std.Do

set_option mvcgen.warning false

/-! ## Statements and expressions -/

/-- Whether a node is a statement, or a part of one that holds a block. -/
def Kind.isStatement : Kind → Bool
  | .module | .expressionStatement | .importStatement | .importFromStatement
  | .futureImportStatement | .printStatement | .execStatement | .assertStatement
  | .returnStatement | .deleteStatement | .raiseStatement | .passStatement | .breakStatement
  | .continueStatement | .globalStatement | .nonlocalStatement | .typeAliasStatement
  | .ifStatement | .elifClause | .elseClause | .whileStatement | .forStatement | .tryStatement
  | .exceptClause | .finallyClause | .withStatement | .functionDefinition | .classDefinition
  | .decoratedDefinition | .matchStatement | .caseClause | .block => Bool.true
  | _ => Bool.false

/-- Whether the last of some trees is a body and the others are not. -/
def BodyLast (ts : List Tree) : Prop :=
  ∃ outer body, ts = outer ++ [body] ∧ body.role = some .body ∧ ∀ t ∈ outer, t.role ≠ some .body

@[simp] theorem bodyLast_append {ts : List Tree} {body : Tree} :
    BodyLast (ts ++ [body]) ↔ body.role = some .body ∧ ∀ t ∈ ts, t.role ≠ some .body := by
  constructor
  · rintro ⟨outer, last, heq, hrole, houter⟩
    obtain ⟨rfl, hlast⟩ := List.append_inj' heq rfl
    cases hlast
    exact ⟨hrole, houter⟩
  · rintro ⟨hrole, houter⟩
    exact ⟨ts, body, rfl, hrole, houter⟩

/-- Whether no node of a tree is a statement, and each function in it has one body. -/
inductive Plain : Tree → Prop
  | node {k : Kind} {r : Option Role} {s : Text.Span} {x : String} {cs : List Tree} :
      k.isStatement = false → (k = .lambda → BodyLast cs) → (∀ c ∈ cs, Plain c) →
      Plain (.node k r s x cs)

@[simp] theorem plain_node {k : Kind} {r : Option Role} {s : Text.Span} {x : String}
    {cs : List Tree} : Plain (.node k r s x cs) ↔
      k.isStatement = false ∧ (k = .lambda → BodyLast cs) ∧ ∀ c ∈ cs, Plain c := by
  constructor
  · intro h
    cases h with
    | node hkind hbody hcs => exact ⟨hkind, hbody, hcs⟩
  · rintro ⟨hkind, hbody, hcs⟩
    exact .node hkind hbody hcs

@[simp] theorem plain_withRole {r : Role} {t : Tree} : Plain (t.withRole r) ↔ Plain t := by
  cases t
  simp [Tree.withRole]

@[simp] theorem role_node (k : Kind) (r : Option Role) (s : Text.Span) (x : String)
    (cs : List Tree) : (Tree.node k r s x cs).role = r :=
  rfl

@[simp] theorem kind_node (k : Kind) (r : Option Role) (s : Text.Span) (x : String)
    (cs : List Tree) : (Tree.node k r s x cs).kind = k :=
  rfl

@[simp] theorem children_node (k : Kind) (r : Option Role) (s : Text.Span) (x : String)
    (cs : List Tree) : (Tree.node k r s x cs).children = cs :=
  rfl

/-- Whether a tree holds no statement and plays no part yet. -/
def Loose (t : Tree) : Prop :=
  Plain t ∧ t.role = none

theorem Loose.plain {t : Tree} (h : Loose t) : Plain t :=
  h.1

@[simp] theorem plain_leaf {k : Kind} {l : Lexeme} :
    Plain (leaf k l) ↔ k.isStatement = false ∧ (k = .lambda → BodyLast []) := by
  simp [leaf]

@[simp] theorem role_leaf (k : Kind) (l : Lexeme) : (leaf k l).role = none :=
  rfl

@[simp] theorem kind_leaf (k : Kind) (l : Lexeme) : (leaf k l).kind = k :=
  rfl

/-- Whether a node is an expression that binds names. -/
def Kind.isBinder : Kind → Bool
  | .assignment | .augmentedAssignment | .namedExpression | .asPattern | .lambda
  | .listComprehension | .setComprehension | .dictionaryComprehension | .generatorExpression =>
      Bool.true
  | _ => Bool.false

/-- Whether no node of a tree is a call, a statement or an expression that binds names. -/
inductive Inert : Tree → Prop
  | node {k : Kind} {r : Option Role} {s : Text.Span} {x : String} {cs : List Tree} :
      k ≠ .call → k.isStatement = false → k.isBinder = false → (∀ c ∈ cs, Inert c) →
      Inert (.node k r s x cs)

@[simp] theorem inert_node {k : Kind} {r : Option Role} {s : Text.Span} {x : String}
    {cs : List Tree} : Inert (.node k r s x cs) ↔
      (k ≠ .call ∧ k.isStatement = false ∧ k.isBinder = false) ∧ ∀ c ∈ cs, Inert c := by
  constructor
  · intro h
    cases h with
    | node hcall hkind hbinder hcs => exact ⟨⟨hcall, hkind, hbinder⟩, hcs⟩
  · rintro ⟨⟨hcall, hkind, hbinder⟩, hcs⟩
    exact .node hcall hkind hbinder hcs

theorem inert_iff {t : Tree} : Inert t ↔
    (t.kind ≠ .call ∧ t.kind.isStatement = false ∧ t.kind.isBinder = false) ∧
      ∀ c ∈ t.children, Inert c := by
  cases t
  exact inert_node

@[simp] theorem inert_withRole {r : Role} {t : Tree} : Inert (t.withRole r) ↔ Inert t := by
  cases t
  simp [Tree.withRole]

@[simp] theorem inert_leaf {k : Kind} {l : Lexeme} :
    Inert (leaf k l) ↔ k ≠ .call ∧ k.isStatement = false ∧ k.isBinder = false := by
  simp [leaf]

/-! ## Compound statements -/

/-- What the children of a statement look like, for the kinds of statements where this matters: what
they bind, which of their parts are expressions, and which of their parts are arms. -/
def Shape : Kind → List Tree → Prop
  | .importStatement, cs | .importFromStatement, cs =>
      ∀ c ∈ cs, Inert c ∧ (c.role = some .name → ∃ u ∈ c.children, u.kind = .identifier)
  | .forStatement, cs => ∃ left right rest, cs = left :: right :: rest ∧
      left.role = some .left ∧ right.role = some .right ∧ Plain left ∧ Plain right
  | .functionDefinition, cs | .classDefinition, cs => ∃ id outer body,
      cs = id :: (outer ++ [body]) ∧ id.kind = .identifier ∧ id.role = some .name ∧ Plain id ∧
        body.role = some .body ∧ ∀ t ∈ outer, Plain t ∧ t.role ≠ some .body
  | .ifStatement, cs => ∃ condition first rest, cs = condition :: first :: rest ∧
      Plain condition ∧ condition.role = none ∧ first.role = some .consequence ∧
        ∀ t ∈ rest, t.kind = .elifClause ∨ t.kind = .elseClause
  | .tryStatement, cs => ∃ body clauses final, cs = body :: (clauses ++ final) ∧
      body.role = some .body ∧ (∀ t ∈ clauses, t.kind = .exceptClause ∨ t.kind = .elseClause) ∧
        ∀ t ∈ final, t.kind = .finallyClause ∧ t.role = none
  | .matchStatement, cs => ∃ subjects block, cs = subjects ++ [block] ∧
      (∀ t ∈ subjects, Plain t ∧ t.role = none) ∧ block.role = some .body ∧
        block.kind = .block ∧ ∀ t ∈ block.children, t.kind = .caseClause
  | .exceptClause, cs => ∀ c ∈ cs, c.role ≠ some .alias
  | _, _ => True

/-- Whether the statements of a tree stand above its expressions. -/
inductive Formed : Tree → Prop
  | plain {t : Tree} : Plain t → Formed t
  | statement {k : Kind} {r : Option Role} {s : Text.Span} {x : String} {cs : List Tree} :
      k.isStatement = Bool.true → Shape k cs → (∀ c ∈ cs, Formed c) → Formed (.node k r s x cs)

@[simp] theorem Plain.formed {t : Tree} (h : Plain t) : Formed t :=
  .plain h

@[simp] theorem Plain.child {t u : Tree} (h : Plain t) (hu : u ∈ t.children) : Plain u := by
  cases h with
  | node _ _ hcs => exact hcs u hu

theorem Formed.child {t u : Tree} (h : Formed t) (hu : u ∈ t.children) : Formed u := by
  cases h with
  | plain h => exact .plain (h.child hu)
  | statement _ _ hcs => exact hcs u hu

theorem Plain.isStatement {t : Tree} (h : Plain t) : t.kind.isStatement = false := by
  cases h with
  | node hkind _ _ => exact hkind

/-- A tree is an expression, or its children have the shape of its kind of statement. -/
theorem Formed.shape {t : Tree} (h : Formed t) (hkind : t.kind.isStatement = Bool.true) :
    Shape t.kind t.children := by
  cases h with
  | plain h =>
      rw [h.isStatement] at hkind
      cases hkind
  | statement _ hshape _ => exact hshape

theorem Formed.plain_of_kind {t : Tree} (h : Formed t) (hkind : t.kind.isStatement = false) :
    Plain t := by
  cases h with
  | plain h => exact h
  | statement hstatement _ _ =>
      rw [kind_node, hstatement] at hkind
      cases hkind

theorem formed_leaf {k : Kind} {l : Lexeme} (hk : k.isStatement = Bool.true)
    (hshape : Shape k []) : Formed (leaf k l) :=
  .statement hk hshape fun _ h => (nomatch h)

@[simp] theorem formed_withRole {r : Role} {t : Tree} : Formed (t.withRole r) ↔ Formed t := by
  obtain ⟨k, r', s, x, cs⟩ := t
  constructor
  · intro h
    cases h with
    | plain h => exact .plain (plain_withRole.1 h)
    | statement hk hshape hcs => exact .statement hk hshape hcs
  · intro h
    cases h with
    | plain h => exact .plain (plain_withRole.2 h)
    | statement hk hshape hcs => exact .statement hk hshape hcs

/-! ## Parsers -/

section Parsers

variable {α : Type}

/-- What a triple says of a parser. -/
theorem yields_iff {P : α → Prop} {p : Parser α} :
    ⦃⌜True⌝⦄ p ⦃⇓? a => ⌜P a⌝⦄ ↔ ∀ c a c', p c = .ok (a, c') → P a := by
  constructor
  · intro h c a c' hp
    have hc := h c trivial
    change ((wp (p c)).apply (fun r => ⌜P r.1⌝, ExceptConds.true)).down at hc
    rw [hp] at hc
    exact hc
  · intro h c _
    change ((wp (p c)).apply (fun r => ⌜P r.1⌝, ExceptConds.true)).down
    cases hp : p c with
    | ok r => exact h _ _ _ hp
    | error e => trivial

@[spec] theorem peek_spec (e : Expect) : ⦃⌜True⌝⦄ peek e ⦃⇓? _ => ⌜True⌝⦄ := by
  unfold peek
  mvcgen

@[spec] theorem accept_spec (l : Lexeme) : ⦃⌜True⌝⦄ accept l ⦃⇓? _ => ⌜True⌝⦄ := by
  unfold accept
  mvcgen

@[spec] theorem returnTo_spec (c : Cursor) : ⦃⌜True⌝⦄ returnTo c ⦃⇓? _ => ⌜True⌝⦄ := by
  unfold returnTo
  mvcgen

@[spec] theorem lastEnd_spec : ⦃⌜True⌝⦄ lastEnd ⦃⇓? _ => ⌜True⌝⦄ := by
  unfold lastEnd
  mvcgen

@[spec] theorem reject_spec (P : α → Prop) :
    ⦃⌜True⌝⦄ (reject : Parser α) ⦃⇓? a => ⌜P a⌝⦄ := by
  unfold reject
  mvcgen

@[spec] theorem expect_spec (e : Expect) (w : Token → Bool) :
    ⦃⌜True⌝⦄ expect e w ⦃⇓? _ => ⌜True⌝⦄ := by
  mvcgen [expect]

@[spec] theorem optional_spec (e : Expect) (w : Token → Bool) :
    ⦃⌜True⌝⦄ optional? e w ⦃⇓? _ => ⌜True⌝⦄ := by
  mvcgen [optional?]

/-- What holds of the results of both ways holds of that of the first that does not fail. -/
theorem firstOf_spec {P : α → Prop} {p q : Parser α} (hp : ⦃⌜True⌝⦄ p ⦃⇓? a => ⌜P a⌝⦄)
    (hq : ⦃⌜True⌝⦄ q ⦃⇓? a => ⌜P a⌝⦄) : ⦃⌜True⌝⦄ firstOf p q ⦃⇓? a => ⌜P a⌝⦄ := by
  rw [yields_iff] at hp hq ⊢
  intro c a c' h
  unfold firstOf at h
  split at h
  · rename_i heq
    cases h
    exact hp _ _ _ heq
  · exact hq _ _ _ h

/-- What each step keeps holds in the end. -/
theorem iterate_spec {P : α → Prop} {step : α → Parser (Option α)}
    (hstep : ∀ a, P a → ⦃⌜True⌝⦄ step a ⦃⇓? o => ⌜∀ b, o = some b → P b⌝⦄) (n : Nat) {a : α}
    (ha : P a) : ⦃⌜True⌝⦄ iterate step n a ⦃⇓? b => ⌜P b⌝⦄ := by
  induction n generalizing a with
  | zero => mvcgen [iterate]
  | succ n ih =>
      have hfirst := hstep a ha
      unfold iterate
      mvcgen [hfirst, ih]
      exact fun _ h => h _ rfl

theorem loop_spec (P : α → Prop) (a : α) (step : α → Parser (Option α)) (ha : P a)
    (hstep : ∀ a, P a → ⦃⌜True⌝⦄ step a ⦃⇓? o => ⌜∀ b, o = some b → P b⌝⦄) :
    ⦃⌜True⌝⦄ loop a step ⦃⇓? b => ⌜P b⌝⦄ := by
  intro c
  exact iterate_spec hstep (c.size + 1) ha c

/-- The node of an expression. -/
@[spec] theorem node_spec {k : Kind} {start : Nat} {cs : List Tree} (hkind : k.isStatement = false)
    (hbody : k = .lambda → BodyLast cs) (hcs : ∀ c ∈ cs, Plain c) :
    ⦃⌜True⌝⦄ node k start cs ⦃⇓? t => ⌜Loose t⌝⦄ := by
  mvcgen [node]
  exact ⟨.node hkind hbody hcs, rfl⟩

@[spec] theorem name_spec (e : Expect) :
    ⦃⌜True⌝⦄ name e ⦃⇓? t => ⌜Loose t ∧ t.kind = .identifier ∧ Inert t⌝⦄ := by
  mvcgen [name]
  simp [Loose, Kind.isStatement, Kind.isBinder]

/-! ## Lists -/

section Lists

variable {P : Tree → Prop} {item : Parser Tree}

/-- What each item is, each of those separated by commas is. -/
theorem separated_spec (comma next : Expect) (more : Token → Bool)
    (hitem : ⦃⌜True⌝⦄ item ⦃⇓? t => ⌜P t⌝⦄) :
    ⦃⌜True⌝⦄ separated item comma next more ⦃⇓? r => ⌜∀ t ∈ r.1, P t⌝⦄ := by
  have further := loop_spec fun r : List Tree × Bool => ∀ t ∈ r.1, P t
  mvcgen [separated, furtherItem?, hitem, further]
  all_goals clear further
  all_goals simp_all

theorem furtherItems_spec (f : Follow) (more : Token → Bool)
    (hitem : ⦃⌜True⌝⦄ item ⦃⇓? t => ⌜P t⌝⦄) :
    ⦃⌜True⌝⦄ furtherItems item f more ⦃⇓? r => ⌜∀ t ∈ r.1, P t⌝⦄ := by
  have items := fun c n m => separated_spec c n m hitem
  mvcgen [furtherItems, items]
  all_goals simp_all

end Lists

/-! ## Expressions in a row -/

/-- Trees that are collected one by one. -/
@[spec] theorem loop_trees_spec (a : List Tree) (step : List Tree → Parser (Option (List Tree)))
    (ha : ∀ t ∈ a, Loose t) (hstep : ∀ a, (∀ t ∈ a, Loose t) →
      ⦃⌜True⌝⦄ step a ⦃⇓? o => ⌜∀ b, o = some b → ∀ t ∈ b, Loose t⌝⦄) :
    ⦃⌜True⌝⦄ loop a step ⦃⇓? b => ⌜∀ t ∈ b, Loose t⌝⦄ :=
  loop_spec (fun ts => ∀ t ∈ ts, Loose t) a step ha hstep

@[spec] theorem loop_marked_spec (a : List Tree × Bool)
    (step : List Tree × Bool → Parser (Option (List Tree × Bool))) (ha : ∀ t ∈ a.1, Loose t)
    (hstep : ∀ a, (∀ t ∈ a.1, Loose t) →
      ⦃⌜True⌝⦄ step a ⦃⇓? o => ⌜∀ b, o = some b → ∀ t ∈ b.1, Loose t⌝⦄) :
    ⦃⌜True⌝⦄ loop a step ⦃⇓? b => ⌜∀ t ∈ b.1, Loose t⌝⦄ :=
  loop_spec (fun r : List Tree × Bool => ∀ t ∈ r.1, Loose t) a step ha hstep

/-- A tree that is built upon. -/
@[spec] theorem loop_tree_spec (a : Tree) (step : Tree → Parser (Option Tree)) (ha : Loose a)
    (hstep : ∀ a, Loose a → ⦃⌜True⌝⦄ step a ⦃⇓? o => ⌜∀ b, o = some b → Loose b⌝⦄) :
    ⦃⌜True⌝⦄ loop a step ⦃⇓? b => ⌜Loose b⌝⦄ :=
  loop_spec Loose a step ha hstep

/-- Whether a tree is a dotted name of at least one name. -/
def IsDotted (t : Tree) : Prop :=
  t.kind = .dottedName ∧ Inert t ∧ ∃ u ∈ t.children, u.kind = .identifier

@[spec] theorem dottedName_spec (e : Expect) :
    ⦃⌜True⌝⦄ dottedName e ⦃⇓? t => ⌜Loose t ∧ IsDotted t⌝⦄ := by
  have names := loop_spec fun ids : List Tree =>
    ∀ t ∈ ids, Loose t ∧ t.kind = .identifier ∧ Inert t
  mvcgen [dottedName, names, -loop_trees_spec]
  all_goals clear names
  case vc4.post.success.post.success.h_2 l _ ids z rest _ _ h =>
    refine ⟨?_, rfl, ?_, z, by simp [Tree.children], (h z (by simp)).2.1⟩
    · refine ⟨.node rfl (by simp) fun c hc => ?_, rfl⟩
      exact (h c (List.mem_reverse.1 hc)).1.plain
    · exact .node (by simp) rfl rfl fun c hc => (h c (List.mem_reverse.1 hc)).2.2
  all_goals simp_all [Loose, Kind.isStatement, Kind.isBinder]

/-! ## Rules -/

/-- What the tree of a rule is like. -/
def RuleForm : Rule → Tree → Prop
  | .suite, t => Formed t ∧ t.role = none
  | _, t => Loose t

/-- Whether the trees of all rules are as they should be. -/
structure Sorted (rules : Rules) : Prop where
  rule : ∀ r, ⦃⌜True⌝⦄ rules r ⦃⇓? t => ⌜RuleForm r t⌝⦄

@[spec] theorem expressions_spec {rules : Rules} (hr : Sorted rules) (f : Follow) :
    ⦃⌜True⌝⦄ expressions rules f ⦃⇓? r => ⌜∀ t ∈ r.1, Loose t⌝⦄ :=
  separated_spec _ _ _ (hr.rule (.expression f))

end Parsers

end Longhand.Syntax
