import Longhand.Proofs.Form.Expression
import Longhand.Syntax.Parse

/-!
# Forms of statements

The statements of a text stand above its expressions.
-/

namespace Longhand.Syntax

open Std.Do

set_option mvcgen.warning false

/-- Whether the statements of a tree stand above its expressions, and it plays no part yet. -/
def Stands (t : Tree) : Prop :=
  Formed t ∧ t.role = none

theorem Loose.stands {t : Tree} (h : Loose t) : Stands t :=
  ⟨h.plain.formed, h.2⟩

/-- The node of a statement, or of a part of one. -/
@[spec] theorem node_stands_spec {k : Kind} {start : Nat} {cs : List Tree}
    (hk : if k.isStatement then Shape k cs else k ≠ .lambda ∧ ∀ c ∈ cs, Plain c)
    (hcs : ∀ c ∈ cs, Formed c) :
    ⦃⌜True⌝⦄ node k start cs ⦃⇓? t => ⌜Stands t ∧ t.kind = k ∧ t.children = cs⌝⦄ := by
  mvcgen [node, -node_spec]
  refine ⟨⟨?_, rfl⟩, rfl, rfl⟩
  split at hk
  · exact .statement ‹_› hk hcs
  · rename_i hfalse
    exact .plain (.node (by simpa using hfalse) (fun h => absurd h hk.1) hk.2)

section Rules

variable {rules : Rules}

/-! ## Simple statements -/

/-- Whether a tree names what is imported. -/
def Names (t : Tree) : Prop :=
  Formed t ∧ Inert t ∧ ∃ u ∈ t.children, u.kind = .identifier

attribute [local spec] Sorted.rule

attribute [local simp] RuleForm Shape IsDotted Loose Stands Names Kind.isStatement Kind.isBinder
  or_imp forall_and

@[spec] theorem importItem_spec (e : Expect) :
    ⦃⌜True⌝⦄ importItem e ⦃⇓? t => ⌜Names t⌝⦄ := by
  mvcgen [importItem, -node_spec]
  all_goals simp_all
  rw [inert_iff]
  simp_all

@[spec] theorem importItems_spec (f : Follow) :
    ⦃⌜True⌝⦄ importItems f ⦃⇓? ts => ⌜∀ t ∈ ts, Names t⌝⦄ := by
  have items := fun c n m => separated_spec c n m (importItem_spec f.operator)
  mvcgen [importItems, items, -node_spec]

@[spec] theorem importList_spec :
    ⦃⌜True⌝⦄ importList ⦃⇓? ts => ⌜∀ t ∈ ts, Names t⌝⦄ := by
  mvcgen [importList, -node_spec]

@[spec] theorem importStatement_spec (l : Lexeme) :
    ⦃⌜True⌝⦄ importStatement l ⦃⇓? t => ⌜Stands t⌝⦄ := by
  mvcgen [importStatement, -node_spec]
  all_goals simp_all

@[spec] theorem importedModule_spec :
    ⦃⌜True⌝⦄ importedModule ⦃⇓? t => ⌜Stands t ∧ Inert t⌝⦄ := by
  have dots := loop_spec fun _ : Unit => True
  mvcgen [importedModule, node, dots, -node_spec, -node_stands_spec]
  all_goals clear dots
  all_goals simp_all

@[spec] theorem importFromStatement_spec (l : Lexeme) :
    ⦃⌜True⌝⦄ importFromStatement l ⦃⇓? t => ⌜Stands t⌝⦄ := by
  mvcgen [importFromStatement, -node_spec]
  all_goals simp_all +zetaDelta

variable (hr : Sorted rules)

include hr

@[spec] theorem printStatement_spec (l : Lexeme) :
    ⦃⌜True⌝⦄ printStatement rules l ⦃⇓? t => ⌜Stands t⌝⦄ := by
  have items := fun f m => furtherItems_spec f m (hr.rule (.expression Follow.line))
  mvcgen [printStatement, items, -node_spec]
  all_goals clear items
  all_goals simp_all

@[spec] theorem execCode_spec :
    ⦃⌜True⌝⦄ execCode rules ⦃⇓? t => ⌜Loose t⌝⦄ := by
  mvcgen [execCode, -node_spec]
  all_goals simp_all

@[spec] theorem execStatement_spec (l : Lexeme) :
    ⦃⌜True⌝⦄ execStatement rules l ⦃⇓? t => ⌜Stands t⌝⦄ := by
  mvcgen [execStatement, -node_spec]
  all_goals simp_all

@[spec] theorem typeAliasStatement_spec (l : Lexeme) :
    ⦃⌜True⌝⦄ typeAliasStatement rules l ⦃⇓? t => ⌜Stands t⌝⦄ := by
  mvcgen [typeAliasStatement, -node_spec]
  all_goals simp_all

@[spec] theorem expressionOrList_spec (f : Follow) :
    ⦃⌜True⌝⦄ expressionOrList rules f ⦃⇓? t => ⌜Loose t⌝⦄ := by
  mvcgen [expressionOrList, oneOrList, -node_stands_spec]
  all_goals simp_all

@[spec] theorem expressionOrListOpt_spec :
    ⦃⌜True⌝⦄ expressionOrList? rules ⦃⇓? ts => ⌜∀ t ∈ ts, Loose t⌝⦄ := by
  mvcgen [expressionOrList?, -node_spec]
  all_goals simp_all

@[spec] theorem wordStatement_spec (k : Kind) (hk : k = .returnStatement ∨ k = .assertStatement)
    (l : Lexeme) :
    ⦃⌜True⌝⦄ wordStatement rules k l ⦃⇓? t => ⌜Stands t⌝⦄ := by
  mvcgen [wordStatement, -node_spec]
  all_goals rcases hk with rfl | rfl <;> simp_all

@[spec] theorem raiseStatement_spec (l : Lexeme) :
    ⦃⌜True⌝⦄ raiseStatement rules l ⦃⇓? t => ⌜Stands t⌝⦄ := by
  mvcgen [raiseStatement, -node_spec]
  all_goals simp_all

omit hr in
@[spec] theorem scopeStatement_spec (k : Kind) (hk : k = .globalStatement ∨ k = .nonlocalStatement)
    (l : Lexeme) : ⦃⌜True⌝⦄ scopeStatement k l ⦃⇓? t => ⌜Stands t⌝⦄ := by
  have items := fun c n m => separated_spec c n m (name_spec {})
  mvcgen [scopeStatement, items, -node_spec]
  all_goals clear items
  all_goals rcases hk with rfl | rfl <;> simp_all

@[spec] theorem assignmentOpt_spec (start : Nat) (items : List Tree) (trailing : Bool)
    (h : ∀ t ∈ items, Loose t) :
    ⦃⌜True⌝⦄ assignment? rules start items trailing ⦃⇓? o => ⌜∀ t, o = some t → Loose t⌝⦄ := by
  mvcgen [assignment?, assignedValue?, -node_stands_spec]
  all_goals simp_all

@[spec] theorem assigned_spec :
    ⦃⌜True⌝⦄ assigned rules ⦃⇓? t => ⌜Loose t⌝⦄ := by
  mvcgen [assigned, oneOrList, -node_stands_spec]
  all_goals simp_all

@[spec] theorem expressionStatement_spec :
    ⦃⌜True⌝⦄ expressionStatement rules ⦃⇓? t => ⌜Stands t⌝⦄ := by
  mvcgen [expressionStatement, -node_spec]
  all_goals simp_all

@[spec] theorem wholeStatement_spec :
    ⦃⌜True⌝⦄ wholeStatement rules ⦃⇓? t => ⌜Stands t⌝⦄ := by
  mvcgen [wholeStatement]

@[spec] theorem nameStatement_spec (l : Lexeme) :
    ⦃⌜True⌝⦄ nameStatement rules l ⦃⇓? t => ⌜Stands t⌝⦄ := by
  have print := firstOf_spec (wholeStatement_spec hr) (printStatement_spec hr l)
  have exec := firstOf_spec (wholeStatement_spec hr) (execStatement_spec hr l)
  have type := firstOf_spec (wholeStatement_spec hr) (typeAliasStatement_spec hr l)
  mvcgen [nameStatement, print, exec, type, -node_spec]
  all_goals simp_all

@[spec] theorem simpleStatement_spec :
    ⦃⌜True⌝⦄ simpleStatement rules ⦃⇓? t => ⌜Stands t⌝⦄ := by
  mvcgen [simpleStatement, -node_spec]
  case vc12 | vc13 | vc14 => exact ⟨formed_leaf rfl trivial, rfl⟩
  all_goals simp_all

@[spec] theorem simpleLine_spec :
    ⦃⌜True⌝⦄ simpleLine rules ⦃⇓? ts => ⌜∀ t ∈ ts, Stands t⌝⦄ := by
  have parts := loop_spec fun r : List Tree × Bool => ∀ t ∈ r.1, Stands t
  mvcgen [simpleLine, parts, -loop_marked_spec, -node_spec]
  all_goals clear parts
  all_goals simp_all

/-! ## Compound statements -/

@[spec] theorem colonSuite_spec :
    ⦃⌜True⌝⦄ colonSuite rules ⦃⇓? t => ⌜Stands t⌝⦄ := by
  mvcgen [colonSuite]
  all_goals simp_all

@[spec] theorem blockClause_spec (k : Kind) (hk : k = .elseClause ∨ k = .finallyClause)
    (l : Lexeme) : ⦃⌜True⌝⦄ blockClause rules k l ⦃⇓? t => ⌜Stands t ∧ t.kind = k⌝⦄ := by
  mvcgen [blockClause, -node_spec]
  all_goals rcases hk with rfl | rfl <;> simp_all

@[spec] theorem clause_spec (w : Word) (k : Kind) (hk : k = .elseClause ∨ k = .finallyClause) :
    ⦃⌜True⌝⦄ clause? rules w k ⦃⇓? ts => ⌜∀ t ∈ ts, Stands t ∧ t.kind = k⌝⦄ := by
  mvcgen [clause?]
  all_goals simp_all

omit hr in
/-- Whether some trees are a condition and the block behind it. -/
def Conditioned (ts : List Tree) : Prop :=
  ∃ condition body, ts = [condition, body] ∧ Loose condition ∧ Formed body ∧
    body.role = some .consequence

@[spec] theorem conditionClause_spec (l : Lexeme) :
    ⦃⌜True⌝⦄ conditionClause rules l ⦃⇓? ts => ⌜Conditioned ts⌝⦄ := by
  mvcgen [conditionClause]
  case vc3 hcondition _ _ hbody =>
    exact ⟨_, _, rfl, hcondition, formed_withRole.2 hbody.1, by simp⟩

omit hr in
theorem Conditioned.formed {ts : List Tree} (h : Conditioned ts) : ∀ t ∈ ts, Formed t := by
  obtain ⟨condition, body, rfl, hcondition, hbody, -⟩ := h
  simp [hcondition.plain, hbody]

omit hr in
theorem shape_ifStatement {ts elifs other : List Tree} (h : Conditioned ts)
    (helifs : ∀ t ∈ elifs, Stands t ∧ t.kind = .elifClause)
    (hother : ∀ t ∈ other, Stands t ∧ t.kind = .elseClause) :
    Shape .ifStatement (ts ++ elifs.reverse ++ other) := by
  obtain ⟨condition, body, rfl, hcondition, -, hrole⟩ := h
  refine ⟨condition, body, elifs.reverse ++ other, by simp, hcondition.plain, hcondition.2,
    hrole, fun t ht => ?_⟩
  rcases List.mem_append.1 ht with ht | ht
  · exact .inl (helifs t (List.mem_reverse.1 ht)).2
  · exact .inr (hother t ht).2

@[spec] theorem ifStatement_spec (l : Lexeme) :
    ⦃⌜True⌝⦄ ifStatement rules l ⦃⇓? t => ⌜Stands t⌝⦄ := by
  have elifs := loop_spec fun ts : List Tree => ∀ t ∈ ts, Stands t ∧ t.kind = .elifClause
  mvcgen [ifStatement, elifs, -node_spec, -loop_trees_spec]
  all_goals clear elifs
  case vc5 h => exact h.formed
  case vc11 h _ _ helifs _ => exact fun _ hother => shape_ifStatement h helifs hother
  case vc12 h _ _ _ _ =>
    have := h.formed
    simp_all
  all_goals simp_all

@[spec] theorem whileStatement_spec (l : Lexeme) :
    ⦃⌜True⌝⦄ whileStatement rules l ⦃⇓? t => ⌜Stands t⌝⦄ := by
  mvcgen [whileStatement, -node_spec]
  case vc6 h _ =>
    have := h.formed
    simp_all
  all_goals simp_all

@[spec] theorem forStatement_spec (start : Nat) (l : Lexeme) :
    ⦃⌜True⌝⦄ forStatement rules start l ⦃⇓? t => ⌜Stands t⌝⦄ := by
  mvcgen [forStatement, -node_spec]
  all_goals simp_all

@[spec] theorem exceptions_spec :
    ⦃⌜True⌝⦄ exceptions rules ⦃⇓? ts => ⌜∀ t ∈ ts, Loose t⌝⦄ := by
  mvcgen [exceptions]
  all_goals simp_all

@[spec] theorem exceptClause_spec (l : Lexeme) :
    ⦃⌜True⌝⦄ exceptClause rules l ⦃⇓? t => ⌜Stands t ∧ t.kind = .exceptClause⌝⦄ := by
  mvcgen [exceptClause, -node_spec]
  all_goals simp_all

omit hr in
theorem shape_tryStatement {body : Tree} {handlers other final : List Tree}
    (hhandlers : ∀ t ∈ handlers, Stands t ∧ t.kind = .exceptClause)
    (hother : ∀ t ∈ other, Stands t ∧ t.kind = .elseClause)
    (hfinal : ∀ t ∈ final, Stands t ∧ t.kind = .finallyClause) :
    Shape .tryStatement (body.withRole .body :: handlers.reverse ++ other ++ final) := by
  refine ⟨body.withRole .body, handlers.reverse ++ other, final, by simp, by simp, ?_, ?_⟩
  · intro t ht
    rcases List.mem_append.1 ht with ht | ht
    · exact .inl (hhandlers t (List.mem_reverse.1 ht)).2
    · exact .inr (hother t ht).2
  · exact fun t ht => ⟨(hfinal t ht).2, (hfinal t ht).1.2⟩

@[spec] theorem tryStatement_spec (l : Lexeme) :
    ⦃⌜True⌝⦄ tryStatement rules l ⦃⇓? t => ⌜Stands t⌝⦄ := by
  have handlers := loop_spec fun ts : List Tree =>
    ∀ t ∈ ts, Stands t ∧ t.kind = .exceptClause
  mvcgen [tryStatement, handlers, -node_spec, -loop_trees_spec]
  all_goals clear handlers
  case vc11 hhandlers _ _ hother _ =>
    exact fun _ hfinal => shape_tryStatement hhandlers hother hfinal
  all_goals simp_all

@[spec] theorem withItem_spec (f : Follow) :
    ⦃⌜True⌝⦄ withItem rules f ⦃⇓? t => ⌜Loose t⌝⦄ := by
  mvcgen [withItem, -node_stands_spec]
  all_goals simp_all

@[spec] theorem withItems_spec (f : Follow) :
    ⦃⌜True⌝⦄ withItems rules f ⦃⇓? ts => ⌜∀ t ∈ ts, Loose t⌝⦄ := by
  have items := fun c n m => separated_spec c n m (withItem_spec hr f)
  mvcgen [withItems, items]

theorem bracketedWithClause_spec (start : Nat) :
    ⦃⌜True⌝⦄ bracketedWithClause rules start ⦃⇓? t => ⌜Loose t⌝⦄ := by
  mvcgen [bracketedWithClause, -node_stands_spec]
  all_goals simp_all

theorem bareWithClause_spec (start : Nat) :
    ⦃⌜True⌝⦄ (do node .withClause start (← withItems rules Follow.within) : Parser Tree)
      ⦃⇓? t => ⌜Loose t⌝⦄ := by
  mvcgen [-node_stands_spec]
  all_goals simp_all

@[spec] theorem withClause_spec :
    ⦃⌜True⌝⦄ withClause rules ⦃⇓? t => ⌜Loose t⌝⦄ := by
  have clause := fun start =>
    firstOf_spec (bracketedWithClause_spec hr start) (bareWithClause_spec hr start)
  mvcgen [withClause, clause]

@[spec] theorem withStatement_spec (start : Nat) (l : Lexeme) :
    ⦃⌜True⌝⦄ withStatement rules start l ⦃⇓? t => ⌜Stands t⌝⦄ := by
  mvcgen [withStatement, -node_spec]
  all_goals simp_all

@[spec] theorem resultType_spec :
    ⦃⌜True⌝⦄ resultType? rules ⦃⇓? ts => ⌜∀ t ∈ ts, Loose t⌝⦄ := by
  mvcgen [resultType?]
  all_goals simp_all

omit hr in
theorem Loose.outside {t : Tree} (h : Loose t) : Plain t ∧ t.role ≠ some .body :=
  ⟨h.plain, by simp [h.2]⟩

omit hr in
theorem shape_definition {k : Kind} (hk : k = .functionDefinition ∨ k = .classDefinition)
    (outer : List Tree) {id body : Tree}
    (hid : Loose id ∧ id.kind = .identifier ∧ Inert id)
    (houter : ∀ t ∈ outer, Plain t ∧ t.role ≠ some .body) :
    Shape k (id.withRole .name :: outer ++ [body.withRole .body]) := by
  rcases hk with rfl | rfl
  · exact ⟨id.withRole .name, outer, body.withRole .body, by simp, by simpa using hid.2.1, by simp,
      by simpa using hid.1.plain, by simp, houter⟩
  · exact ⟨id.withRole .name, outer, body.withRole .body, by simp, by simpa using hid.2.1, by simp,
      by simpa using hid.1.plain, by simp, houter⟩

@[spec] theorem functionDefinition_spec (start : Nat) (l : Lexeme) :
    ⦃⌜True⌝⦄ functionDefinition rules start l ⦃⇓? t => ⌜Stands t⌝⦄ := by
  mvcgen [functionDefinition, -node_spec]
  case vc6 hid types _ htypes params _ hparams result _ hresult _ =>
    intro _ hbody
    refine shape_definition (.inl rfl) (types ++ params.withRole .parameters :: result) hid
      fun t ht => ?_
    rcases List.mem_append.1 ht with ht | ht
    · exact (htypes t ht).outside
    · rcases List.mem_cons.1 ht with rfl | ht
      · exact ⟨plain_withRole.2 hparams.plain, by simp⟩
      · exact (hresult t ht).outside
  all_goals simp_all

@[spec] theorem bases_spec :
    ⦃⌜True⌝⦄ bases? rules ⦃⇓? ts => ⌜∀ t ∈ ts, Loose t⌝⦄ := by
  mvcgen [bases?]
  all_goals simp_all

@[spec] theorem classDefinition_spec (l : Lexeme) :
    ⦃⌜True⌝⦄ classDefinition rules l ⦃⇓? t => ⌜Stands t⌝⦄ := by
  mvcgen [classDefinition, -node_spec]
  case vc5 hid types _ htypes bases _ hbases _ =>
    intro _ hbody
    refine shape_definition (.inr rfl) (types ++ bases) hid fun t ht => ?_
    rcases List.mem_append.1 ht with ht | ht
    · exact (htypes t ht).outside
    · exact (hbases t ht).outside
  all_goals simp_all

@[spec] theorem definition_spec (l : Lexeme) :
    ⦃⌜True⌝⦄ definition rules l ⦃⇓? t => ⌜Stands t⌝⦄ := by
  mvcgen [definition]
  all_goals exact fun _ => hr

@[spec] theorem decorator_spec (l : Lexeme) :
    ⦃⌜True⌝⦄ decorator rules l ⦃⇓? t => ⌜Loose t⌝⦄ := by
  mvcgen [decorator, -node_stands_spec]
  all_goals simp_all

@[spec] theorem decoratedDefinition_spec (l : Lexeme) :
    ⦃⌜True⌝⦄ decoratedDefinition rules l ⦃⇓? t => ⌜Stands t⌝⦄ := by
  mvcgen [decoratedDefinition, -node_spec]
  all_goals simp_all

@[spec] theorem guard_spec :
    ⦃⌜True⌝⦄ guard? rules ⦃⇓? ts => ⌜∀ t ∈ ts, Loose t⌝⦄ := by
  mvcgen [guard?, -node_stands_spec]
  all_goals simp_all

@[spec] theorem caseClause_spec (l : Lexeme) :
    ⦃⌜True⌝⦄ caseClause rules l ⦃⇓? t => ⌜Stands t ∧ t.kind = .caseClause⌝⦄ := by
  have patterns := fun c n m => separated_spec c n m (hr.rule (.casePattern Follow.within))
  mvcgen [caseClause, patterns, -node_spec]
  all_goals clear patterns
  all_goals simp_all

@[spec] theorem caseBlock_spec :
    ⦃⌜True⌝⦄ caseBlock rules ⦃⇓? t => ⌜Stands t ∧ t.kind = .block ∧
      ∀ c ∈ t.children, c.kind = .caseClause⌝⦄ := by
  have cases := loop_spec fun r : List Tree × Bool =>
    ∀ t ∈ r.1, Stands t ∧ t.kind = .caseClause
  mvcgen [caseBlock, furtherCase?, cases, -node_spec, -loop_marked_spec]
  all_goals clear cases
  all_goals simp_all

@[spec] theorem matchStatement_spec (l : Lexeme) :
    ⦃⌜True⌝⦄ matchStatement rules l ⦃⇓? t => ⌜Stands t⌝⦄ := by
  mvcgen [matchStatement, -node_spec]
  case vc4 subjects _ hsubjects _ _ body =>
    intro _ hbody hkind hcases
    exact ⟨subjects.1, body.withRole .body, rfl, fun t ht => ⟨(hsubjects t ht).plain,
      (hsubjects t ht).2⟩, by simp, by simpa using hkind, by simpa using hcases⟩
  all_goals simp_all

/-! ## Blocks -/

@[spec] theorem asyncStatement_spec (l : Lexeme) :
    ⦃⌜True⌝⦄ asyncStatement rules l ⦃⇓? ts => ⌜∀ t ∈ ts, Stands t⌝⦄ := by
  mvcgen [asyncStatement]
  all_goals simp_all

theorem matchStatements_spec (l : Lexeme) :
    ⦃⌜True⌝⦄ (do return [← matchStatement rules l] : Parser (List Tree))
      ⦃⇓? ts => ⌜∀ t ∈ ts, Stands t⌝⦄ := by
  mvcgen
  all_goals simp_all

@[spec] theorem statement_spec (l : Lexeme) :
    ⦃⌜True⌝⦄ statement rules l ⦃⇓? ts => ⌜∀ t ∈ ts, Stands t⌝⦄ := by
  have either := firstOf_spec (simpleLine_spec hr) (matchStatements_spec hr l)
  mvcgen [statement, either]
  all_goals simp_all

@[spec] theorem statements_spec :
    ⦃⌜True⌝⦄ statements rules ⦃⇓? ts => ⌜∀ t ∈ ts, Stands t⌝⦄ := by
  have items := loop_spec fun ts : List Tree => ∀ t ∈ ts, Stands t
  mvcgen [statements, furtherStatement?, items, -loop_trees_spec]
  all_goals clear items
  all_goals simp_all

@[spec] theorem suite_spec :
    ⦃⌜True⌝⦄ suite rules ⦃⇓? t => ⌜Stands t⌝⦄ := by
  mvcgen [suite, -node_spec]
  all_goals simp_all

end Rules

/-! ## Whole texts -/

theorem rulesTo_sorted (depth : Nat) : Sorted (rulesTo depth) := by
  induction depth with
  | zero => exact ⟨fun _ => reject_spec _⟩
  | succ depth ih =>
      refine ⟨fun r => ?_⟩
      cases r with
      | expression f => exact expression_spec ih f
      | level f n => exact levelExpression_spec ih f n
      | yield f => exact yieldExpression_spec ih f
      | braced => exact braced_spec ih
      | type f => exact typeAnnotation_spec ih f
      | casePattern f => exact casePattern_spec ih f
      | simplePattern f => exact simplePattern_spec ih f
      | assigned => exact assigned_spec ih
      | suite => exact suite_spec ih

theorem wholeText_spec {rules : Rules} (hr : Sorted rules) :
    ⦃⌜True⌝⦄ wholeText rules ⦃⇓? ts => ⌜∀ t ∈ ts, Stands t⌝⦄ := by
  mvcgen [wholeText]

theorem moduleItems_stand {source : List Char} {supplied : List Nat} {items : List Tree}
    (h : moduleItems source supplied = .ok items) : ∀ t ∈ items, Stands t := by
  unfold moduleItems at h
  cases hread : wholeText (rulesTo (4 * tokenBound false source + 16))
      (Cursor.ofText source supplied) with
  | error furthest =>
      rw [hread] at h
      cases h
  | ok r =>
      rw [hread] at h
      cases h
      exact yields_iff.1 (wholeText_spec (rulesTo_sorted _)) _ _ _ hread

/-- However many line ends are supplied, the items are those of some reading. -/
theorem supplyEnds_stand {source : List Char} {items : List Tree} (bound : Nat)
    (supplied : List Nat) (reading : Except Nat (List Tree))
    (hreading : ∀ items, reading = .ok items → ∀ t ∈ items, Stands t)
    (h : supplyEnds source bound supplied reading = some items) : ∀ t ∈ items, Stands t := by
  induction bound generalizing supplied reading with
  | zero =>
      cases reading with
      | ok found =>
          cases h
          exact hreading _ rfl
      | error furthest => cases h
  | succ bound ih =>
      cases reading with
      | ok found =>
          cases h
          exact hreading _ rfl
      | error furthest =>
          simp only [supplyEnds, Option.ite_none_right_eq_some] at h
          exact ih _ _ (fun _ => moduleItems_stand) h.2

/-- The statements of the tree of a text stand above its expressions. -/
theorem parse_formed (source : List Char) : Formed (parse source) := by
  unfold parse
  split
  · rename_i items hitems
    refine .statement rfl trivial fun t ht => ?_
    exact (supplyEnds_stand _ _ _ (fun _ => moduleItems_stand) hitems t ht).1
  · refine .statement rfl trivial fun t ht => ?_
    rw [List.mem_singleton.1 ht]
    refine .plain (.node rfl (fun h => ?_) fun _ h => ?_)
    · cases h
    · cases h

end Longhand.Syntax
