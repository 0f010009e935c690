import Longhand.Proofs.Form.Basic
import Longhand.Syntax.Grammar.Expression
import Longhand.Syntax.Grammar.TypeAnnotation
import Longhand.Syntax.Grammar.CasePattern

/-!
# Forms of expressions

No statement is inside an expression, a type or a pattern.
-/

namespace Longhand.Syntax

open Std.Do

set_option mvcgen.warning false

/-! ## Targets -/

mutual

theorem toTarget?_plain : ∀ {t u : Tree}, toTarget? t = some u → Plain t → Plain u
  | .node k r s x cs, u, h, hplain => by
      rw [plain_node] at hplain
      have targets : ∀ {l : Kind}, l.isStatement = false → l ≠ .lambda →
          (match toTargets? cs with
            | some targets => some (Tree.node l r s x targets)
            | none => none) = some u → Plain u := by
        intro l hstatement hlambda h
        split at h
        · rename_i us hus
          cases h
          exact .node hstatement (fun h => absurd h hlambda) (toTargets?_plain hus hplain.2.2)
        · cases h
      unfold toTarget? at h
      split at h
      · cases h
        exact plain_node.2 hplain
      · cases h
        exact plain_node.2 hplain
      · cases h
        exact plain_node.2 hplain
      · split at h
        · cases h
          exact .node rfl (fun h => nomatch h) hplain.2.2
        · cases h
          exact .node rfl (fun h => nomatch h) hplain.2.2
        · cases h
          exact .node rfl (fun h => nomatch h) hplain.2.2
        · cases h
      · exact targets rfl (by decide) h
      · exact targets rfl (by decide) h
      · exact targets rfl (by decide) h
      · cases h

theorem toTargets?_plain : ∀ {ts us : List Tree}, toTargets? ts = some us →
    (∀ t ∈ ts, Plain t) → ∀ u ∈ us, Plain u
  | [], us, h, hplain => by
      cases h
      exact fun _ h => nomatch h
  | t :: rest, us, h, hplain => by
      unfold toTargets? at h
      split at h
      · rename_i hfirst hrest
        cases h
        intro u hu
        rcases List.mem_cons.1 hu with rfl | hu
        · exact toTarget?_plain hfirst (hplain t List.mem_cons_self)
        · exact toTargets?_plain hrest (fun t ht => hplain t (List.mem_cons_of_mem _ ht)) u hu
      · cases h

end

/-! ## Strings -/

section Rules

variable {rules : Rules} (hr : Sorted rules)

attribute [local spec] Sorted.rule
attribute [local simp] RuleForm Loose Kind.isStatement or_imp forall_and

@[spec] theorem advance_spec (n : Nat) : ⦃⌜True⌝⦄ advance n ⦃⇓? _ => ⌜True⌝⦄ := by
  unfold advance
  mvcgen

@[spec] theorem remaining_spec : ⦃⌜True⌝⦄ remaining ⦃⇓? _ => ⌜True⌝⦄ := by
  unfold remaining
  mvcgen

@[spec] theorem skipGap_spec : ⦃⌜True⌝⦄ skipGap ⦃⇓? _ => ⌜True⌝⦄ := by
  unfold skipGap
  mvcgen

@[spec] theorem setFormat_spec (b : Bool) : ⦃⌜True⌝⦄ setFormat b ⦃⇓? _ => ⌜True⌝⦄ := by
  unfold setFormat
  mvcgen

@[spec] theorem conversion_spec : ⦃⌜True⌝⦄ conversion? ⦃⇓? _ => ⌜True⌝⦄ := by
  mvcgen [conversion?]

include hr

@[spec] theorem formatText_spec :
    ⦃⌜True⌝⦄ formatText rules ⦃⇓? ts => ⌜∀ t ∈ ts, Loose t⌝⦄ := by
  mvcgen [formatText]
  all_goals simp_all

@[spec] theorem braced_spec :
    ⦃⌜True⌝⦄ braced rules ⦃⇓? t => ⌜Loose t⌝⦄ := by
  mvcgen [braced, bracedItems, formatSpecifier?]
  all_goals simp_all

@[spec] theorem stringPart_spec (s : StringOpening) (trees : List Tree)
    (h : ∀ t ∈ trees, Loose t) :
    ⦃⌜True⌝⦄ stringPart rules s trees ⦃⇓? r => ⌜∀ t ∈ r.1, Loose t⌝⦄ := by
  mvcgen [stringPart, embedded]
  all_goals simp_all

@[spec] theorem stringLiteral_spec (l : Lexeme) (s : StringOpening) :
    ⦃⌜True⌝⦄ stringLiteral rules l s ⦃⇓? t => ⌜Loose t⌝⦄ := by
  mvcgen [stringLiteral]
  all_goals simp_all

@[spec] theorem strings_spec (f : Follow) (l : Lexeme) (s : StringOpening) :
    ⦃⌜True⌝⦄ strings rules f l s ⦃⇓? t => ⌜Loose t⌝⦄ := by
  mvcgen [strings]
  all_goals simp_all

/-! ## Parameters -/

@[spec] theorem expressionsOpt_spec (f : Follow) :
    ⦃⌜True⌝⦄ expressions? rules f ⦃⇓? ts => ⌜∀ t ∈ ts, Loose t⌝⦄ := by
  mvcgen [expressions?]
  all_goals simp_all

@[spec] theorem tupleParameter_spec (l : Lexeme) :
    ⦃⌜True⌝⦄ tupleParameter rules l ⦃⇓? t => ⌜Loose t⌝⦄ := by
  mvcgen [tupleParameter]
  case vc4 h _ _ htargets =>
    exact fun _ => toTargets?_plain htargets fun t ht => (h t ht).plain
  all_goals simp_all

@[spec] theorem annotation_spec (f : Follow) (typed : Bool) :
    ⦃⌜True⌝⦄ annotation? rules f typed ⦃⇓? o => ⌜∀ t, o = some t → Plain t⌝⦄ := by
  mvcgen [annotation?]
  all_goals simp_all

@[spec] theorem default_spec (f : Follow) :
    ⦃⌜True⌝⦄ default? rules f ⦃⇓? o => ⌜∀ t, o = some t → Plain t⌝⦄ := by
  mvcgen [default?]
  all_goals simp_all

@[spec] theorem typedSplat_spec (f : Follow) (typed : Bool) (k : Kind)
    (hk : k = .listSplatPattern ∨ k = .dictionarySplatPattern) (l : Lexeme) :
    ⦃⌜True⌝⦄ typedSplat rules f typed k l ⦃⇓? t => ⌜Loose t⌝⦄ := by
  mvcgen [typedSplat, starredParameter]
  all_goals rcases hk with rfl | rfl <;> simp_all

@[spec] theorem namedParameter_spec (f : Follow) (typed : Bool) (l : Lexeme) :
    ⦃⌜True⌝⦄ namedParameter rules f typed l ⦃⇓? t => ⌜Loose t⌝⦄ := by
  mvcgen [namedParameter]
  all_goals simp_all +zetaDelta

@[spec] theorem parameter_spec (f : Follow) (typed : Bool) :
    ⦃⌜True⌝⦄ parameter rules f typed ⦃⇓? t => ⌜Loose t⌝⦄ := by
  mvcgen [parameter]
  all_goals simp_all

@[spec] theorem parameterItems_spec (f : Follow) (typed : Bool) :
    ⦃⌜True⌝⦄ parameterItems rules f typed ⦃⇓? ts => ⌜∀ t ∈ ts, Loose t⌝⦄ := by
  have items := fun c n m => separated_spec c n m (parameter_spec hr f typed)
  mvcgen [parameterItems, items]
  all_goals simp_all

@[spec] theorem parameters_spec :
    ⦃⌜True⌝⦄ parameters rules ⦃⇓? t => ⌜Loose t⌝⦄ := by
  mvcgen [parameters]
  all_goals simp_all

@[spec] theorem lambdaParameters_spec :
    ⦃⌜True⌝⦄ lambdaParameters? rules ⦃⇓? ts => ⌜∀ t ∈ ts, Plain t ∧ t.role = some .parameters⌝⦄ := by
  mvcgen [lambdaParameters?]
  all_goals simp_all

@[spec] theorem lambdaExpression_spec (f : Follow) (l : Lexeme) :
    ⦃⌜True⌝⦄ lambdaExpression rules f l ⦃⇓? t => ⌜Loose t⌝⦄ := by
  mvcgen [lambdaExpression]
  all_goals simp_all

/-! ## Comprehensions -/

omit hr in
@[spec] theorem target_spec (start stop : Nat) (items : List Tree) (trailing : Bool)
    (h : ∀ t ∈ items, Plain t) :
    ⦃⌜True⌝⦄ target start stop items trailing ⦃⇓? t => ⌜Plain t⌝⦄ := by
  have targets := fun {us} (hus : toTargets? items = some us) => toTargets?_plain hus h
  mvcgen [target]
  all_goals simp_all

@[spec] theorem loopTarget_spec :
    ⦃⌜True⌝⦄ loopTarget rules ⦃⇓? t => ⌜Plain t⌝⦄ := by
  have items := fun c n m => separated_spec c n m (hr.rule (.level Follow.within 13))
  mvcgen [loopTarget, items]
  all_goals simp_all

@[spec] theorem forInClause_spec (f : Follow) :
    ⦃⌜True⌝⦄ forInClause rules f ⦃⇓? t => ⌜Loose t⌝⦄ := by
  have items := fun c n m => separated_spec c n m (hr.rule (.level f 0))
  mvcgen [forInClause, items]
  all_goals simp_all

@[spec] theorem clauses_spec :
    ⦃⌜True⌝⦄ clauses rules ⦃⇓? ts => ⌜∀ t ∈ ts, Loose t⌝⦄ := by
  mvcgen [clauses]
  all_goals simp_all

/-! ## Brackets -/

@[spec] theorem element_spec :
    ⦃⌜True⌝⦄ element rules ⦃⇓? t => ⌜Loose t⌝⦄ := by
  mvcgen [element]
  all_goals simp_all

@[spec] theorem elementsAfter_spec (start : Nat) (close : Token → Bool) (k : Kind)
    (hk : k.isStatement = false ∧ k ≠ .lambda) (finish : List Tree → Bool → Parser Tree)
    (h : ∀ items trailing, (∀ t ∈ items, Loose t) →
      ⦃⌜True⌝⦄ finish items trailing ⦃⇓? t => ⌜Loose t⌝⦄)
    (first : Tree) (hfirst : Loose first) :
    ⦃⌜True⌝⦄ elementsAfter rules start close k finish first ⦃⇓? t => ⌜Loose t⌝⦄ := by
  have items := fun f m => furtherItems_spec f m (element_spec hr)
  mvcgen [elementsAfter, items, h]
  all_goals clear items h
  all_goals simp_all

@[spec] theorem elements_spec (start : Nat) (close : Token → Bool) (k : Kind)
    (hk : k.isStatement = false ∧ k ≠ .lambda) (finish : List Tree → Bool → Parser Tree)
    (h : ∀ items trailing, (∀ t ∈ items, Loose t) →
      ⦃⌜True⌝⦄ finish items trailing ⦃⇓? t => ⌜Loose t⌝⦄) :
    ⦃⌜True⌝⦄ elements rules start close k finish ⦃⇓? t => ⌜Loose t⌝⦄ := by
  mvcgen [elements, h]
  all_goals clear h
  all_goals simp_all

@[spec] theorem bracketed_spec (l : Lexeme) :
    ⦃⌜True⌝⦄ bracketed rules l ⦃⇓? t => ⌜Loose t⌝⦄ := by
  mvcgen [bracketed]
  all_goals simp_all

@[spec] theorem listDisplay_spec (l : Lexeme) :
    ⦃⌜True⌝⦄ listDisplay rules l ⦃⇓? t => ⌜Loose t⌝⦄ := by
  mvcgen [listDisplay]
  all_goals simp_all

@[spec] theorem entry_spec :
    ⦃⌜True⌝⦄ entry rules ⦃⇓? t => ⌜Loose t⌝⦄ := by
  mvcgen [entry]
  all_goals simp_all

@[spec] theorem dictionaryAfter_spec (start : Nat) (one : Tree) (hone : Loose one) :
    ⦃⌜True⌝⦄ dictionaryAfter rules start one ⦃⇓? t => ⌜Loose t⌝⦄ := by
  have items := fun f m => furtherItems_spec f m (entry_spec hr)
  mvcgen [dictionaryAfter, items]
  all_goals simp_all

@[spec] theorem keyed_spec (start : Nat) (first : Lexeme) :
    ⦃⌜True⌝⦄ keyed rules start first ⦃⇓? t => ⌜Loose t⌝⦄ := by
  mvcgen [keyed]
  all_goals simp_all

@[spec] theorem braceDisplay_spec (l : Lexeme) :
    ⦃⌜True⌝⦄ braceDisplay rules l ⦃⇓? t => ⌜Loose t⌝⦄ := by
  mvcgen [braceDisplay]
  all_goals simp_all

/-! ## Calls and subscripts -/

@[spec] theorem nameArgument_spec (l : Lexeme) :
    ⦃⌜True⌝⦄ nameArgument rules l ⦃⇓? t => ⌜Loose t⌝⦄ := by
  mvcgen [nameArgument]
  all_goals simp_all

@[spec] theorem argument_spec :
    ⦃⌜True⌝⦄ argument rules ⦃⇓? t => ⌜Loose t⌝⦄ := by
  mvcgen [argument]
  all_goals simp_all

@[spec] theorem generatorBody_spec (before : Cursor) (one : Tree) (hone : Loose one) :
    ⦃⌜True⌝⦄ generatorBody rules before one ⦃⇓? t => ⌜Loose t⌝⦄ := by
  mvcgen [generatorBody]
  all_goals simp_all

@[spec] theorem arguments_spec (l : Lexeme) :
    ⦃⌜True⌝⦄ arguments rules l ⦃⇓? t => ⌜Loose t⌝⦄ := by
  have items := fun f m => furtherItems_spec f m (argument_spec hr)
  mvcgen [arguments, items]
  all_goals simp_all

@[spec] theorem slicePart_spec :
    ⦃⌜True⌝⦄ slicePart? rules ⦃⇓? ts => ⌜∀ t ∈ ts, Loose t⌝⦄ := by
  mvcgen [slicePart?]
  all_goals simp_all

@[spec] theorem subscriptItem_spec :
    ⦃⌜True⌝⦄ subscriptItem rules ⦃⇓? t => ⌜Loose t⌝⦄ := by
  mvcgen [subscriptItem, sliceStep?]
  all_goals simp_all

@[spec] theorem subscripts_spec (l : Lexeme) :
    ⦃⌜True⌝⦄ subscripts rules l ⦃⇓? ts => ⌜∀ t ∈ ts, Loose t⌝⦄ := by
  have items := fun c n m => separated_spec c n m (subscriptItem_spec hr)
  mvcgen [subscripts, items]

/-! ## Operands -/

@[spec] theorem atom_spec (f : Follow) (l : Lexeme) :
    ⦃⌜True⌝⦄ atom rules f l ⦃⇓? t => ⌜Loose t⌝⦄ := by
  mvcgen [atom]
  all_goals simp_all

@[spec] theorem trailer_spec (f : Follow) (start : Nat) (t : Tree) (h : Loose t) :
    ⦃⌜True⌝⦄ trailer? rules f start t ⦃⇓? o => ⌜∀ t, o = some t → Loose t⌝⦄ := by
  mvcgen [trailer?]
  all_goals simp_all

@[spec] theorem trailed_spec (f : Follow) (start : Nat) (t : Tree) (h : Loose t) :
    ⦃⌜True⌝⦄ trailed rules f start t ⦃⇓? t => ⌜Loose t⌝⦄ := by
  mvcgen [trailed]
  all_goals simp_all

/-- A starred operand and the place behind it. -/
def Starred (r : Tree × Option (Tree × Cursor)) : Prop :=
  Loose r.1 ∧ ∀ p, r.2 = some p → Loose p.1

omit hr in
@[spec] theorem splatTo_spec (start : Nat) (t : Tree) (h : Loose t) :
    ⦃⌜True⌝⦄ splatTo start t ⦃⇓? o => ⌜∀ p, o = some p → Loose p.1⌝⦄ := by
  mvcgen [splatTo]
  all_goals simp_all

omit hr in
@[spec] theorem splatName_spec (start : Nat) (t : Tree) (h : Loose t) :
    ⦃⌜True⌝⦄ splatName start t ⦃⇓? o => ⌜∀ p, o = some p → Loose p.1⌝⦄ := by
  mvcgen [splatName]
  all_goals simp_all

@[spec] theorem starred_spec (f : Follow) (l : Lexeme) :
    ⦃⌜True⌝⦄ starred rules f l ⦃⇓? t => ⌜Loose t⌝⦄ := by
  have parts := loop_spec Starred
  mvcgen [starred, parts]
  all_goals clear parts
  all_goals simp_all [Starred]

@[spec] theorem powered_spec (f : Follow) (powers : Bool) (l : Lexeme) :
    ⦃⌜True⌝⦄ powered rules f powers l ⦃⇓? t => ⌜Loose t⌝⦄ := by
  mvcgen [powered, primary]
  all_goals simp_all

@[spec] theorem prefixed_spec (f : Follow) (k : Kind) (hk : k.isStatement = false ∧ k ≠ .lambda)
    (l : Lexeme) :
    ⦃⌜True⌝⦄ prefixed rules f k l ⦃⇓? t => ⌜Loose t⌝⦄ := by
  mvcgen [prefixed]
  all_goals simp_all

@[spec] theorem unary_spec (f : Follow) (powers : Bool) :
    ⦃⌜True⌝⦄ unary rules f powers ⦃⇓? t => ⌜Loose t⌝⦄ := by
  mvcgen [unary, awaited]
  all_goals simp_all

/-! ## Operators -/

@[spec] theorem namedExpression_spec (f : Follow) (n : Nat) (l : Lexeme) :
    ⦃⌜True⌝⦄ namedExpression rules f n l ⦃⇓? t => ⌜Loose t⌝⦄ := by
  mvcgen [namedExpression]
  all_goals simp_all

@[spec] theorem looseOperand_spec (f : Follow) (n : Nat) :
    ⦃⌜True⌝⦄ looseOperand rules f n ⦃⇓? t => ⌜Loose t⌝⦄ := by
  mvcgen [looseOperand]
  all_goals simp_all

@[spec] theorem comparisons_spec (f : Follow) (start : Nat) (first : Tree) (h : Loose first) :
    ⦃⌜True⌝⦄ comparisons rules f start first ⦃⇓? t => ⌜Loose t⌝⦄ := by
  mvcgen [comparisons, comparisonOperator]
  all_goals simp_all

@[spec] theorem operationOpt_spec (f : Follow) (n start : Nat) (t : Tree) (h : Loose t) :
    ⦃⌜True⌝⦄ operation? rules f n start t ⦃⇓? o => ⌜∀ t, o = some t → Loose t⌝⦄ := by
  mvcgen [operation?, operation]
  all_goals simp_all

@[spec] theorem condition_spec (f : Follow) (allowed : Bool) (start : Nat) (t : Tree) (h : Loose t) :
    ⦃⌜True⌝⦄ condition? rules f allowed start t ⦃⇓? o => ⌜∀ t, o = some t → Loose t⌝⦄ := by
  mvcgen [condition?, asPattern, conditional]
  all_goals simp_all +zetaDelta

@[spec] theorem operations_spec (f : Follow) (n start : Nat) (t : Tree) (h : Loose t) :
    ⦃⌜True⌝⦄ operations rules f n start t ⦃⇓? t => ⌜Loose t⌝⦄ := by
  mvcgen [operations]
  all_goals simp_all

@[spec] theorem levelExpression_spec (f : Follow) (n : Nat) :
    ⦃⌜True⌝⦄ levelExpression rules f n ⦃⇓? t => ⌜Loose t⌝⦄ := by
  mvcgen [levelExpression]
  all_goals simp_all

@[spec] theorem expression_spec (f : Follow) :
    ⦃⌜True⌝⦄ expression rules f ⦃⇓? t => ⌜Loose t⌝⦄ := by
  mvcgen [expression]
  all_goals simp_all

@[spec] theorem yieldExpression_spec (f : Follow) :
    ⦃⌜True⌝⦄ yieldExpression rules f ⦃⇓? t => ⌜Loose t⌝⦄ := by
  mvcgen [yieldExpression]
  all_goals simp_all

/-! ## Types -/

@[spec] theorem typeParameters_spec (l : Lexeme) :
    ⦃⌜True⌝⦄ typeParameters rules l ⦃⇓? t => ⌜Loose t⌝⦄ := by
  have items := fun c n m => separated_spec c n m (hr.rule (.type Follow.inside))
  mvcgen [typeParameters, items]
  all_goals simp_all

@[spec] theorem typeParametersOpt_spec :
    ⦃⌜True⌝⦄ typeParameters? rules ⦃⇓? ts => ⌜∀ t ∈ ts, Loose t⌝⦄ := by
  mvcgen [typeParameters?]
  all_goals simp_all

@[spec] theorem simpleType_spec (f : Follow) :
    ⦃⌜True⌝⦄ simpleType rules f ⦃⇓? t => ⌜Loose t⌝⦄ := by
  mvcgen [simpleType]
  all_goals simp_all

@[spec] theorem typeAnnotation_spec (f : Follow) :
    ⦃⌜True⌝⦄ typeAnnotation rules f ⦃⇓? t => ⌜Loose t⌝⦄ := by
  mvcgen [ typeAnnotation]
  all_goals simp_all

/-! ## Patterns -/

omit hr in
@[spec] theorem bracketedPatterns_spec (item : Parser Tree) (starts close : Token → Bool)
    (h : ⦃⌜True⌝⦄ item ⦃⇓? t => ⌜Loose t⌝⦄) :
    ⦃⌜True⌝⦄ bracketedPatterns item starts close ⦃⇓? ts => ⌜∀ t ∈ ts, Loose t⌝⦄ := by
  have items := fun c n m => separated_spec c n m h
  mvcgen [bracketedPatterns, patterns?, items]
  all_goals simp_all

omit hr in
theorem loose_numberLeaf (l : Lexeme) : Loose (numberLeaf l) := by
  unfold numberLeaf
  split <;> simp [Loose, Kind.isStatement]

omit hr in
@[spec] theorem numberPattern_spec (f : Follow) :
    ⦃⌜True⌝⦄ numberPattern f ⦃⇓? t => ⌜Loose t⌝⦄ := by
  mvcgen [numberPattern]
  all_goals simp_all [Kind.isStatement, (loose_numberLeaf _).plain]

@[spec] theorem patternEntry_spec :
    ⦃⌜True⌝⦄ patternEntry rules ⦃⇓? t => ⌜Loose t⌝⦄ := by
  mvcgen [patternEntry]
  all_goals simp_all

@[spec] theorem closedPattern_spec (f : Follow) :
    ⦃⌜True⌝⦄ closedPattern rules f ⦃⇓? t => ⌜Loose t⌝⦄ := by
  mvcgen [closedPattern]
  all_goals simp_all

@[spec] theorem simplePattern_spec (f : Follow) :
    ⦃⌜True⌝⦄ simplePattern rules f ⦃⇓? t => ⌜Loose t⌝⦄ := by
  mvcgen [simplePattern, alternative?, oneOf]
  all_goals simp_all

@[spec] theorem casePattern_spec (f : Follow) :
    ⦃⌜True⌝⦄ casePattern rules f ⦃⇓? t => ⌜Loose t⌝⦄ := by
  mvcgen [casePattern, argumentPattern, isKeywordAhead, keywordPattern, boundPattern?]
  all_goals simp_all

end Rules

end Longhand.Syntax
