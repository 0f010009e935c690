import Longhand.Proofs.Lexeme
import Longhand.Syntax.Grammar.Target

/-!
# Trees of a draft

Twins are the trees of one stretch of the two texts of a draft: they differ at most in the spelling
of marked names and in where things stand.  The nodes of a tree lie in order inside their parents,
and some kinds of nodes have children of a certain form.
-/

namespace Longhand.Draft

open Syntax Text

/-- Whether two texts are those of a stretch of a draft, given where it stands before the
replacement. -/
def Spelled (g : Draft) (s : Span) (x x' : String) : Prop :=
  ∃ done mid todo, g.parts = done ++ (mid ++ todo) ∧ s.start = byteSize (before done) ∧
    s.stop = byteSize (before (done ++ mid)) ∧ x = String.ofList (before mid) ∧
    x' = String.ofList (after mid)

/-- Whether two spans are those of one stretch of a draft. -/
structure Spans (g : Draft) (s s' : Span) : Prop where
  start : g.Cut s.start s'.start
  stop : g.Cut s.stop s'.stop
  le : s.start ≤ s.stop

/-- Whether a node is the name of a keyword argument: it may be marked, and it is a plain name
unless it is one of the words that are allowed in its place. -/
def KeywordName (g : Draft) (t : Tree) : Prop :=
  ∃ s done mid todo, t = .node .identifier (some .name) s (String.ofList (before mid)) [] ∧
    g.parts = done ++ (mid ++ todo) ∧ s.start = byteSize (before done) ∧
    s.stop = byteSize (before (done ++ mid)) ∧ opens false done = true ∧
    (isPlainName (before mid) = true ∨ (words.lookup (before mid)).isSome = true) ∧
    EqualsAhead (g.size + 1) (before todo)

/-- What the children of a node look like, for the kinds of nodes where this matters. -/
def Shaped (g : Draft) : Kind → List Tree → Prop
  | .keywordArgument, children => ∃ name value, children = [name, value] ∧ g.KeywordName name ∧
      value.role = some .value
  | .call, children => ∃ callee arguments, children = [callee, arguments] ∧
      callee.role = some .callee ∧ arguments.role = some .arguments
  | .attribute, children => ∃ object name, children = [object, name] ∧
      object.role = some .object ∧ name.role = some .attribute ∧ name.children = []
  | .identifier, _ | .dottedName, _ => False
  | _, _ => True

mutual

/-- Whether two trees are those of one stretch of a draft. -/
inductive Twin (g : Draft) : Tree → Tree → Prop
  | leaf {kind : Kind} {role : Option Role} {s s' : Span} {x x' : String} :
      g.Spans s s' → g.Spelled s x x' → (kind = .identifier → s.start < s.stop) →
      Twin g (.node kind role s x []) (.node kind role s' x' [])
  | inner {kind : Kind} {role : Option Role} {s s' : Span} {children children' : List Tree} :
      g.Spans s s' → g.Shaped kind children → Row g s.start s.stop children children' →
      Twin g (.node kind role s "" children) (.node kind role s' "" children')
  | dotted {role : Option Role} {s s' : Span} {x x' : String} {children children' : List Tree} :
      g.Spans s s' → g.Spelled s x x' →
      (∀ c ∈ children, c.kind = .identifier ∧ c.role = none ∧ c.children = []) →
      Row g s.start s.stop children children' →
      Twin g (.node .dottedName role s x children) (.node .dottedName role s' x' children')

/-- Whether two lists of trees are those of one stretch of a draft, in order between two offsets. -/
inductive Row (g : Draft) : Nat → Nat → List Tree → List Tree → Prop
  | nil {low high : Nat} : low ≤ high → Row g low high [] []
  | cons {low high : Nat} {t t' : Tree} {rest rest' : List Tree} :
      low ≤ t.span.start → Twin g t t' → Row g t.span.stop high rest rest' →
      Row g low high (t :: rest) (t' :: rest')

end

variable {g : Draft}

namespace Twin

variable {t t' : Tree}

theorem spans (h : g.Twin t t') : g.Spans t.span t'.span := by
  cases h with
  | leaf hspans => exact hspans
  | inner hspans => exact hspans
  | dotted hspans => exact hspans

theorem kind (h : g.Twin t t') : t.kind = t'.kind := by
  cases h <;> rfl

theorem role (h : g.Twin t t') : t.role = t'.role := by
  cases h <;> rfl

theorem row (h : g.Twin t t') : g.Row t.span.start t.span.stop t.children t'.children := by
  cases h with
  | leaf hspans => exact .nil hspans.le
  | inner _ _ hrow => exact hrow
  | dotted _ _ _ hrow => exact hrow

theorem withRole (h : g.Twin t t') (r : Role) : g.Twin (t.withRole r) (t'.withRole r) := by
  cases h with
  | leaf hspans hspelled hname => exact .leaf hspans hspelled hname
  | inner hspans hshaped hrow => exact .inner hspans hshaped hrow
  | dotted hspans hspelled hnames hrow => exact .dotted hspans hspelled hnames hrow

end Twin

@[simp] theorem withRole_span (r : Role) (t : Tree) : (t.withRole r).span = t.span := by
  cases t
  rfl

@[simp] theorem withRole_kind (r : Role) (t : Tree) : (t.withRole r).kind = t.kind := by
  cases t
  rfl

@[simp] theorem withRole_role (r : Role) (t : Tree) : (t.withRole r).role = some r := by
  cases t
  rfl

@[simp] theorem withRole_children (r : Role) (t : Tree) :
    (t.withRole r).children = t.children := by
  cases t
  rfl

namespace Row

variable {low low' mid high high' : Nat} {ts ts' us us' : List Tree}

theorem le (h : g.Row low high ts ts') : low ≤ high := by
  induction ts generalizing low ts' with
  | nil =>
      cases h with
      | nil hle => exact hle
  | cons t rest ih =>
      cases h with
      | cons hle htwin hrest =>
          have := ih hrest
          have := htwin.spans.le
          omega

theorem widen (h : g.Row low high ts ts') (hlow : low' ≤ low) (hhigh : high ≤ high') :
    g.Row low' high' ts ts' := by
  induction ts generalizing low low' ts' with
  | nil =>
      cases h with
      | nil hle => exact .nil (by omega)
  | cons t rest ih =>
      cases h with
      | cons hle htwin hrest => exact .cons (by omega) htwin (ih hrest (Nat.le_refl _))

theorem append (h : g.Row low mid ts ts') (h' : g.Row mid high us us') :
    g.Row low high (ts ++ us) (ts' ++ us') := by
  induction ts generalizing low ts' with
  | nil =>
      cases h with
      | nil hle => exact h'.widen hle (Nat.le_refl _)
  | cons t rest ih =>
      cases h with
      | cons hle htwin hrest => exact .cons hle htwin (ih hrest)

theorem single {t t' : Tree} (h : g.Twin t t') (hlow : low ≤ t.span.start)
    (hhigh : t.span.stop ≤ high) : g.Row low high [t] [t'] :=
  .cons hlow h (.nil hhigh)

theorem length (h : g.Row low high ts ts') : ts.length = ts'.length := by
  induction ts generalizing low ts' with
  | nil =>
      cases h
      rfl
  | cons t rest ih =>
      cases h with
      | cons _ _ hrest => rw [List.length_cons, List.length_cons, ih hrest]

/-- Two rows have one tree each or neither has. -/
theorem singles (h : g.Row low high ts ts') :
    (∃ t t', ts = [t] ∧ ts' = [t'] ∧ low ≤ t.span.start ∧ g.Twin t t' ∧ t.span.stop ≤ high) ∨
      ∀ t, ts ≠ [t] ∧ ts' ≠ [t] := by
  cases h with
  | nil => exact .inr fun t => ⟨fun h => (nomatch h), fun h => nomatch h⟩
  | @cons _ _ t t' rest rest' hle htwin hrest =>
      cases hrest with
      | nil hhigh => exact .inl ⟨t, t', rfl, rfl, hle, htwin, hhigh⟩
      | cons => exact .inr fun t => ⟨fun h => (nomatch h), fun h => nomatch h⟩

/-- Trees of a row in another part are still a row. -/
theorem map_withRole (h : g.Row low high ts ts') (r : Role) :
    g.Row low high (ts.map (Tree.withRole r)) (ts'.map (Tree.withRole r)) := by
  induction ts generalizing low ts' with
  | nil =>
      cases h with
      | nil hle => exact .nil hle
  | cons t rest ih =>
      cases h with
      | cons hle htwin hrest =>
          refine .cons (by simpa using hle) (htwin.withRole r) ?_
          rw [withRole_span]
          exact ih hrest

end Row

/-! ## Targets -/

/-- Whether two results are none, or both twins at the place of a tree. -/
def TargetTwin (g : Draft) (s : Span) (r r' : Option Tree) : Prop :=
  (r = none ∧ r' = none) ∨ ∃ u u', r = some u ∧ r' = some u' ∧ g.Twin u u' ∧ u.span = s

/-- A star before one name, attribute or subscript makes a target. -/
theorem toTarget?_listSplat {role : Option Role} {s s' : Span} {children children' : List Tree}
    (hspans : g.Spans s s') (hrow : g.Row s.start s.stop children children') :
    g.TargetTwin s (Syntax.toTarget? (.node .listSplat role s "" children))
      (Syntax.toTarget? (.node .listSplat role s' "" children')) := by
  simp only [Syntax.toTarget?]
  cases hrow with
  | nil => exact .inl ⟨rfl, rfl⟩
  | @cons _ _ t t' rest rest' hle htwin hrest =>
      have hpattern : g.Twin (.node .listSplatPattern role s "" (t :: rest))
          (.node .listSplatPattern role s' "" (t' :: rest')) :=
        .inner hspans trivial (.cons hle htwin hrest)
      have hkind := htwin.kind
      obtain ⟨k, r, p, x, cs⟩ := t
      obtain ⟨k', r', p', x', cs'⟩ := t'
      have hkind : k = k' := hkind
      subst hkind
      cases hrest with
      | cons =>
          left
          constructor
          · split <;> simp_all
          · split <;> simp_all
      | nil =>
          by_cases hone : k = .identifier ∨ k = .attribute ∨ k = .subscript
          · rcases hone with rfl | rfl | rfl
            · exact .inr ⟨_, _, rfl, rfl, hpattern, rfl⟩
            · exact .inr ⟨_, _, rfl, rfl, hpattern, rfl⟩
            · exact .inr ⟨_, _, rfl, rfl, hpattern, rfl⟩
          · simp only [not_or] at hone
            left
            constructor
            · split <;> simp_all
            · split <;> simp_all

mutual

/-- Twins stand for twin targets, or for none. -/
theorem Twin.toTarget? : ∀ {t t' : Tree}, g.Twin t t' →
    g.TargetTwin t.span (Syntax.toTarget? t) (Syntax.toTarget? t')
  | .node kind role s x children, t', h => by
      cases h with
      | leaf hspans hspelled hname =>
          simp only [Syntax.toTarget?, Syntax.toTargets?]
          split
          · exact .inr ⟨_, _, rfl, rfl, .leaf hspans hspelled hname, rfl⟩
          · exact .inr ⟨_, _, rfl, rfl, .leaf hspans hspelled hname, rfl⟩
          · exact .inr ⟨_, _, rfl, rfl, .leaf hspans hspelled hname, rfl⟩
          · exact .inl ⟨rfl, rfl⟩
          · exact .inr ⟨_, _, rfl, rfl, .leaf hspans hspelled (fun h => nomatch h), rfl⟩
          · exact .inr ⟨_, _, rfl, rfl, .leaf hspans hspelled (fun h => nomatch h), rfl⟩
          · exact .inr ⟨_, _, rfl, rfl, .leaf hspans hspelled (fun h => nomatch h), rfl⟩
          · exact .inl ⟨rfl, rfl⟩
      | @inner _ _ _ s' _ children' hspans hshaped hrow =>
          -- A row stands for targets if all its trees do.
          have targets : ∀ k : Kind, (∀ ts, g.Shaped k ts) → g.TargetTwin s
              (match Syntax.toTargets? children with
                | some targets => some (.node k role s "" targets)
                | none => none)
              (match Syntax.toTargets? children' with
                | some targets => some (.node k role s' "" targets)
                | none => none) := by
            intro k hk
            rcases Row.toTargets? hrow with ⟨hnone, hnone'⟩ | ⟨us, us', hus, hus', husrow⟩
            · rw [hnone, hnone']
              exact .inl ⟨rfl, rfl⟩
            · rw [hus, hus']
              exact .inr ⟨_, _, rfl, rfl, .inner hspans (hk us) husrow, rfl⟩
          simp only [Syntax.toTarget?]
          split
          · exact .inr ⟨_, _, rfl, rfl, .inner hspans hshaped hrow, rfl⟩
          · exact .inr ⟨_, _, rfl, rfl, .inner hspans hshaped hrow, rfl⟩
          · exact .inr ⟨_, _, rfl, rfl, .inner hspans hshaped hrow, rfl⟩
          · have hsplat := @toTarget?_listSplat g role _ _ _ _ hspans hrow
            simp only [Syntax.toTarget?] at hsplat
            exact hsplat
          · exact targets _ fun _ => trivial
          · exact targets _ fun _ => trivial
          · exact targets _ fun _ => trivial
          · exact .inl ⟨rfl, rfl⟩
      | dotted => exact .inl ⟨rfl, rfl⟩

theorem Row.toTargets? : ∀ {low high : Nat} {ts ts' : List Tree}, g.Row low high ts ts' →
    (Syntax.toTargets? ts = none ∧ Syntax.toTargets? ts' = none) ∨
      ∃ us us', Syntax.toTargets? ts = some us ∧ Syntax.toTargets? ts' = some us' ∧
        g.Row low high us us'
  | low, high, [], ts', h => by
      cases h with
      | nil hle => exact .inr ⟨[], [], rfl, rfl, .nil hle⟩
  | low, high, t :: rest, ts', h => by
      cases h with
      | cons hle htwin hrest =>
          simp only [Syntax.toTargets?]
          rcases Twin.toTarget? htwin with ⟨hnone, hnone'⟩ | ⟨u, u', hu, hu', hutwin, hspan⟩
          · rw [hnone, hnone']
            exact .inl ⟨rfl, rfl⟩
          · rcases Row.toTargets? hrest with ⟨hnone, hnone'⟩ | ⟨us, us', hus, hus', husrow⟩
            · rw [hu, hu', hnone, hnone']
              exact .inl ⟨rfl, rfl⟩
            · rw [hu, hu', hus, hus']
              rw [← hspan] at hle husrow
              exact .inr ⟨_, _, rfl, rfl, .cons hle hutwin husrow⟩

end

end Longhand.Draft
