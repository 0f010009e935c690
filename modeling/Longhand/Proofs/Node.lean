import Longhand.Proofs.Parse

/-!
# Nodes of a tree

The nodes of the tree of a text are nested or lie apart, and the leaves hold the text that their
spans cover.
-/

namespace Longhand.Syntax

/-- Whether a tree is a node of another one. -/
inductive IsNode (u : Tree) : Tree → Prop
  | self : IsNode u u
  | inside {v t : Tree} : v ∈ t.children → IsNode u v → IsNode u t

theorem IsNode.child {u t : Tree} (h : u ∈ t.children) : IsNode u t :=
  .inside h .self

theorem IsNode.trans {u v t : Tree} (h : IsNode u v) (h' : IsNode v t) : IsNode u t := by
  induction h' with
  | self => exact h
  | inside hmem _ ih => exact .inside hmem ih

theorem sizeOf_child {u t : Tree} (hu : u ∈ t.children) : sizeOf u < sizeOf t := by
  obtain ⟨k, r, s, x, cs⟩ := t
  have := List.sizeOf_lt_of_mem hu
  simp only [Tree.node.sizeOf_spec]
  simp only [Tree.children] at this
  omega

/-- The only node of a leaf is the leaf. -/
theorem IsNode.eq_of_leaf {u t : Tree} (h : IsNode u t) (ht : t.children = []) : u = t := by
  cases h with
  | self => rfl
  | inside hmem _ =>
      rw [ht] at hmem
      cases hmem

end Longhand.Syntax

namespace Longhand.Text.Span

/-- Whether one of two spans ends before the other begins. -/
def Apart (a b : Span) : Prop :=
  a.stop ≤ b.start ∨ b.stop ≤ a.start

theorem Apart.symm {a b : Span} (h : a.Apart b) : b.Apart a :=
  Or.symm h

/-- Whether a span lies inside another one. -/
structure Within (a b : Span) : Prop where
  start : b.start ≤ a.start
  stop : a.stop ≤ b.stop

theorem Within.refl (a : Span) : a.Within a :=
  ⟨Nat.le_refl _, Nat.le_refl _⟩

theorem Within.trans {a b c : Span} (h : a.Within b) (h' : b.Within c) : a.Within c :=
  ⟨Nat.le_trans h'.start h.start, Nat.le_trans h.stop h'.stop⟩

theorem contains_iff {s : Span} {offset : Nat} :
    s.contains offset = true ↔ s.start ≤ offset ∧ offset < s.stop := by
  simp [contains]

/-- What lies inside spans that lie apart lies apart. -/
theorem Apart.within {a b c d : Span} (h : a.Apart b) (hc : c.Within a) (hd : d.Within b) :
    c.Apart d := by
  rcases h with h | h
  · exact .inl (Nat.le_trans hc.stop (Nat.le_trans h hd.start))
  · exact .inr (Nat.le_trans hd.stop (Nat.le_trans h hc.start))

/-- No offset lies in two spans that lie apart. -/
theorem Apart.not_contains {a b : Span} {offset : Nat} (h : a.Apart b)
    (ha : a.contains offset = true) : b.contains offset = false := by
  rw [Bool.eq_false_iff]
  intro hb
  rw [contains_iff] at ha hb
  unfold Apart at h
  omega

theorem Within.contains {a b : Span} {offset : Nat} (h : a.Within b)
    (ha : a.contains offset = true) : b.contains offset = true := by
  rw [contains_iff] at ha ⊢
  have := h.start
  have := h.stop
  omega

end Longhand.Text.Span

namespace Longhand.Syntax

/-- Of two members of a list in order, one comes before the other. -/
theorem pairwise_cases {α : Type} {R : α → α → Prop} {l : List α} (h : l.Pairwise R) {x y : α}
    (hx : x ∈ l) (hy : y ∈ l) : x = y ∨ R x y ∨ R y x := by
  induction l with
  | nil => cases hx
  | cons z l ih =>
      obtain ⟨hz, hl⟩ := List.pairwise_cons.1 h
      rcases List.mem_cons.1 hx with rfl | hxl
      · rcases List.mem_cons.1 hy with rfl | hyl
        · exact .inl rfl
        · exact .inr (.inl (hz y hyl))
      · rcases List.mem_cons.1 hy with rfl | hyl
        · exact .inr (.inr (hz x hxl))
        · exact ih hl hxl hyl

/-- Whether no node of a tree runs backwards, the children of each lie inside it, and they come one
after the other. -/
inductive Ordered : Tree → Prop
  | node {k : Kind} {r : Option Role} {s : Text.Span} {x : String} {cs : List Tree} :
      s.start ≤ s.stop → (∀ c ∈ cs, c.span.Within s) →
      cs.Pairwise (fun c d => c.span.stop ≤ d.span.start) → (∀ c ∈ cs, Ordered c) →
      Ordered (.node k r s x cs)

namespace Ordered

variable {t u : Tree}

theorem le (h : Ordered t) : t.span.start ≤ t.span.stop := by
  cases h with
  | node hle _ _ _ => exact hle

theorem pairwise (h : Ordered t) :
    t.children.Pairwise fun c d => c.span.stop ≤ d.span.start := by
  cases h with
  | node _ _ hpairwise _ => exact hpairwise

theorem child (h : Ordered t) (hu : u ∈ t.children) : Ordered u := by
  cases h with
  | node _ _ _ hchildren => exact hchildren u hu

theorem within_child (h : Ordered t) (hu : u ∈ t.children) : u.span.Within t.span := by
  cases h with
  | node _ hwithin _ _ => exact hwithin u hu

theorem node_of (h : Ordered t) (hu : IsNode u t) : Ordered u := by
  induction hu with
  | self => exact h
  | inside hmem _ ih => exact ih (h.child hmem)

theorem within (h : Ordered t) (hu : IsNode u t) : u.span.Within t.span := by
  induction hu with
  | self => exact .refl _
  | inside hmem _ ih => exact (ih (h.child hmem)).trans (h.within_child hmem)

/-- Two nodes of a tree are nested or lie apart. -/
theorem nested_or_apart {v : Tree} (h : Ordered t) (hu : IsNode u t) (hv : IsNode v t) :
    IsNode u v ∨ IsNode v u ∨ u.span.Apart v.span := by
  induction hu with
  | self => exact .inr (.inl hv)
  | @inside w t hw hu ih =>
      cases hv with
      | self => exact .inl (.inside hw hu)
      | @inside x _ hx hv =>
          have hwithin := (h.child hw).within hu
          have hwithin' := (h.child hx).within hv
          rcases pairwise_cases h.pairwise hw hx with rfl | hle | hle
          · exact ih (h.child hw) hv
          · exact .inr (.inr (.within (.inl hle) hwithin hwithin'))
          · exact .inr (.inr (.within (.inr hle) hwithin hwithin'))

end Ordered

end Longhand.Syntax

namespace Longhand.Draft

open Syntax Text

variable {g : Draft} {low high : Nat} {t t' u v : Tree} {ts ts' : List Tree}

/-! ## Rows -/

/-- Each tree of a row has a twin and lies in the stretch of the row. -/
theorem Row.mem (h : g.Row low high ts ts') (ht : t ∈ ts) :
    ∃ t' ∈ ts', g.Twin t t' ∧ t.span.Within ⟨low, high⟩ := by
  induction ts generalizing low ts' with
  | nil => cases ht
  | cons u rest ih =>
      cases h with
      | cons hle htwin hrest =>
          rcases List.mem_cons.1 ht with rfl | ht
          · exact ⟨_, List.mem_cons_self, htwin, hle, hrest.le⟩
          · obtain ⟨t', ht', htwin', hwithin⟩ := ih hrest ht
            refine ⟨t', List.mem_cons_of_mem _ ht', htwin', ?_, hwithin.stop⟩
            exact Nat.le_trans hle (Nat.le_trans htwin.spans.le hwithin.start)

/-- Each tree of a row that is paired with itself is its own twin. -/
theorem Row.mem_self (h : g.Row low high ts ts) (ht : t ∈ ts) : g.Twin t t := by
  induction ts generalizing low with
  | nil => cases ht
  | cons u rest ih =>
      cases h with
      | cons hle htwin hrest =>
          rcases List.mem_cons.1 ht with rfl | ht
          · exact htwin
          · exact ih hrest ht

/-- Of two trees of a row one ends before the other begins. -/
theorem Row.pairwise (h : g.Row low high ts ts') :
    ts.Pairwise fun u v => u.span.stop ≤ v.span.start := by
  induction ts generalizing low ts' with
  | nil => exact .nil
  | cons t rest ih =>
      cases h with
      | cons hle htwin hrest =>
          refine .cons ?_ (ih hrest)
          intro v hv
          obtain ⟨-, -, -, hwithin⟩ := hrest.mem hv
          exact hwithin.start

/-- Two trees of a row are the same or lie apart. -/
theorem Row.apart (h : g.Row low high ts ts') (hu : u ∈ ts) (hv : v ∈ ts) :
    u = v ∨ u.span.Apart v.span := by
  induction ts generalizing low ts' with
  | nil => cases hu
  | cons t rest ih =>
      cases h with
      | cons hle htwin hrest =>
          have later : ∀ {w : Tree}, w ∈ rest → t.span.Apart w.span := by
            intro w hw
            obtain ⟨-, -, -, hwithin⟩ := hrest.mem hw
            exact .inl hwithin.start
          rcases List.mem_cons.1 hu with rfl | hurest
          · rcases List.mem_cons.1 hv with rfl | hvrest
            · exact .inl rfl
            · exact .inr (later hvrest)
          · rcases List.mem_cons.1 hv with rfl | hvrest
            · exact .inr (later hurest).symm
            · exact ih hrest hurest hvrest

/-! ## Nodes -/

theorem Twin.child (h : g.Twin t t') (hu : u ∈ t.children) :
    ∃ u' ∈ t'.children, g.Twin u u' ∧ u.span.Within t.span :=
  h.row.mem hu

/-- Each node of a tree has a twin in the other one and lies inside the tree. -/
theorem Twin.node (h : g.Twin t t') (hu : IsNode u t) :
    ∃ u', IsNode u' t' ∧ g.Twin u u' ∧ u.span.Within t.span := by
  induction hu generalizing t' with
  | self => exact ⟨t', .self, h, .refl _⟩
  | inside hmem _ ih =>
      obtain ⟨v', hv', hv, hwithin⟩ := h.child hmem
      obtain ⟨u', hu', hu, hinside⟩ := ih hv
      exact ⟨u', .inside hv' hu', hu, hinside.trans hwithin⟩

/-- Each node of a tree that is its own twin is its own twin. -/
theorem Twin.node_self (h : g.Twin t t) (hu : IsNode u t) : g.Twin u u := by
  induction hu with
  | self => exact h
  | inside hmem _ ih => exact ih (h.row.mem_self hmem)

theorem Twin.within (h : g.Twin t t') (hu : IsNode u t) : u.span.Within t.span := by
  obtain ⟨-, -, -, hwithin⟩ := h.node hu
  exact hwithin

mutual

/-- The nodes of a tree with a twin lie in order. -/
theorem Twin.ordered : ∀ {t t' : Tree}, g.Twin t t' → Ordered t
  | .node _ _ _ _ _, _, h => by
      refine .node h.spans.le (fun c hc => ?_) h.row.pairwise (Row.ordered h.row)
      obtain ⟨-, -, -, hwithin⟩ := h.child hc
      exact hwithin

theorem Row.ordered : ∀ {low high : Nat} {ts ts' : List Tree}, g.Row low high ts ts' →
    ∀ c ∈ ts, Ordered c
  | _, _, [], _, _ => fun _ h => nomatch h
  | _, _, t :: rest, _, .cons _ htwin hrest => by
      intro c hc
      rcases List.mem_cons.1 hc with heq | hc
      · rw [heq]
        exact Twin.ordered htwin
      · exact Row.ordered hrest c hc

end

/-- The nodes of the tree of a text lie in order. -/
theorem ordered_parse (source : List Char) : Ordered (parse source) := by
  by_cases h : Reads source
  · exact (twin_parse h).ordered
  · have leaf : Ordered (.node .error none ⟨0, byteSize source⟩ "" []) :=
      .node (Nat.zero_le _) (fun _ h => nomatch h) .nil fun _ h => nomatch h
    rw [parse_of_not_reads h]
    refine .node (Nat.zero_le _) ?_ (List.pairwise_singleton _ _) ?_
    · intro c hc
      rw [List.mem_singleton.1 hc]
      exact .refl _
    · intro c hc
      rw [List.mem_singleton.1 hc]
      exact leaf

end Longhand.Draft
