import Longhand.Proofs.Shift

/-!
# Twins as relabelled trees

Where nothing but names of keyword arguments is marked, the tree of the other text of a draft is the
tree of the first one with other names of keyword arguments and moved offsets.  Then no leaf of the
tree is astray, so the other text is read if the first one is read as it stands.
-/

namespace Longhand.Draft

open Syntax Text Scope

variable {g : Draft} {s s' : Span} {x x' : String} {old new : List Char} {c : Context}
  {t t' u : Tree} {ts ts' : List Tree} {low high : Nat}

/-! ## Marked names -/

theorem Marked.lt (h : g.Marked s old new) : s.start < s.stop := by
  obtain ⟨done, todo, hparts, hstart, hstop⟩ := h
  obtain ⟨-, hold, -⟩ := g.sound_right hparts
  obtain ⟨d, rest, rfl, -⟩ := exists_of_isPlainName hold
  have := d.utf8Size_pos
  rw [byteSize_cons] at hstop
  omega

/-- The texts of a marked name are its two spellings. -/
theorem Spelled.eq_of_marked (h : g.Spelled s x x') (hmarked : g.Marked s old new) :
    x = String.ofList old ∧ x' = String.ofList new := by
  obtain ⟨done, mid, todo, hparts, hstart, hstop, rfl, rfl⟩ := h
  obtain ⟨done', todo', hparts', hstart', hstop'⟩ := hmarked
  obtain ⟨rfl, -⟩ := place_unique hparts hparts' (hstart.symm.trans hstart')
  have hend : byteSize (before (done ++ mid)) = byteSize (before (done ++ [.renamed old new])) := by
    rw [← hstop, hstop', before_append, byteSize_append, before_renamed, before_nil, List.append_nil]
  have hsplit : g.parts = (done ++ mid) ++ todo := by rw [hparts, List.append_assoc]
  have hsplit' : g.parts = (done ++ [.renamed old new]) ++ todo' := by rw [hparts']; simp
  obtain ⟨hmid, -⟩ := place_unique hsplit hsplit' hend
  rw [List.append_cancel_left hmid]
  simp

/-- A stretch without marked names is spelled alike in both texts. -/
theorem Spelled.eq_of_unmarked (h : g.Spelled s x x')
    (hnone : ∀ s' old new, g.Marked s' old new → ¬ s'.Within s) : x' = x := by
  obtain ⟨done, mid, todo, hparts, hstart, hstop, rfl, rfl⟩ := h
  have hkept : ∀ a b old new, mid ≠ a ++ .renamed old new :: b := by
    rintro a b old new rfl
    refine hnone ⟨byteSize (before (done ++ a)), byteSize (before (done ++ a)) + byteSize old⟩ old new
      ⟨done ++ a, b ++ todo, by rw [hparts]; simp, rfl, rfl⟩ ⟨?_, ?_⟩
    · rw [hstart, before_append, byteSize_append]
      exact Nat.le_add_right _ _
    · rw [hstop]
      simp only [before_append, before_renamed, byteSize_append]
      omega
  have heq : after mid = before mid := by
    clear hparts hstop
    induction mid with
    | nil => rfl
    | cons p rest ih =>
        cases p with
        | kept d =>
            have hrest := ih fun a b old new h =>
              hkept (.kept d :: a) b old new (by rw [h, List.cons_append])
            rw [before_kept, after_kept, hrest]
        | renamed old new => exact absurd rfl (hkept [] rest old new)
  rw [heq]

/-! ## Relabelling -/

theorem argumentNamesIn_eq_nil (h : ∀ t ∈ ts, argumentNames c t = []) :
    argumentNamesIn c ts = [] := by
  induction ts with
  | nil => rw [argumentNamesIn]
  | cons t rest ih =>
      rw [argumentNamesIn, h t List.mem_cons_self, ih fun u hu => h u (List.mem_cons_of_mem _ hu)]
      rfl

section Relabel

variable {ρ : Span → String} {σ : Nat → Nat}

theorem Spans.move_eq (hσ : ∀ o o', g.Cut o o' → σ o = o') (h : g.Spans s s') : s.move σ = s' := by
  rw [Span.move, hσ _ _ h.start, hσ _ _ h.stop]

mutual

/-- A twin is the relabelled tree if all that is marked in the tree are names of keyword arguments, and
these are spelled in the other text as their new names. -/
theorem Twin.eq_relabel (hσ : ∀ o o', g.Cut o o' → σ o = o') : ∀ {c : Context} {t t' : Tree},
    g.Twin t t' →
    (∀ s x x', s ∈ argumentNames c t → g.Spelled s x x' → ρ s = x') →
    (∀ s old new, g.Marked s old new → s.Within t.span → s ∈ argumentNames c t) →
      t' = relabel ρ σ c t
  | c, .node kind role s x children, t', h, hnames, hmarked => by
      have hrow := h.row
      have hchildren : isArgumentName c kind role = false →
          t'.children = relabelIn ρ σ (c.enter kind) children := by
        intro hname
        refine Row.eq_relabelIn hσ hrow (fun s x x' hs => ?_) fun s old new hs hwithin => ?_
        · exact hnames s x x' (by rw [argumentNames, hname]; exact hs)
        · have hmem := hmarked s old new hs hwithin
          rw [argumentNames, hname] at hmem
          exact hmem
      -- What is spelled otherwise is the name of a keyword argument.
      have hkept : ∀ {x' : String}, isArgumentName c kind role = false →
          argumentNamesIn (c.enter kind) children = [] → g.Spelled s x x' → x' = x := by
        intro x' hname hnone hspelled
        refine hspelled.eq_of_unmarked fun s' old new hs hwithin => ?_
        have hmem := hmarked s' old new hs hwithin
        rw [argumentNames, hname, hnone] at hmem
        cases hmem
      rw [relabel]
      cases h with
      | @leaf _ _ _ s' _ x' hspans hspelled =>
          rw [Spans.move_eq hσ hspans, relabelIn]
          cases hname : isArgumentName c kind role with
          | true =>
              have hmem : s ∈ argumentNames c (.node kind role s x []) := by
                rw [argumentNames, if_pos hname]
                exact List.mem_cons_self
              rw [if_pos rfl, hnames s x x' hmem hspelled]
          | false =>
              rw [if_neg Bool.false_ne_true, hkept hname (by rw [argumentNamesIn]) hspelled]
      | @inner _ _ _ s' _ children' hspans hshaped _ =>
          have hname : isArgumentName c kind role = false := by
            rw [Bool.eq_false_iff]
            intro hname
            simp only [isArgumentName, Bool.and_eq_true, decide_eq_true_eq] at hname
            rw [hname.2] at hshaped
            exact hshaped
          rw [Spans.move_eq hσ hspans, hname, if_neg Bool.false_ne_true, ← hchildren hname]
          rfl
      | @dotted _ _ s' _ x' _ children' hspans hspelled hleaves _ =>
          have hname : isArgumentName c .dottedName role = false := by
            simp [isArgumentName]
          have hnone : argumentNamesIn (c.enter .dottedName) children = [] := by
            refine argumentNamesIn_eq_nil fun u hu => ?_
            obtain ⟨hkind, hrole, hleaf⟩ := hleaves u hu
            obtain ⟨k, r, p, y, cs⟩ := u
            cases hrole
            cases hleaf
            rw [argumentNames, if_neg (by simp [isArgumentName]), argumentNamesIn]
          rw [Spans.move_eq hσ hspans, hname, if_neg Bool.false_ne_true, ← hchildren hname,
            hkept hname hnone hspelled]
          rfl

theorem Row.eq_relabelIn (hσ : ∀ o o', g.Cut o o' → σ o = o') :
    ∀ {c : Context} {low high : Nat} {ts ts' : List Tree}, g.Row low high ts ts' →
    (∀ s x x', s ∈ argumentNamesIn c ts → g.Spelled s x x' → ρ s = x') →
    (∀ s old new, g.Marked s old new → s.Within ⟨low, high⟩ → s ∈ argumentNamesIn c ts) →
      ts' = relabelIn ρ σ c ts
  | c, low, high, [], ts', h, hnames, hmarked => by
      cases h
      rw [relabelIn]
  | c, low, high, t :: rest, ts', h, hnames, hmarked => by
      cases h with
      | cons hle htwin hrest =>
          -- The names in the first tree and those behind it lie apart, so each part has its own share.
          have inside := (argumentNames_pairwise (c := c) htwin.ordered).2
          have behind := (argumentNamesIn_pairwise (c := c) hrest.pairwise (Row.ordered hrest)).2
          have hmem : ∀ {s : Span}, s ∈ argumentNamesIn c (t :: rest) →
              s ∈ argumentNames c t ∨ s ∈ argumentNamesIn c rest := by
            intro s hs
            rwa [argumentNamesIn, List.mem_append] at hs
          rw [relabelIn,
            ← Twin.eq_relabel hσ htwin (fun s x x' hs => ?_) fun s old new hs hwithin => ?_,
            ← Row.eq_relabelIn hσ hrest (fun s x x' hs => ?_) fun s old new hs hwithin => ?_]
          · exact hnames s x x' (by rw [argumentNamesIn]; exact List.mem_append_right _ hs)
          · -- A marked name in the rest is none of the first tree.
            have hlt := hs.lt
            have hspan := htwin.spans.le
            refine (hmem (hmarked s old new hs ⟨?_, hwithin.stop⟩)).resolve_left fun hfirst => ?_
            · have := hwithin.start
              exact Nat.le_trans hle (Nat.le_trans hspan this)
            · have := (inside s hfirst).stop
              have := hwithin.start
              dsimp only at this
              omega
          · exact hnames s x x' (by rw [argumentNamesIn]; exact List.mem_append_left _ hs)
          · have hlt := hs.lt
            refine (hmem (hmarked s old new hs ⟨Nat.le_trans hle hwithin.start,
              Nat.le_trans hwithin.stop hrest.le⟩)).resolve_right fun hsecond => ?_
            obtain ⟨u, hu, hinside⟩ := behind s hsecond
            obtain ⟨-, -, -, hrow⟩ := hrest.mem hu
            have := hinside.start
            have := hrow.start
            have := hwithin.stop
            dsimp only at *
            omega

end

end Relabel

/-! ## Leaves astray -/

/-- A leaf astray is no name of a keyword argument. -/
theorem Stray.exists_leaf (h : g.Stray t) : ∃ u, IsNode u t ∧ u.children = [] ∧
    (u.kind = .casePattern ∨ u.role = none) ∧ ∃ old new, g.Marked u.span old new := by
  induction h with
  | pattern hmarked => exact ⟨_, .self, rfl, .inl rfl, _, _, hmarked⟩
  | name hmem hleaf hrole hmarked => exact ⟨_, .child hmem, hleaf, .inr hrole, _, _, hmarked⟩
  | inside hmem _ ih =>
      obtain ⟨u, hu, h⟩ := ih
      exact ⟨u, .inside hmem hu, h⟩

/-- No leaf is astray if all that is marked are names of keyword arguments. -/
theorem not_stray (hmarked : ∀ s old new, g.Marked s old new →
    s ∈ argumentNames .elsewhere (parse (before g.parts))) : ¬ g.Stray (parse (before g.parts)) := by
  intro hstray
  obtain ⟨u, hu, hleaf, hodd, old, new, hmark⟩ := hstray.exists_leaf
  obtain ⟨v, hv, hkind, hrole, hleaf', hspan, hlt, -⟩ := Scope.exists_leaf (hmarked _ _ _ hmark)
  have heq : u = v := by
    rcases (ordered_parse _).nested_or_apart hu hv with hnode | hnode | hapart
    · exact hnode.eq_of_leaf hleaf'
    · exact (hnode.eq_of_leaf hleaf).symm
    · rw [hspan] at hapart
      rcases hapart with hle | hle <;> omega
  subst heq
  rcases hodd with hpattern | hnone
  · rw [hkind] at hpattern
    cases hpattern
  · rw [hrole] at hnone
    cases hnone

end Longhand.Draft
