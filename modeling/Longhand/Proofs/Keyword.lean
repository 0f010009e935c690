import Longhand.Proofs.Node
import Longhand.Scope.Calls

/-!
# Keywords of calls

The keyword arguments of the calls that are found in a tree are nodes of it, and no two of them
overlap, for calls inside an argument stand behind its name.
-/

namespace Longhand.Scope

open Syntax

variable {t u : Tree} {depth : Nat} {source : List Char} {scopes : Scopes} {call : Edit.Call}

/-! ## Nodes that are searched -/

/-- Whether the search for calls in a tree at some depth arrives at a node. -/
inductive Searched (u : Tree) : Nat → Tree → Prop
  | here {depth : Nat} : depth ≤ depthLimit → Searched u depth u
  | inside {depth : Nat} {c t : Tree} : depth ≤ depthLimit → c ∈ t.children →
      Searched u (depth + 1) c → Searched u depth t

theorem Searched.le (h : Searched u depth t) : depth ≤ depthLimit := by
  cases h with
  | here hle => exact hle
  | inside hle _ _ => exact hle

theorem Searched.isNode (h : Searched u depth t) : IsNode u t := by
  induction h with
  | here _ => exact .self
  | inside _ hmem _ ih => exact .inside hmem ih

theorem searched_iff : Searched u depth t ↔
    depth ≤ depthLimit ∧ (u = t ∨ ∃ c ∈ t.children, Searched u (depth + 1) c) := by
  constructor
  · intro h
    cases h with
    | here hle => exact ⟨hle, .inl rfl⟩
    | inside hle hmem h => exact ⟨hle, .inr ⟨_, hmem, h⟩⟩
  · rintro ⟨hle, rfl | ⟨c, hmem, h⟩⟩
    · exact .here hle
    · exact .inside hle hmem h

mutual

theorem mem_callsAt_iff : ∀ {depth : Nat} {t : Tree}, call ∈ callsAt source scopes depth t ↔
    ∃ u, Searched u depth t ∧ call? source scopes u = some call
  | depth, .node kind role span text children => by
      rw [callsAt]
      split
      · rename_i hlt
        constructor
        · exact fun h => nomatch h
        · rintro ⟨u, hu, -⟩
          have := hu.le
          omega
      · rename_i hle
        simp only [List.mem_append, Option.mem_toList, mem_callsIn_iff]
        constructor
        · rintro (h | ⟨c, hc, u, hu, h⟩)
          · exact ⟨_, .here (Nat.le_of_not_lt hle), h⟩
          · exact ⟨u, .inside (Nat.le_of_not_lt hle) hc hu, h⟩
        · rintro ⟨u, hu, h⟩
          obtain ⟨-, rfl | ⟨c, hc, hu⟩⟩ := searched_iff.1 hu
          · exact .inl h
          · exact .inr ⟨c, hc, u, hu, h⟩

theorem mem_callsIn_iff : ∀ {depth : Nat} {ts : List Tree}, call ∈ callsIn source scopes depth ts ↔
    ∃ t ∈ ts, ∃ u, Searched u depth t ∧ call? source scopes u = some call
  | depth, [] => by simp [callsIn]
  | depth, t :: rest => by
      rw [callsIn, List.mem_append, mem_callsAt_iff, mem_callsIn_iff]
      simp

end

/-- The calls of a tree are those nodes at which the search arrives and which are calls of tracked
modules. -/
theorem mem_calls_iff : call ∈ calls source scopes t ↔
    ∃ u, Searched u 0 t ∧ call? source scopes u = some call :=
  mem_callsAt_iff

end Longhand.Scope

namespace Longhand.Draft

open Syntax Text Scope

variable {g : Draft} {low high : Nat} {t t' u v : Tree} {ts ts' : List Tree}
  {source : List Char} {scopes : Scopes}

/-! ## Forms of nodes -/

theorem Twin.shaped (h : g.Twin t t') (hne : t.children ≠ []) (hkind : t.kind ≠ .dottedName) :
    g.Shaped t.kind t.children := by
  cases h with
  | leaf => exact absurd rfl hne
  | inner _ hshaped _ => exact hshaped
  | dotted => exact absurd rfl hkind

/-- A name takes up room. -/
theorem Twin.identifier_lt (h : g.Twin t t') (hkind : t.kind = .identifier) :
    t.span.start < t.span.stop := by
  cases h with
  | leaf _ _ hlt => exact hlt hkind
  | inner _ hshaped _ =>
      subst hkind
      exact hshaped.elim
  | dotted => cases hkind

theorem child?_eq_some {r : Role} (h : t.child? r = some u) : u ∈ t.children ∧ u.role = some r := by
  unfold Tree.child? at h
  have hrole := List.find?_some h
  exact ⟨List.mem_of_find?_eq_some h, by simpa using hrole⟩

/-- A keyword that is written out is the name of a keyword argument before its value. -/
theorem keyword?_eq_some (h : g.Twin t t') {k : Edit.Keyword} (hk : keyword? source t = some k) :
    t.kind = .keywordArgument ∧ ∃ name value, t.children = [name, value] ∧ g.KeywordName name ∧
      k = ⟨name.text, name.span, value.span, positionAt source name.span.start⟩ := by
  unfold keyword? at hk
  split at hk
  · rename_i hkind
    split at hk
    · rename_i name value hname hvalue
      have hmem := (child?_eq_some hname).1
      have hshaped := h.shaped (List.ne_nil_of_mem hmem) (by rw [hkind]; exact Kind.noConfusion)
      rw [hkind] at hshaped
      obtain ⟨name', value', hchildren, hkeyword, hrole⟩ := hshaped
      have hfirst : name'.role = some .name := by
        obtain ⟨s, done, mid, todo, rfl, -⟩ := hkeyword
        rfl
      rw [Tree.child?, hchildren] at hname hvalue
      rw [List.find?_cons_of_pos (by simp [hfirst])] at hname
      rw [List.find?_cons_of_neg (by simp [hfirst]),
        List.find?_cons_of_pos (by simp [hrole])] at hvalue
      cases hname
      cases hvalue
      split at hk
      · cases hk
        exact ⟨hkind, _, _, hchildren, hkeyword, rfl⟩
      · cases hk
    · cases hk
  · cases hk

theorem KeywordName.leaf (h : g.KeywordName t) :
    t.kind = .identifier ∧ t.role = some .name ∧ t.children = [] := by
  obtain ⟨s, done, mid, todo, rfl, -⟩ := h
  exact ⟨rfl, rfl, rfl⟩

/-- Where the name of a keyword stands in its argument. -/
theorem keyword?_span (h : g.Twin t t') {k : Edit.Keyword} (hk : keyword? source t = some k) :
    k.span.Within t.span ∧ k.span.start < k.span.stop := by
  obtain ⟨-, name, value, hchildren, hkeyword, rfl⟩ := keyword?_eq_some h hk
  obtain ⟨_, _, hname, hwithin⟩ := h.child (u := name) (by simp [hchildren])
  exact ⟨hwithin, hname.identifier_lt hkeyword.leaf.1⟩

/-! ## Calls -/

theorem call?_eq_some {call : Edit.Call} (h : call? source scopes t = some call) :
    t.kind = .call ∧ callee? scopes t = some (call.place, call.command) ∧ call.span = t.span ∧
      call.keywords = keywords source t := by
  unfold call? at h
  split at h
  · rename_i hkind
    split at h
    · cases h
    · rename_i hcallee
      cases h
      exact ⟨hkind, hcallee, rfl, rfl⟩
  · cases h

/-- A keyword of a call is that of one of the arguments. -/
theorem mem_keywords {k : Edit.Keyword} (h : k ∈ keywords source t) :
    ∃ arguments ∈ t.children, arguments.kind = .argumentList ∧
      ∃ a ∈ arguments.children, keyword? source a = some k := by
  unfold keywords at h
  split at h
  · cases h
  · rename_i arguments harguments
    split at h
    · rename_i hkind
      exact ⟨arguments, (child?_eq_some harguments).1, hkind, List.mem_filterMap.1 h⟩
    · cases h

/-! ## Keywords do not overlap -/

/-- Whether some keywords are not empty, lie inside a span, and do not overlap. -/
structure Spread (s : Span) (ks : List Edit.Keyword) : Prop where
  within : ∀ k ∈ ks, k.span.Within s
  lt : ∀ k ∈ ks, k.span.start < k.span.stop
  apart : ks.Pairwise fun k l => k.span.Apart l.span

theorem Spread.nil (s : Span) : Spread s [] :=
  ⟨fun _ h => (nomatch h), fun _ h => (nomatch h), .nil⟩

theorem Spread.widen {s s' : Span} {ks : List Edit.Keyword} (h : Spread s ks)
    (hs : s.Within s') : Spread s' ks :=
  ⟨fun k hk => (h.within k hk).trans hs, h.lt, h.apart⟩

theorem Spread.append {s : Span} {ks ls : List Edit.Keyword} (hk : Spread s ks) (hl : Spread s ls)
    (h : ∀ k ∈ ks, ∀ l ∈ ls, k.span.Apart l.span) : Spread s (ks ++ ls) where
  within k hmem := (List.mem_append.1 hmem).elim (hk.within k) (hl.within k)
  lt k hmem := (List.mem_append.1 hmem).elim (hk.lt k) (hl.lt k)
  apart := List.pairwise_append.2 ⟨hk.apart, hl.apart, h⟩

/-- The keywords of one call are spread over it. -/
theorem Twin.keywords_spread (h : g.Twin t t') : Spread t.span (keywords source t) := by
  have keyword : ∀ k ∈ keywords source t, k.span.Within t.span ∧ k.span.start < k.span.stop := by
    intro k hk
    obtain ⟨arguments, harguments, -, a, ha, hka⟩ := mem_keywords hk
    obtain ⟨_, _, htwin, hwithin⟩ := h.child harguments
    obtain ⟨_, _, hatwin, hawithin⟩ := htwin.child ha
    have hspan := keyword?_span hatwin hka
    exact ⟨hspan.1.trans (hawithin.trans hwithin), hspan.2⟩
  refine ⟨fun k hk => (keyword k hk).1, fun k hk => (keyword k hk).2, ?_⟩
  unfold keywords
  split
  · exact .nil
  · rename_i arguments harguments
    split
    · obtain ⟨_, _, htwin, -⟩ := h.child (child?_eq_some harguments).1
      rw [List.pairwise_filterMap]
      refine htwin.row.pairwise.imp_of_mem fun {a b} ha hb hle k hk l hl => ?_
      obtain ⟨_, _, hatwin, -⟩ := htwin.child ha
      obtain ⟨_, _, hbtwin, -⟩ := htwin.child hb
      exact .within (.inl hle) (keyword?_span hatwin hk).1 (keyword?_span hbtwin hl).1
    · exact .nil

/-- The keywords of a call do not overlap those of the calls inside it. -/
theorem Twin.keywords_apart (h : g.Twin t t') {k l : Edit.Keyword} (hk : k ∈ keywords source t)
    (hu : u ∈ t.children) (hv : IsNode v u) (hcall : v.kind = .call)
    (hl : l ∈ keywords source v) : k.span.Apart l.span := by
  obtain ⟨arguments, harguments, hlist, a, ha, hka⟩ := mem_keywords hk
  obtain ⟨_, _, htwin, -⟩ := h.child harguments
  obtain ⟨_, _, hutwin, -⟩ := h.child hu
  have inside : ∀ {w w' : Tree}, g.Twin w w' → IsNode v w → l.span.Within w.span := by
    intro w w' hw hvw
    obtain ⟨_, _, hvtwin, hwithin⟩ := hw.node hvw
    exact (hvtwin.keywords_spread.within l hl).trans hwithin
  obtain ⟨_, _, hatwin, hawithin⟩ := htwin.child ha
  obtain ⟨hargument, name, value, hchildren, hkeyword, rfl⟩ := keyword?_eq_some hatwin hka
  have hname := (keyword?_span hatwin hka).1
  rcases (h.row.apart harguments hu).symm with hapart | rfl
  · exact hapart.within (hname.trans hawithin) (inside hutwin hv)
  cases hv with
  | self =>
      rw [hlist] at hcall
      cases hcall
  | @inside b _ hb hv =>
      obtain ⟨_, _, hbtwin, -⟩ := htwin.child hb
      rcases (htwin.row.apart ha hb).symm with hapart | rfl
      · exact hapart.within hname (inside hbtwin hv)
      cases hv with
      | self =>
          rw [hargument] at hcall
          cases hcall
      | @inside w _ hw hv =>
          have hrow := hatwin.row
          obtain ⟨_, _, hwtwin, -⟩ := hatwin.child hw
          rw [hchildren] at hrow hw
          have hone : w = name ∨ w = value := by simpa using hw
          rcases hone with rfl | rfl
          · rw [hv.eq_of_leaf hkeyword.leaf.2.2, hkeyword.leaf.1] at hcall
            cases hcall
          · have hle : name.span.stop ≤ w.span.start :=
              List.rel_of_pairwise_cons hrow.pairwise (by simp)
            exact .inl (Nat.le_trans hle (inside hwtwin hv).start)

mutual

/-- The keywords of all calls in a tree are spread over it. -/
theorem Twin.calls_spread : ∀ (depth : Nat) {t t' : Tree}, g.Twin t t' →
    Spread t.span ((callsAt source scopes depth t).flatMap (·.keywords))
  | depth, .node kind role s x children, t', h => by
      rw [callsAt]
      split
      · exact .nil _
      have hinside : Spread s ((callsIn source scopes (depth + 1) children).flatMap (·.keywords)) :=
        Row.calls_spread _ h.row
      cases hcall : call? source scopes (.node kind role s x children) with
      | none => exact hinside
      | some call =>
          obtain ⟨-, -, -, hkeywords⟩ := call?_eq_some hcall
          rw [Option.toList_some, List.flatMap_append, List.flatMap_singleton, hkeywords]
          refine h.keywords_spread.append hinside fun k hk l hl => ?_
          obtain ⟨inner, hinner, hl⟩ := List.mem_flatMap.1 hl
          obtain ⟨u, hu, v, hv, hvcall⟩ := mem_callsIn_iff.1 hinner
          obtain ⟨hvkind, -, -, hvkeywords⟩ := call?_eq_some hvcall
          rw [hvkeywords] at hl
          exact h.keywords_apart hk hu hv.isNode hvkind hl

theorem Row.calls_spread : ∀ (depth : Nat) {low high : Nat} {ts ts' : List Tree},
    g.Row low high ts ts' →
    Spread ⟨low, high⟩ ((callsIn source scopes depth ts).flatMap (·.keywords))
  | depth, low, high, [], ts', h => by
      rw [callsIn]
      exact .nil _
  | depth, low, high, t :: rest, ts', h => by
      rw [callsIn, List.flatMap_append]
      cases h with
      | cons hle htwin hrest =>
          have hfirst := Twin.calls_spread depth htwin
          have hothers := Row.calls_spread depth hrest
          refine (hfirst.widen ⟨hle, hrest.le⟩).append (hothers.widen ⟨?_, Nat.le_refl _⟩) ?_
          · exact Nat.le_trans hle htwin.spans.le
          · intro k hk l hl
            exact .within (.inl (Nat.le_refl _)) (hfirst.within k hk) (hothers.within l hl)

end

end Longhand.Draft
