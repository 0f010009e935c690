import Longhand.Proofs.Node

/-!
# The first fault of a tree

A node of a tree has an address, the numbers of the children that lead to it.  In document order, which
is the lexical order of addresses, a node comes before the nodes inside it, and these come before the
nodes behind it.

The search for faults finds the faulty node that is first in document order, down to the depth limit.
Where the nodes of a tree are nested and in order no other faulty node starts further left, and none
lies around the one that is found.  The tree of a text is such a tree.
-/

namespace Longhand.Syntax

variable {t u v c d : Tree} {p q : List Nat} {f g : Fault} {depth i j : Nat}

/-! ## Addresses -/

/-- The node at an address. -/
def Tree.nodeAt? : Tree → List Nat → Option Tree
  | t, [] => some t
  | t, i :: p => t.children[i]?.bind fun c => c.nodeAt? p

@[simp] theorem nodeAt?_nil (t : Tree) : t.nodeAt? [] = some t := rfl

theorem nodeAt?_cons : t.nodeAt? (i :: p) = some u ↔
    ∃ c, t.children[i]? = some c ∧ c.nodeAt? p = some u :=
  Option.bind_eq_some_iff

theorem isNode_of_nodeAt? (h : t.nodeAt? p = some u) : IsNode u t := by
  induction p generalizing t with
  | nil =>
      cases h
      exact .self
  | cons i p ih =>
      obtain ⟨c, hc, hu⟩ := nodeAt?_cons.1 h
      exact .inside (List.mem_of_getElem? hc) (ih hu)

/-- Whether an address comes before another one in document order. -/
def Precedes (p q : List Nat) : Prop :=
  List.Lex (· < ·) p q

theorem Precedes.asymm (h : Precedes p q) : ¬ Precedes q p :=
  List.lex_asymm (fun h => Nat.lt_asymm h) h

/-- A node comes before the nodes inside it. -/
theorem precedes_of_above (h : q <+: p) : q = p ∨ Precedes q p := by
  obtain ⟨r, rfl⟩ := h
  induction q with
  | nil =>
      cases r with
      | nil => exact .inl rfl
      | cons i r => exact .inr .nil
  | cons i q ih =>
      rcases ih with h | h
      · exact .inl (congrArg _ h)
      · exact .inr (.cons h)

theorem Ordered.stop_le (ht : Ordered t) (hc : t.children[i]? = some c)
    (hd : t.children[j]? = some d) (h : i < j) : c.span.stop ≤ d.span.start := by
  obtain ⟨hi, rfl⟩ := List.getElem?_eq_some_iff.1 hc
  obtain ⟨hj, rfl⟩ := List.getElem?_eq_some_iff.1 hd
  exact List.pairwise_iff_getElem.1 ht.pairwise i j hi hj h

/-- Where the nodes of a tree lie in order, a node that comes before another one does not start
behind it. -/
theorem Ordered.start_le (ht : Ordered t) (h : Precedes p q) (hu : t.nodeAt? p = some u)
    (hv : t.nodeAt? q = some v) : u.span.start ≤ v.span.start := by
  induction h generalizing t with
  | nil =>
      cases hu
      exact (ht.within (isNode_of_nodeAt? hv)).start
  | cons h ih =>
      obtain ⟨c, hc, hu⟩ := nodeAt?_cons.1 hu
      obtain ⟨d, hd, hv⟩ := nodeAt?_cons.1 hv
      rw [hc] at hd
      cases hd
      exact ih (ht.child (List.mem_of_getElem? hc)) hu hv
  | rel hlt =>
      obtain ⟨c, hc, hu⟩ := nodeAt?_cons.1 hu
      obtain ⟨d, hd, hv⟩ := nodeAt?_cons.1 hv
      have hordered := ht.child (List.mem_of_getElem? hc)
      have hunode := isNode_of_nodeAt? hu
      calc u.span.start
        _ ≤ u.span.stop := (hordered.node_of hunode).le
        _ ≤ c.span.stop := (hordered.within hunode).stop
        _ ≤ d.span.start := ht.stop_le hc hd hlt
        _ ≤ v.span.start :=
          ((ht.child (List.mem_of_getElem? hd)).within (isNode_of_nodeAt? hv)).start

/-! ## Faulty nodes -/

/-- Integers as an old version of the language writes them: with the mark of a long integer, or as
digits with a leading zero that are not all zeros. -/
inductive OldInteger : List Char → Prop
  | long {text : List Char} {mark : Char} : mark = 'l' ∨ mark = 'L' → OldInteger (text ++ [mark])
  | octal {text digits : List Char} : text.filter (· != '_') = '0' :: digits →
      (∀ x ∈ digits, x.isDigit = true) → (∃ x ∈ digits, x ≠ '0') → OldInteger text

theorem isOldInteger_iff {text : List Char} : isOldInteger text = true ↔ OldInteger text := by
  constructor
  · intro h
    unfold isOldInteger at h
    split at h
    · rename_i hlast
      obtain ⟨text, rfl⟩ := List.getLast?_eq_some_iff.1 hlast
      exact .long (.inl rfl)
    · rename_i hlast
      obtain ⟨text, rfl⟩ := List.getLast?_eq_some_iff.1 hlast
      exact .long (.inr rfl)
    · cases hfilter : text.filter (· != '_') with
      | nil => simp [hfilter] at h
      | cons x digits =>
          simp only [hfilter, Bool.and_eq_true, decide_eq_true_eq, List.head?_cons,
            Option.some.injEq, List.all_cons, List.all_eq_true, List.any_cons, Bool.or_eq_true,
            List.any_eq_true, bne_iff_ne] at h
          obtain ⟨⟨⟨-, rfl⟩, -, hdigits⟩, hother⟩ := h
          exact .octal hfilter hdigits (hother.resolve_left (· rfl))
  · rintro (⟨rfl | rfl⟩ | ⟨hfilter, hdigits, x, hx, hne⟩)
    · simp [isOldInteger]
    · simp [isOldInteger]
    · unfold isOldInteger
      split
      · rfl
      · rfl
      · have hsize := List.length_pos_of_mem hx
        simpa [hfilter] using ⟨⟨hsize, hdigits⟩, x, hx, hne⟩

/-- What is wrong with a node: it stands for an error or for something missing, or it is written as
only an old version of the language has it. -/
inductive Tree.Faulty (t : Tree) : Fault → Prop
  | missing : t.kind = .missing → Faulty t .missing
  | invalid : t.kind = .error → Faulty t .invalid
  | printStatement : t.kind = .printStatement → Faulty t .printStatement
  | execStatement : t.kind = .execStatement → Faulty t .execStatement
  | exceptComma {c : Tree} : t.kind = .exceptClause → c ∈ t.children → c.kind = .comma →
      Faulty t .exceptComma
  | backtick {text : List Char} : t.kind = .stringStart → t.text.toList = text ++ ['\x60'] →
      Faulty t .backtick
  | oldInteger : t.kind = .integer → OldInteger t.text.toList → Faulty t .oldInteger

theorem ownFault?_eq_some_iff : t.ownFault? = some f ↔ t.Faulty f := by
  constructor
  · intro h
    unfold Tree.ownFault? at h
    split at h
    · cases h
      exact .missing ‹_›
    · cases h
      exact .invalid ‹_›
    · cases h
      exact .printStatement ‹_›
    · cases h
      exact .execStatement ‹_›
    · obtain ⟨hcomma, hf⟩ := Option.ite_none_right_eq_some.1 h
      cases hf
      obtain ⟨c, hc, hkind⟩ := List.any_eq_true.1 hcomma
      exact .exceptComma ‹_› hc (of_decide_eq_true hkind)
    · obtain ⟨hlast, hf⟩ := Option.ite_none_right_eq_some.1 h
      cases hf
      obtain ⟨text, htext⟩ := List.getLast?_eq_some_iff.1 hlast
      exact .backtick ‹_› htext
    · obtain ⟨hinteger, hf⟩ := Option.ite_none_right_eq_some.1 h
      cases hf
      exact .oldInteger ‹_› (isOldInteger_iff.1 hinteger)
    · cases h
  · intro h
    unfold Tree.ownFault?
    cases h with
    | missing hkind => rw [hkind]
    | invalid hkind => rw [hkind]
    | printStatement hkind => rw [hkind]
    | execStatement hkind => rw [hkind]
    | exceptComma hkind hc hcomma =>
        rw [hkind]
        exact if_pos (List.any_eq_true.2 ⟨_, hc, decide_eq_true hcomma⟩)
    | backtick hkind htext =>
        rw [hkind]
        exact if_pos (by simp [htext])
    | oldInteger hkind hinteger =>
        rw [hkind]
        exact if_pos (isOldInteger_iff.2 hinteger)

theorem Tree.Faulty.unique (h : t.Faulty f) (h' : t.Faulty g) : f = g :=
  Option.some.inj ((ownFault?_eq_some_iff.2 h).symm.trans (ownFault?_eq_some_iff.2 h'))

/-! ## The search -/

/-- Whether an address leads to a faulty node that a search from some depth on comes to. -/
structure Tree.FaultAt (depth : Nat) (t : Tree) (p : List Nat) (f : Fault) (u : Tree) : Prop where
  leads : t.nodeAt? p = some u
  depth_le : depth + p.length ≤ depthLimit
  faulty : u.Faulty f

theorem faultAt_nil : t.FaultAt depth [] f u ↔ depth ≤ depthLimit ∧ u = t ∧ t.Faulty f := by
  constructor
  · rintro ⟨⟨⟩, hdepth, hfault⟩
    exact ⟨hdepth, rfl, hfault⟩
  · rintro ⟨hdepth, rfl, hfault⟩
    exact ⟨rfl, hdepth, hfault⟩

theorem faultAt_cons : t.FaultAt depth (i :: p) f u ↔
    ∃ c, t.children[i]? = some c ∧ c.FaultAt (depth + 1) p f u := by
  have hdepth : depth + (i :: p).length = depth + 1 + p.length := by
    rw [List.length_cons]
    omega
  constructor
  · rintro ⟨hleads, hle, hfault⟩
    obtain ⟨c, hc, hu⟩ := nodeAt?_cons.1 hleads
    exact ⟨c, hc, hu, hdepth ▸ hle, hfault⟩
  · rintro ⟨c, hc, hu, hle, hfault⟩
    exact ⟨nodeAt?_cons.2 ⟨c, hc, hu⟩, hdepth ▸ hle, hfault⟩

theorem firstFaultIn?_eq (depth : Nat) (ts : List Tree) :
    Tree.firstFaultIn? depth ts = ts.findSome? (Tree.firstFault? depth) := by
  induction ts with
  | nil => rfl
  | cons t ts ih =>
      rw [Tree.firstFaultIn?, List.findSome?_cons, ih]
      cases t.firstFault? depth <;> rfl

/-- The search from a node on: above the depth limit the node itself, then its children in order. -/
theorem firstFault?_eq (depth : Nat) (t : Tree) : t.firstFault? depth =
    if depthLimit < depth then none
    else
      match t.ownFault? with
      | some f => some (f, t)
      | none => t.children.findSome? (Tree.firstFault? (depth + 1)) := by
  obtain ⟨k, r, s, x, cs⟩ := t
  rw [Tree.firstFault?, firstFaultIn?_eq]
  rfl

/-- A search that finds nothing comes to no faulty node. -/
theorem not_faultAt_of_none (h : t.firstFault? depth = none) : ¬ t.FaultAt depth p f u := by
  induction p generalizing t depth with
  | nil =>
      intro hfault
      obtain ⟨hle, -, hown⟩ := faultAt_nil.1 hfault
      rw [firstFault?_eq, if_neg (Nat.not_lt.2 hle), ownFault?_eq_some_iff.2 hown] at h
      cases h
  | cons i p ih =>
      intro hfault
      obtain ⟨c, hc, hinside⟩ := faultAt_cons.1 hfault
      have hle : depth ≤ depthLimit := Nat.le_trans (Nat.le_add_right _ _) hfault.depth_le
      rw [firstFault?_eq, if_neg (Nat.not_lt.2 hle)] at h
      split at h
      · cases h
      · exact ih (List.findSome?_eq_none_iff.1 h c (List.mem_of_getElem? hc)) hinside

/-- The faulty node that is found comes before all others in document order. -/
theorem exists_of_firstFault? {depth : Nat} {t : Tree} (h : t.firstFault? depth = some (f, u)) :
    ∃ p, t.FaultAt depth p f u ∧
      ∀ q g v, t.FaultAt depth q g v → q = p ∨ Precedes p q := by
  rw [firstFault?_eq] at h
  split at h
  · cases h
  rename_i hdepth
  split at h
  · rename_i f' hown
    cases h
    refine ⟨[], faultAt_nil.2 ⟨Nat.not_lt.1 hdepth, rfl, ownFault?_eq_some_iff.1 hown⟩, ?_⟩
    intro q g v _
    exact (precedes_of_above List.nil_prefix).imp_left Eq.symm
  · rename_i hown
    obtain ⟨before, c, after, hchildren, hfound, hnone⟩ := List.findSome?_eq_some_iff.1 h
    have hc : t.children[before.length]? = some c := by
      simp [hchildren]
    have hsize := sizeOf_child (List.mem_of_getElem? hc)
    obtain ⟨p, hp, hfirst⟩ := exists_of_firstFault? hfound
    refine ⟨before.length :: p, faultAt_cons.2 ⟨c, hc, hp⟩, ?_⟩
    intro q g v hq
    cases q with
    | nil =>
        have hroot := ownFault?_eq_some_iff.2 (faultAt_nil.1 hq).2.2
        rw [hown] at hroot
        cases hroot
    | cons j q =>
        obtain ⟨d, hd, hinside⟩ := faultAt_cons.1 hq
        rcases Nat.lt_trichotomy j before.length with hlt | rfl | hlt
        · -- The search has been through the children further left.
          have hmem : d ∈ before := by
            rw [hchildren, List.getElem?_append_left hlt] at hd
            exact List.mem_of_getElem? hd
          exact absurd hinside (not_faultAt_of_none (hnone d hmem))
        · rw [hc] at hd
          cases hd
          exact (hfirst q g v hinside).imp (congrArg _) .cons
        · exact .inr (.rel hlt)
termination_by sizeOf t

theorem firstFault?_eq_none_iff :
    t.firstFault? depth = none ↔ ∀ p f u, ¬ t.FaultAt depth p f u := by
  constructor
  · exact fun h p f u => not_faultAt_of_none h
  · intro h
    cases hfound : t.firstFault? depth with
    | none => rfl
    | some r =>
        obtain ⟨p, hp, -⟩ := exists_of_firstFault? hfound
        exact absurd hp (h p r.1 r.2)

/-- Whether the faulty node at an address is the first one: none starts further left, none lies around
it, and those that start at the same place come behind it in document order. -/
structure Tree.FirstFaultAt (t : Tree) (p : List Nat) (f : Fault) (u : Tree) : Prop where
  fault : t.FaultAt 0 p f u
  start_le : ∀ q g v, t.FaultAt 0 q g v → u.span.start ≤ v.span.start
  outermost : ∀ q g v, t.FaultAt 0 q g v → q <+: p → q = p
  tie : ∀ q g v, t.FaultAt 0 q g v → v.span.start = u.span.start → q = p ∨ Precedes p q

theorem firstFaultAt_of_precedes (ht : Ordered t) (hp : t.FaultAt 0 p f u)
    (hfirst : ∀ q g v, t.FaultAt 0 q g v → q = p ∨ Precedes p q) : t.FirstFaultAt p f u where
  fault := hp
  start_le q g v hq := by
    rcases hfirst q g v hq with rfl | h
    · have heq : some u = some v := hp.leads.symm.trans hq.leads
      cases heq
      exact Nat.le_refl _
    · exact ht.start_le h hp.leads hq.leads
  outermost q g v hq habove := by
    rcases hfirst q g v hq with h | h
    · exact h
    · exact (precedes_of_above habove).resolve_right h.asymm
  tie q g v hq _ := hfirst q g v hq

/-- There is only one first faulty node. -/
theorem Tree.FirstFaultAt.unique (h : t.FirstFaultAt p f u) (h' : t.FirstFaultAt q g v) :
    f = g ∧ u = v := by
  have hstart : v.span.start = u.span.start :=
    Nat.le_antisymm (h'.start_le p f u h.fault) (h.start_le q g v h'.fault)
  have heq : q = p := by
    rcases h.tie q g v h'.fault hstart with heq | hlt
    · exact heq
    · exact ((h'.tie p f u h.fault hstart.symm).resolve_right hlt.asymm).symm
  subst heq
  have hnode : some u = some v := h.fault.leads.symm.trans h'.fault.leads
  cases hnode
  exact ⟨h.fault.faulty.unique h'.fault.faulty, rfl⟩

theorem firstFault?_eq_some_iff (ht : Ordered t) :
    t.firstFault? 0 = some (f, u) ↔ ∃ p, t.FirstFaultAt p f u := by
  have hfirst : ∀ {f u}, t.firstFault? 0 = some (f, u) → ∃ p, t.FirstFaultAt p f u := by
    intro f u h
    obtain ⟨p, hp, hfirst⟩ := exists_of_firstFault? h
    exact ⟨p, firstFaultAt_of_precedes ht hp hfirst⟩
  refine ⟨hfirst, ?_⟩
  rintro ⟨p, hp⟩
  cases hfound : t.firstFault? 0 with
  | none => exact absurd hp.fault (not_faultAt_of_none hfound)
  | some r =>
      obtain ⟨q, hq⟩ := hfirst hfound
      obtain ⟨rfl, rfl⟩ := hp.unique hq
      rfl

/-- A text is accepted if its tree has no faulty node down to the depth limit. -/
theorem parseChecked_eq_ok_iff {source : List Char} : parseChecked source = .ok t ↔
    parse source = t ∧ ∀ p f u, ¬ t.FaultAt 0 p f u := by
  rw [parseChecked]
  constructor
  · intro h
    split at h
    · cases h
    · rename_i hnone
      cases h
      exact ⟨rfl, firstFault?_eq_none_iff.1 hnone⟩
  · rintro ⟨rfl, hnone⟩
    rw [firstFault?_eq_none_iff.2 hnone]

/-- A text that is not accepted is rejected for the first faulty node of its tree. -/
theorem parseChecked_eq_error_iff {source : List Char} {e : ParseError} :
    parseChecked source = .error e ↔
      ∃ p f u, (parse source).FirstFaultAt p f u ∧ e = f.error source u := by
  have hfirst := fun f u => firstFault?_eq_some_iff (f := f) (u := u) (Draft.ordered_parse source)
  rw [parseChecked]
  constructor
  · intro h
    split at h
    · rename_i f u hfound
      cases h
      obtain ⟨p, hp⟩ := (hfirst f u).1 hfound
      exact ⟨p, f, u, hp, rfl⟩
    · cases h
  · rintro ⟨p, f, u, hp, rfl⟩
    rw [(hfirst f u).2 ⟨p, hp⟩]

/-- The search for faults finds nothing exactly if there is no faulty node down to the depth limit.
Otherwise, where the nodes of the tree are nested and in order, it finds the faulty node that starts
furthest left, the outermost one of those that start there and lie around each other. -/
theorem first_fault_leftmost (ht : Ordered t) :
    (t.firstFault? 0 = none ↔ ∀ p f u, ¬ t.FaultAt 0 p f u) ∧
      ∀ f u, t.firstFault? 0 = some (f, u) ↔ ∃ p, t.FirstFaultAt p f u :=
  ⟨firstFault?_eq_none_iff, fun _ _ => firstFault?_eq_some_iff ht⟩

/-- A tree with an old integer at the start of an error and another one in a statement of old. -/
def nestedFaults : Tree :=
  .node .module none ⟨0, 13⟩ ""
    [.node .identifier none ⟨0, 1⟩ "x" [],
      .node .error none ⟨2, 6⟩ "" [.node .integer none ⟨2, 5⟩ "10L" []],
      .node .printStatement none ⟨7, 13⟩ "" [.node .integer none ⟨9, 13⟩ "0777" []]]

/-- Of an error and an old integer at its start the error is found. -/
theorem first_fault_leftmost_nested : Ordered nestedFaults ∧
    ∃ p, nestedFaults.FirstFaultAt p .invalid
      (.node .error none ⟨2, 6⟩ "" [.node .integer none ⟨2, 5⟩ "10L" []]) := by
  have leaf : ∀ {k : Kind} {s : Text.Span} {x : String}, s.start ≤ s.stop →
      Ordered (.node k none s x []) :=
    fun h => .node h (by simp) .nil (by simp)
  have around : ∀ {k : Kind} {s : Text.Span} {c : Tree}, s.start ≤ s.stop → c.span.Within s →
      Ordered c → Ordered (.node k none s "" [c]) :=
    fun h hwithin hc => .node h (by simpa using hwithin) (by simp) (by simpa using hc)
  have hordered : Ordered nestedFaults := by
    refine .node (by decide) ?_ (by simp [Tree.span]) ?_
    · intro c hc
      simp only [List.mem_cons, List.not_mem_nil, or_false] at hc
      rcases hc with rfl | rfl | rfl <;> constructor <;> decide
    · intro c hc
      simp only [List.mem_cons, List.not_mem_nil, or_false] at hc
      rcases hc with rfl | rfl | rfl
      · exact leaf (by decide)
      · exact around (by decide) ⟨by decide, by decide⟩ (leaf (by decide))
      · exact around (by decide) ⟨by decide, by decide⟩ (leaf (by decide))
  exact ⟨hordered, ((first_fault_leftmost hordered).2 _ _).1 rfl⟩

end Longhand.Syntax
