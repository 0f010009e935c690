import Longhand.Proofs.Visit

/-!
# Walks over a relabelled tree

A tree is relabelled when the names of its keyword arguments are replaced and all its offsets are
moved.  No other text of the tree changes, and the walk over its scopes reads no name of a keyword
argument, so it finds the same scopes and bindings at the moved offsets.
-/

namespace Longhand

/-- A span with its ends moved. -/
def Text.Span.move (σ : Nat → Nat) (s : Span) : Span :=
  ⟨σ s.start, σ s.stop⟩

namespace Scope

open Syntax Text

/-! ## Relabelled trees -/

/-- What a node is a direct part of, as far as names of keyword arguments go. -/
inductive Context where
  | elsewhere
  /-- A list of arguments. -/
  | arguments
  /-- A keyword argument in a list of arguments. -/
  | argument
  deriving DecidableEq

/-- What the children of a node are a part of. -/
def Context.enter (c : Context) (kind : Kind) : Context :=
  if kind = .argumentList then .arguments
  else if c = .arguments ∧ kind = .keywordArgument then .argument
  else .elsewhere

/-- Whether a node is the name of a keyword argument. -/
def isArgumentName (c : Context) (kind : Kind) (role : Option Role) : Bool :=
  c = .argument && role = some .name && kind = .identifier

theorem Context.enter_ne {c : Context} {kind : Kind} (h : kind ≠ .keywordArgument) :
    c.enter kind ≠ .argument := by
  unfold enter
  split
  · decide
  · rw [if_neg fun h' => h h'.2]
    decide

section Trees

variable (ρ : Span → String) (σ : Nat → Nat)

mutual

/-- A tree with other names of keyword arguments and moved offsets, given what it is a part of. -/
def relabel (c : Context) : Tree → Tree
  | .node kind role span text children =>
      .node kind role (span.move σ) (if isArgumentName c kind role then ρ span else text)
        (relabelIn (c.enter kind) children)

def relabelIn (c : Context) : List Tree → List Tree
  | [] => []
  | t :: rest => relabel c t :: relabelIn c rest

end

variable {ρ σ} {c : Context} {t : Tree}

theorem relabelIn_eq_map (ts : List Tree) : relabelIn ρ σ c ts = ts.map (relabel ρ σ c) := by
  induction ts with
  | nil => rw [relabelIn, List.map_nil]
  | cons t rest ih => rw [relabelIn, List.map_cons, ih]

@[simp] theorem relabel_kind : (relabel ρ σ c t).kind = t.kind := by
  cases t
  rw [relabel]
  rfl

@[simp] theorem relabel_role : (relabel ρ σ c t).role = t.role := by
  cases t
  rw [relabel]
  rfl

@[simp] theorem relabel_span : (relabel ρ σ c t).span = t.span.move σ := by
  cases t
  rw [relabel]
  rfl

theorem relabel_text (hc : c ≠ .argument) : (relabel ρ σ c t).text = t.text := by
  cases t
  rw [relabel, isArgumentName, decide_eq_false hc]
  rfl

theorem relabel_name (hrole : t.role = some .name) (hkind : t.kind = .identifier) :
    (relabel ρ σ .argument t).text = ρ t.span := by
  obtain ⟨kind, role, span, text, children⟩ := t
  cases hrole
  cases hkind
  rw [relabel]
  rfl

theorem relabel_children : (relabel ρ σ c t).children =
    t.children.map (relabel ρ σ (c.enter t.kind)) := by
  cases t
  rw [relabel, relabelIn_eq_map]
  rfl

theorem relabel_child? (r : Role) : (relabel ρ σ c t).child? r =
    (t.child? r).map (relabel ρ σ (c.enter t.kind)) := by
  rw [Tree.child?, Tree.child?, relabel_children, List.find?_map]
  simp only [Function.comp_def, relabel_role]

theorem relabel_childrenIn (r : Role) : (relabel ρ σ c t).childrenIn r =
    (t.childrenIn r).map (relabel ρ σ (c.enter t.kind)) := by
  rw [Tree.childrenIn, Tree.childrenIn, relabel_children, List.filter_map]
  simp [Function.comp_def]

/-! ## Names that a walk reads -/

mutual

theorem targetNames_relabel : ∀ {c : Context} (t : Tree), c ≠ .argument →
    targetNames (relabel ρ σ c t) = targetNames t
  | c, .node kind role span text children, hc => by
      have inside : kind ≠ .keywordArgument →
          targetNamesIn (relabelIn ρ σ (c.enter kind) children) = targetNamesIn children :=
        fun hkind => targetNamesIn_relabel children (Context.enter_ne hkind)
      rw [relabel, isArgumentName, decide_eq_false hc]
      unfold targetNames
      split
      · rfl
      all_goals first
        | exact inside (by decide)
        | rfl

theorem targetNamesIn_relabel : ∀ {c : Context} (ts : List Tree), c ≠ .argument →
    targetNamesIn (relabelIn ρ σ c ts) = targetNamesIn ts
  | c, [], _ => by rw [relabelIn]
  | c, t :: rest, hc => by
      rw [relabelIn, targetNamesIn, targetNamesIn, targetNames_relabel t hc,
        targetNamesIn_relabel rest hc]

end

theorem splatNames_relabel (hkind : t.kind ≠ .keywordArgument) :
    splatNames (relabel ρ σ c t) = splatNames t := by
  have htext : ∀ u : Tree, (relabel ρ σ (c.enter t.kind) u).text = u.text :=
    fun u => relabel_text (Context.enter_ne hkind)
  rw [splatNames, splatNames, relabel_children, List.filter_map, List.map_map]
  simp [Function.comp_def, htext]

theorem parameterNames_relabel (hc : c ≠ .argument) (t : Tree) :
    parameterNames (relabel ρ σ c t) = parameterNames t := by
  unfold parameterNames
  rw [relabel_kind, relabel_text hc, relabel_child?, relabel_children]
  split
  · rfl
  · rename_i hkind
    cases t.child? .name with
    | none => rfl
    | some name => exact targetNames_relabel name (Context.enter_ne (by simp [hkind]))
  · rename_i hkind
    cases t.child? .name with
    | none => rfl
    | some name => exact targetNames_relabel name (Context.enter_ne (by simp [hkind]))
  · -- The name beside a type, or the name behind a star.
    rename_i hkind
    rw [List.filter_map, List.flatMap_map]
    simp only [Function.comp_def, relabel_role]
    congr 1
    funext u
    rw [relabel_kind, relabel_text (Context.enter_ne (by simp [hkind]))]
    split
    · rfl
    · rename_i hsplat
      exact splatNames_relabel (by simp [hsplat])
    · rename_i hsplat
      exact splatNames_relabel (by simp [hsplat])
    · rfl
  · rename_i hkind
    exact splatNames_relabel (by simp [hkind])
  · rename_i hkind
    exact splatNames_relabel (by simp [hkind])
  · exact targetNames_relabel t hc
  · rfl

theorem segments?_relabel : ∀ {c : Context} (t : Tree), c ≠ .argument →
    segments? (relabel ρ σ c t) = segments? t
  | c, .node kind role span text children, hc => by
      rw [relabel, isArgumentName, decide_eq_false hc]
      have hne : kind ≠ .keywordArgument → c.enter kind ≠ .argument := Context.enter_ne
      unfold segments?
      split
      · rfl
      · have hne := hne (by decide)
        match children with
        | [] => simp [relabelIn]
        | [_] => simp [relabelIn]
        | [object, name] =>
            simp only [relabelIn]
            rw [segments?_relabel object hne, relabel_text hne]
        | _ :: _ :: _ :: _ => simp [relabelIn]
      · have htext : ∀ u : Tree, (relabel ρ σ (c.enter .dottedName) u).text = u.text :=
          fun u => relabel_text (hne (by decide))
        rw [relabelIn_eq_map, List.filter_map, List.map_map]
        simp [Function.comp_def, htext]
      · rfl

end Trees

/-! ## Moved findings -/

/-- An arm with its region moved. -/
def Arm.move (σ : Nat → Nat) (a : Arm) : Arm :=
  { a with region := a.region.move σ }

/-- A binding with its offset and its arms moved. -/
def Event.move (σ : Nat → Nat) (e : Event) : Event :=
  { e with
    offset := σ e.offset
    arms := e.arms.map (Arm.move σ) }

def Frame.move (σ : Nat → Nat) (f : Frame) : Frame :=
  { f with region := f.region.move σ }

def Place.move (σ : Nat → Nat) (p : Place) : Place :=
  { p with arms := p.arms.map (Arm.move σ) }

def Findings.move (σ : Nat → Nat) (f : Findings) : Findings :=
  { f with
    frames := f.frames.map (Frame.move σ)
    events := f.events.map (Event.move σ) }

section Move

variable {σ : Nat → Nat} {p : Place} {n : Numbering}

@[simp] theorem Findings.move_empty : Findings.move σ {} = {} := rfl

@[simp] theorem Findings.move_append (f g : Findings) :
    (f ++ g).move σ = f.move σ ++ g.move σ := by
  show Findings.move σ (Findings.append f g) = Findings.append (f.move σ) (g.move σ)
  simp [Findings.move, Findings.append]

@[simp] theorem Numbering.after_move (f : Findings) : n.after (f.move σ) = n.after f := by
  simp [Numbering.after, Findings.move]

@[simp] theorem Place.move_below : (p.move σ).below = p.below.move σ := rfl

@[simp] theorem Place.move_scope : (p.move σ).scope = p.scope := rfl

@[simp] theorem Place.move_depth : (p.move σ).depth = p.depth := rfl

theorem Place.move_arm (statement number : Nat) (t u : Tree) (h : u.span = t.span.move σ) :
    (p.move σ).arm statement number u = (p.arm statement number t).move σ := by
  simp [Place.arm, Place.move, Arm.move, h]

theorem Place.untracked_move (offset : Nat) (names : List String) :
    (p.move σ).untracked (σ offset) names = (p.untracked offset names).map (Event.move σ) := by
  rw [Place.untracked, Place.untracked, List.map_map]
  rfl

end Move

/-! ## The bindings of a node -/

section Events

variable {tracked : Tracked.Set} {ρ : Span → String} {σ : Nat → Nat} {p : Place} {c : Context}
  {t : Tree}

theorem relabel_start : (relabel ρ σ c t).span.start = σ t.span.start :=
  congrArg Span.start relabel_span

theorem relabel_stop : (relabel ρ σ c t).span.stop = σ t.span.stop :=
  congrArg Span.stop relabel_span

theorem importEvents_relabel (hc : c ≠ .argument) (offset : Nat) (t : Tree) :
    importEvents tracked (p.move σ) (σ offset) (relabel ρ σ c t) =
      (importEvents tracked p offset t).map (Event.move σ) := by
  unfold importEvents
  rw [relabel_kind, segments?_relabel t hc, relabel_child?, relabel_child?]
  split
  · split <;> rfl
  · rename_i hkind
    have hne : c.enter t.kind ≠ .argument := Context.enter_ne (by simp [hkind])
    cases t.child? .name with
    | none => rfl
    | some path =>
        cases t.child? .alias with
        | none => rfl
        | some other =>
            dsimp only [Option.map_some]
            rw [segments?_relabel path hne, relabel_text hne]
            cases segments? path <;> rfl
  · rfl

theorem importFromEvents_relabel (hc : c ≠ .argument) (offset : Nat) (origin : Option String)
    (t : Tree) : importFromEvents tracked (p.move σ) (σ offset) origin (relabel ρ σ c t) =
      (importFromEvents tracked p offset origin t).map (Event.move σ) := by
  unfold importFromEvents
  rw [relabel_kind, relabel_child?, relabel_child?]
  split
  · dsimp only
    rw [relabel_text hc]
    rfl
  · rename_i hkind
    have hne : c.enter t.kind ≠ .argument := Context.enter_ne (by simp [hkind])
    cases t.child? .name with
    | none => rfl
    | some imported =>
        cases t.child? .alias with
        | none => rfl
        | some other =>
            dsimp only [Option.map_some]
            rw [relabel_text hne, relabel_text hne]
            rfl
  · rfl

theorem originPath?_relabel (hkind : t.kind ≠ .keywordArgument) :
    originPath? (relabel ρ σ c t) = originPath? t := by
  unfold originPath?
  rw [relabel_child?]
  cases t.child? .moduleName with
  | none => rfl
  | some origin =>
      dsimp only [Option.map_some]
      rw [relabel_kind, segments?_relabel origin (Context.enter_ne hkind)]

theorem importedEvents_relabel (hkind : isImport t.kind = true) :
    importedEvents tracked (p.move σ) (relabel ρ σ c t) =
      (importedEvents tracked p t).map (Event.move σ) := by
  have hplain : t.kind ≠ .keywordArgument := by
    intro heq
    rw [heq] at hkind
    cases hkind
  have hne : c.enter t.kind ≠ .argument := Context.enter_ne hplain
  unfold importedEvents
  rw [relabel_kind, relabel_childrenIn, relabel_stop, originPath?_relabel hplain]
  split
  · rw [List.flatMap_map, List.map_flatMap]
    simp only [importEvents_relabel hne]
  · rw [List.flatMap_map, List.map_flatMap]
    simp only [importFromEvents_relabel hne]

/-- The names of a child are bound at the moved offset. -/
theorem target_relabel {t : Tree} {r : Role} (offset moved : Tree → Nat)
    (hkind : t.kind ≠ .keywordArgument)
    (hoffset : ∀ u, moved (relabel ρ σ (c.enter t.kind) u) = σ (offset u)) :
    (match (relabel ρ σ c t).child? r with
      | some u => (p.move σ).untracked (moved u) (targetNames u)
      | none => []) =
    (match t.child? r with
      | some u => p.untracked (offset u) (targetNames u)
      | none => []).map (Event.move σ) := by
  rw [relabel_child?]
  cases t.child? r with
  | none => rfl
  | some u =>
      dsimp only [Option.map_some]
      rw [hoffset, targetNames_relabel u (Context.enter_ne hkind), Place.untracked_move]

theorem whole_relabel {t : Tree} {r : Role} (hkind : t.kind ≠ .keywordArgument) :
    (match (relabel ρ σ c t).child? r with
      | some u => (p.move σ).untracked (relabel ρ σ c t).span.stop (targetNames u)
      | none => []) =
    (match t.child? r with
      | some u => p.untracked t.span.stop (targetNames u)
      | none => []).map (Event.move σ) := by
  rw [relabel_stop]
  exact target_relabel (fun _ => t.span.stop) (fun _ => σ t.span.stop) hkind fun _ => rfl

/-- The name of a definition is bound at the moved end of it. -/
theorem definition_relabel {t : Tree} (hkind : t.kind ≠ .keywordArgument) :
    (match (relabel ρ σ c t).child? .name with
      | some name => [(p.move σ).event name.text (relabel ρ σ c t).span.stop .untracked]
      | none => []) =
    (match t.child? .name with
      | some name => [p.event name.text t.span.stop .untracked]
      | none => []).map (Event.move σ) := by
  rw [relabel_child?]
  cases t.child? .name with
  | none => rfl
  | some name =>
      dsimp only [Option.map_some]
      rw [relabel_text (Context.enter_ne hkind), relabel_stop]
      rfl

theorem ownEvents_relabel (t : Tree) :
    ownEvents (p.move σ) (relabel ρ σ c t) = (ownEvents p t).map (Event.move σ) := by
  unfold ownEvents
  rw [relabel_kind]
  split
  · rename_i hkind
    exact whole_relabel (by simp [hkind])
  · rename_i hkind
    exact whole_relabel (by simp [hkind])
  · -- The targets of a loop hold from behind what it runs over on.
    rename_i hkind
    refine target_relabel (fun left => ((t.child? .right).getD left).span.stop)
      (fun left => (((relabel ρ σ c t).child? .right).getD left).span.stop)
      (by simp [hkind]) fun u => ?_
    rw [relabel_child?]
    cases t.child? .right with
    | none => exact relabel_stop
    | some right => exact relabel_stop
  · rename_i hkind
    exact whole_relabel (by simp [hkind])
  · rename_i hkind
    exact target_relabel (fun other => other.span.stop) (fun other => other.span.stop)
      (by simp [hkind]) fun _ => relabel_stop
  · rename_i hkind
    exact whole_relabel (by simp [hkind])
  · rename_i hkind
    exact definition_relabel (by simp [hkind])
  · rename_i hkind
    exact definition_relabel (by simp [hkind])
  · rfl

theorem clauseEvents_relabel (t : Tree) :
    clauseEvents (p.move σ) (relabel ρ σ c t) = (clauseEvents p t).map (Event.move σ) := by
  unfold clauseEvents
  rw [relabel_children, List.filter_map, List.flatMap_map, List.map_flatMap, relabel_start,
    List.flatMap_def, List.flatMap_def]
  simp only [Function.comp_def, relabel_kind]
  congr 1
  refine List.map_congr_left fun u hu => ?_
  have hclause : u.kind = .forInClause := by simpa using (List.mem_filter.1 hu).2
  rw [relabel_child?]
  cases u.child? .left with
  | none => rfl
  | some left =>
      dsimp only [Option.map_some]
      rw [targetNames_relabel left (Context.enter_ne (by simp [hclause])), Place.untracked_move]

theorem bodyNames_relabel {k : ScopeKind} (hkind : scopeOver? t.kind = some k) :
    bodyNames (relabel ρ σ c t) = bodyNames t := by
  unfold bodyNames
  rw [relabel_kind, relabel_child?]
  split
  · rfl
  have helsewhere : c.enter t.kind = .elsewhere := by
    unfold scopeOver? at hkind
    split at hkind
    · rename_i h
      simp [h, Context.enter]
    · rename_i h
      simp [h, Context.enter]
    · rename_i h
      simp [h, Context.enter]
    · cases hkind
  rw [helsewhere]
  cases hparameters : t.child? .parameters with
  | none => rfl
  | some ps =>
      -- Parameters are no arguments.
      have hne : Context.enter .elsewhere ps.kind ≠ .argument := by
        unfold Context.enter
        split <;> simp
      rw [Option.map_some, Option.map_some, Option.map_some, Option.getD_some, Option.getD_some,
        relabel_children, List.flatMap_map]
      simp only [parameterNames_relabel hne]

end Events

/-! ## Walks -/

section Walks

variable {tracked : Tracked.Set} {ρ : Span → String} {σ : Nat → Nat}

/-- Whether the walk over a relabelled tree finds what the walk over the tree does, at the moved
offsets. -/
def Moves (tracked : Tracked.Set) (ρ : Span → String) (σ : Nat → Nat) (t : Tree) : Prop :=
  ∀ c p n, walk tracked (p.move σ) n (relabel ρ σ c t) = (walk tracked p n t).move σ

theorem walkAll_relabel (selection : Selection) (c : Context) (p : Place) {ts : List Tree}
    (h : ∀ t ∈ ts, Moves tracked ρ σ t) (n : Numbering) :
    walkAll tracked selection (p.move σ) n (ts.map (relabel ρ σ c)) =
      (walkAll tracked selection p n ts).move σ := by
  have hholds : ∀ t, selection.holds (relabel ρ σ c t) = selection.holds t := by
    intro t
    unfold Selection.holds
    cases selection with
    | all => rfl
    | allButBody => simp
  induction ts generalizing n with
  | nil => rw [List.map_nil, walkAll, walkAll, Findings.move_empty]
  | cons t rest ih =>
      have hrest := ih fun u hu => h u (List.mem_cons_of_mem _ hu)
      rw [List.map_cons, walkAll, walkAll, hholds]
      split
      · dsimp only
        rw [h t List.mem_cons_self, Numbering.after_move, hrest, Findings.move_append]
      · exact hrest n

theorem walkBody_relabel (c : Context) (p : Place) (n : Numbering) {ts : List Tree}
    (h : ∀ t ∈ ts, Moves tracked ρ σ t) :
    walkBody tracked (p.move σ) n (ts.map (relabel ρ σ c)) = (walkBody tracked p n ts).move σ := by
  induction ts with
  | nil => rw [List.map_nil, walkBody, walkBody, Findings.move_empty]
  | cons t rest ih =>
      rw [List.map_cons, walkBody, walkBody, relabel_role]
      split
      · exact h t List.mem_cons_self c p n
      · exact ih fun u hu => h u (List.mem_cons_of_mem _ hu)

theorem walkCases_cons (p : Place) (n : Numbering) (statement next : Nat) (t : Tree)
    (rest : List Tree) : walkCases tracked statement p n next (t :: rest) =
      (let first :=
        walk tracked (if t.kind = .caseClause then p.arm statement next t else p) n t
      first ++ walkCases tracked statement p (n.after first)
        (if t.kind = .caseClause then next + 1 else next) rest) := by
  rw [walkCases_eq, visitsCases, gather, ← walkCases_eq]
  rfl

theorem walkArms_cons (kind : Kind) (p : Place) (n : Numbering) (statement next : Nat) (t : Tree)
    (rest : List Tree) : walkArms tracked kind statement p n next (t :: rest) =
      (let first :=
        if kind = .matchStatement && t.role = some .body then
          walkCases tracked statement p n 1 t.children
        else
          match armOf? kind next t with
          | some number => walk tracked (p.arm statement number t) n t
          | none => walk tracked p n t
      first ++ walkArms tracked kind statement p (n.after first)
        (if (armOf? kind next t).any (· = next) then next + 1 else next) rest) := by
  apply Eq.trans
  · rw [walkArms_eq, visitsArms, gather_append, gather_visitsPart, ← walkArms_eq]
  · rfl

theorem walkCases_relabel (c : Context) (p : Place) (statement : Nat) {ts : List Tree}
    (h : ∀ t ∈ ts, Moves tracked ρ σ t) (n : Numbering) (next : Nat) :
    walkCases tracked statement (p.move σ) n next (ts.map (relabel ρ σ c)) =
      (walkCases tracked statement p n next ts).move σ := by
  induction ts generalizing n next with
  | nil => rw [List.map_nil, walkCases, walkCases, Findings.move_empty]
  | cons t rest ih =>
      have hplace : (if t.kind = .caseClause then
            (p.move σ).arm statement next (relabel ρ σ c t) else p.move σ) =
          (if t.kind = .caseClause then p.arm statement next t else p).move σ := by
        split
        · exact Place.move_arm statement next t _ relabel_span
        · rfl
      rw [List.map_cons, walkCases_cons, walkCases_cons, relabel_kind, hplace]
      dsimp only
      rw [h t List.mem_cons_self, Numbering.after_move, ih fun u hu => h u (List.mem_cons_of_mem _ hu),
        Findings.move_append]

theorem armOf?_relabel (kind : Kind) (next : Nat) (c : Context) (t : Tree) :
    armOf? kind next (relabel ρ σ c t) = armOf? kind next t := by
  unfold armOf?
  rw [relabel_kind, relabel_role]

/-- The cases of a match statement are the children of its block. -/
theorem walkArms_relabel (kind : Kind) (c : Context) (p : Place) (statement : Nat) {ts : List Tree}
    (h : ∀ t ∈ ts, Moves tracked ρ σ t ∧ ∀ u ∈ t.children, Moves tracked ρ σ u) (n : Numbering)
    (next : Nat) : walkArms tracked kind statement (p.move σ) n next (ts.map (relabel ρ σ c)) =
      (walkArms tracked kind statement p n next ts).move σ := by
  induction ts generalizing n next with
  | nil => rw [List.map_nil, walkArms, walkArms, Findings.move_empty]
  | cons t rest ih =>
      obtain ⟨ht, hchildren⟩ := h t List.mem_cons_self
      have hfirst : (if kind = .matchStatement && t.role = some .body then
            walkCases tracked statement (p.move σ) n 1 (relabel ρ σ c t).children
          else
            match armOf? kind next t with
            | some number =>
                walk tracked ((p.move σ).arm statement number (relabel ρ σ c t)) n (relabel ρ σ c t)
            | none => walk tracked (p.move σ) n (relabel ρ σ c t)) =
          (if kind = .matchStatement && t.role = some .body then
            walkCases tracked statement p n 1 t.children
          else
            match armOf? kind next t with
            | some number => walk tracked (p.arm statement number t) n t
            | none => walk tracked p n t).move σ := by
        split
        · rw [relabel_children]
          exact walkCases_relabel _ p statement hchildren n 1
        · cases armOf? kind next t with
          | none => exact ht c p n
          | some number =>
              dsimp only
              rw [Place.move_arm statement number t _ relabel_span]
              exact ht c _ n
      rw [List.map_cons, walkArms_cons, walkArms_cons, relabel_role, armOf?_relabel, hfirst]
      dsimp only
      rw [Numbering.after_move, ih fun u hu => h u (List.mem_cons_of_mem _ hu),
        Findings.move_append]

/-- The bindings of a node by itself and the walk over its children outside the scope that it
opens. -/
theorem outer_relabel (selection : Selection) (c : Context) (p : Place) (n : Numbering) {t : Tree}
    (h : ∀ u ∈ t.children, Moves tracked ρ σ u) :
    ({ events := ownEvents (p.move σ) (relabel ρ σ c t) } : Findings) ++
        walkAll tracked selection (p.move σ).below n (relabel ρ σ c t).children =
      (({ events := ownEvents p t } : Findings) ++
        walkAll tracked selection p.below n t.children).move σ := by
  rw [ownEvents_relabel, relabel_children, Place.move_below, walkAll_relabel selection _ _ h,
    Findings.move_append]
  rfl

section Courses

variable {t : Tree} (c : Context) (p : Place) (n : Numbering)
  (children : ∀ u ∈ t.children, Moves tracked ρ σ u)

include children in
/-- The children of a comprehension are walked over in its scope. -/
theorem comprehensionCourse_relabel :
    (comprehensionCourse tracked (p.move σ) n (relabel ρ σ c t)).found tracked =
      ((comprehensionCourse tracked p n t).found tracked).move σ := by
  have hframe : ({ frames := [⟨.comprehension, some p.scope, t.span.move σ⟩]
                   events := clauseEvents (({ p with scope := n.scope } : Place).move σ)
                     (relabel ρ σ c t) } : Findings) =
      Findings.move σ { frames := [⟨.comprehension, some p.scope, t.span⟩]
                        events := clauseEvents { p with scope := n.scope } t } := by
    rw [clauseEvents_relabel]
    rfl
  rw [found_comprehensionCourse, found_comprehensionCourse, relabel_span, relabel_children]
  dsimp only
  rw [Findings.move_append, ← walkAll_relabel .all _ _ children, ← hframe]
  rfl

include children in
/-- The parts of a branching statement are walked over in arms of their own. -/
theorem branchCourse_relabel
    (grandchildren : ∀ u ∈ t.children, ∀ v ∈ u.children, Moves tracked ρ σ v) :
    (branchCourse tracked (p.move σ) n (relabel ρ σ c t)).found tracked =
      ((branchCourse tracked p n t).found tracked).move σ := by
  rw [found_branchCourse, found_branchCourse, relabel_kind, relabel_children]
  dsimp only
  rw [Findings.move_append, ← walkArms_relabel t.kind _ _ _ fun u hu =>
    ⟨children u hu, grandchildren u hu⟩]
  rfl

include children in
/-- The body of a function or a class is walked over in the scope that the node opens. -/
theorem bodyCourse_relabel {k : ScopeKind} (hk : scopeOver? t.kind = some k) :
    (bodyCourse tracked (p.move σ) n (relabel ρ σ c t) k).found tracked =
      ((bodyCourse tracked p n t k).found tracked).move σ := by
  -- The walk over the body goes on behind the scope that is opened for it.
  have opened : ∀ {outer frame frame' : Findings} (inner : Place) {m : Numbering},
      frame' = frame.move σ →
      outer.move σ ++ frame' ++ walkBody tracked (inner.move σ).below (m.after frame')
          (relabel ρ σ c t).children =
        (outer ++ frame ++ walkBody tracked inner.below (m.after frame) t.children).move σ := by
    rintro outer frame _ inner m rfl
    rw [Findings.move_append, Findings.move_append, relabel_children, Place.move_below,
      walkBody_relabel _ _ _ children, Numbering.after_move]
  rw [found_bodyCourse, found_bodyCourse]
  dsimp only
  rw [outer_relabel .allButBody c p n children, relabel_child?]
  cases t.child? .body with
  | none => rfl
  | some body =>
      dsimp only [Option.map_some]
      rw [bodyNames_relabel hk, relabel_start, Numbering.after_move, relabel_span]
      generalize ({ events := ownEvents p t } : Findings) ++
        walkAll tracked .allButBody p.below n t.children = outer
      refine opened { p with scope := (n.after outer).scope } ?_
      rw [Findings.move, ← Place.untracked_move]
      rfl

end Courses

/-- The walk over a relabelled tree finds what the walk over the tree does, at the moved offsets. -/
theorem walk_relabel (tracked : Tracked.Set) (ρ : Span → String) (σ : Nat → Nat) (t : Tree) :
    Moves tracked ρ σ t := by
  have children : ∀ u ∈ t.children, Moves tracked ρ σ u := by
    intro u hu
    have _ := sizeOf_child hu
    exact walk_relabel tracked ρ σ u
  have grandchildren : ∀ u ∈ t.children, ∀ v ∈ u.children, Moves tracked ρ σ v := by
    intro u hu v hv
    have _ := sizeOf_child hu
    have _ := sizeOf_child hv
    exact walk_relabel tracked ρ σ v
  intro c p n
  -- The course of the relabelled node has the same branch, with relabelled parts.
  rw [walk_eq_found, walk_eq_found]
  unfold course
  rw [relabel_kind, Place.move_depth]
  split
  · simp [Course.found, gather]
  split
  · rename_i hkind
    simp [Course.found, gather, importedEvents_relabel hkind, Findings.move]
  split
  · exact comprehensionCourse_relabel c p n children
  split
  · exact branchCourse_relabel c p n children grandchildren
  split
  · exact bodyCourse_relabel c p n children ‹_›
  · have houter := outer_relabel .all c p n children
    simp only [Course.found, gather, Findings.append_empty]
    rw [← walkAll_eq, ← walkAll_eq]
    exact houter
termination_by sizeOf t

end Walks

end Scope

end Longhand
