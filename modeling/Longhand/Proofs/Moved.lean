import Longhand.Proofs.Nesting
import Longhand.Proofs.Relabel

/-!
# Calls of a relabelled tree

The scopes of a tree are asked for names at offsets, and the answers depend on the order of these
offsets only.  When all offsets are moved and keep their order, each name stands for the same thing
at the moved offset, and each call is found again.
-/

namespace Longhand

/-! ## Sorting -/

section Sorting

variable {α β : Type} {le : α → α → Bool} {le' : β → β → Bool}

theorem orderedInsert_map (f : α → β) (a : α) {l : List α}
    (h : ∀ b ∈ l, le' (f a) (f b) = le a b) :
    orderedInsert le' (f a) (l.map f) = (orderedInsert le a l).map f := by
  induction l with
  | nil => rfl
  | cons b rest ih =>
      rw [List.map_cons, orderedInsert, orderedInsert, h b List.mem_cons_self]
      split
      · rfl
      · rw [ih fun c hc => h c (List.mem_cons_of_mem _ hc), List.map_cons]

/-- Sorting commutes with a map that keeps the order. -/
theorem stableSort_map (f : α → β) {l : List α}
    (h : ∀ a ∈ l, ∀ b ∈ l, le' (f a) (f b) = le a b) :
    stableSort le' (l.map f) = (stableSort le l).map f := by
  induction l with
  | nil => rfl
  | cons a rest ih =>
      rw [List.map_cons, stableSort, stableSort, ih fun b hb c hc =>
        h b (List.mem_cons_of_mem _ hb) c (List.mem_cons_of_mem _ hc)]
      refine orderedInsert_map f a fun b hb => ?_
      exact h a List.mem_cons_self b (List.mem_cons_of_mem _ (mem_stableSort.1 hb))

end Sorting

/-! ## Maps that keep the order -/

/-- Whether a map of offsets keeps the order of those with a property. -/
def Keeps (P : Nat → Prop) (σ : Nat → Nat) : Prop :=
  ∀ a b, P a → P b → a < b → σ a < σ b

theorem Keeps.lt_iff {P : Nat → Prop} {σ : Nat → Nat} (h : Keeps P σ) {a b : Nat} (ha : P a)
    (hb : P b) : σ a < σ b ↔ a < b := by
  constructor
  · intro hlt
    rcases Nat.lt_trichotomy a b with hab | rfl | hba
    · exact hab
    · omega
    · have := h b a hb ha hba
      omega
  · exact h a b ha hb

theorem Keeps.le_iff {P : Nat → Prop} {σ : Nat → Nat} (h : Keeps P σ) {a b : Nat} (ha : P a)
    (hb : P b) : σ a ≤ σ b ↔ a ≤ b := by
  rw [← Nat.not_lt, ← Nat.not_lt, h.lt_iff hb ha]

/-- Whether both ends of a span have a property. -/
def Text.Span.On (P : Nat → Prop) (s : Text.Span) : Prop :=
  P s.start ∧ P s.stop

theorem Keeps.contains {P : Nat → Prop} {σ : Nat → Nat} (h : Keeps P σ) {s : Text.Span}
    (hs : s.On P) {offset : Nat} (hoffset : P offset) :
    (s.move σ).contains (σ offset) = s.contains offset := by
  rw [Bool.eq_iff_iff, Text.Span.contains_iff, Text.Span.contains_iff]
  exact and_congr (h.le_iff hs.1 hoffset) (h.lt_iff hoffset hs.2)

namespace Scope

open Syntax Text

/-! ## The offsets in what a walk finds -/

/-- Whether the offsets of a binding have a property. -/
structure Event.On (P : Nat → Prop) (e : Event) : Prop where
  offset : P e.offset
  arms : ∀ a ∈ e.arms, a.region.On P

/-- Whether all offsets in some findings have a property. -/
structure Findings.On (P : Nat → Prop) (f : Findings) : Prop where
  frames : ∀ frame ∈ f.frames, frame.region.On P
  events : ∀ e ∈ f.events, e.On P

section Offsets

variable {tracked : Tracked.Set} {P : Nat → Prop} {t : Tree} {p : Place} {n : Numbering}
  {v w : Visit} {e : Event} {frame : Frame}

/-- The bindings that a node makes by itself hold from the end of a node on. -/
theorem own_offset_node (h : e ∈ (course tracked p n t).own) :
    e.arms = p.arms ∧ ∃ u, IsNode u t ∧ e.offset = u.span.stop := by
  rcases (own_cases h).2 with ⟨-, h⟩ | ⟨-, h⟩
  · exact ⟨(importedEvents_at h).1.2, t, .self, (importedEvents_at h).2.1⟩
  refine ⟨(ownEvents_at h).2, ?_⟩
  -- A loop binds behind what it runs over, all other nodes at their own end or at that of a part.
  have child : ∀ {r : Role} {u : Tree}, t.child? r = some u → IsNode u t :=
    fun hu => .child (Draft.child?_eq_some hu).1
  unfold ownEvents at h
  split at h
  · split at h
    · exact ⟨t, .self, (mem_untracked h).2.1⟩
    · cases h
  · split at h
    · exact ⟨t, .self, (mem_untracked h).2.1⟩
    · cases h
  · split at h
    · rename_i left hleft
      have hoffset := (mem_untracked h).2.1
      cases hright : t.child? .right with
      | none =>
          rw [hright] at hoffset
          exact ⟨left, child hleft, hoffset⟩
      | some right =>
          rw [hright] at hoffset
          exact ⟨right, child hright, hoffset⟩
    · cases h
  · split at h
    · exact ⟨t, .self, (mem_untracked h).2.1⟩
    · cases h
  · split at h
    · rename_i other hother
      exact ⟨other, child hother, (mem_untracked h).2.1⟩
    · cases h
  · split at h
    · exact ⟨t, .self, (mem_untracked h).2.1⟩
    · cases h
  · split at h
    · rw [List.mem_singleton.1 h]
      exact ⟨t, .self, rfl⟩
    · cases h
  · split at h
    · rw [List.mem_singleton.1 h]
      exact ⟨t, .self, rfl⟩
    · cases h
  · cases h

variable (tracked p n t) in
/-- The scope that a node opens is the region of a node, and its bindings hold from the start of that
node on. -/
theorem opened_node : ((course tracked p n t).opened.frames = [] ∧
      (course tracked p n t).opened.events = []) ∨
    ∃ u, IsNode u t ∧ (∀ frame ∈ (course tracked p n t).opened.frames, frame.region = u.span) ∧
      ∀ e ∈ (course tracked p n t).opened.events, e.arms = p.arms ∧ e.offset = u.span.start := by
  rcases course_opens tracked p n t with hnone | ⟨-, hcourse⟩ | ⟨k, b, -, hb, hcourse⟩
  · exact .inl hnone
  · rw [hcourse]
    refine .inr ⟨t, .self, fun frame hframe => ?_, fun e he => ?_⟩
    · rw [List.mem_singleton.1 hframe]
    · exact ⟨(clauseEvents_at he).1.2, (clauseEvents_at he).2⟩
  · rw [hcourse]
    simp only [bodyCourse, hb]
    refine .inr ⟨b, .child (Draft.child?_eq_some hb).1, fun frame hframe => ?_, fun e he => ?_⟩
    · rw [List.mem_singleton.1 hframe]
    · exact ⟨(mem_untracked he).1.2, (mem_untracked he).2.1⟩

theorem mem_gather_frames {vs : List Visit} :
    frame ∈ (gather tracked vs).frames ↔ ∃ w ∈ vs, frame ∈ (w.found tracked).frames := by
  induction vs with
  | nil => simp [gather]
  | cons v rest ih => simp [gather, ih]

/-- All offsets in the findings of a walk are ends of nodes. -/
theorem found_on (v : Visit) : (∀ u, IsNode u v.tree → u.span.On P) →
    (∀ a ∈ v.place.arms, a.region.On P) → (v.found tracked).On P := by
  refine Visit.induction tracked (P := fun v => (∀ u, IsNode u v.tree → u.span.On P) →
    (∀ a ∈ v.place.arms, a.region.On P) → (v.found tracked).On P) (fun v ih hnodes harms => ?_) v
  -- A walk inside starts with the arms around it, and its own arm is a node as well.
  have next : ∀ w ∈ v.next tracked, (w.found tracked).On P := by
    intro w hw
    have hnode := next_isNode hw
    refine ih w hw (fun u hu => hnodes u (hu.trans hnode)) fun a ha => ?_
    rcases next_place hw with hplace | ⟨-, number, hplace⟩ | ⟨-, -, hplace⟩
    · rw [hplace] at ha
      exact harms a ha
    · rw [hplace, Place.arm_arms] at ha
      rcases List.mem_append.1 ha with ha | ha
      · exact harms a ha
      · rw [List.mem_singleton.1 ha]
        exact hnodes _ hnode
    · rw [hplace] at ha
      exact harms a ha
  constructor
  · intro frame hframe
    rw [found_frames] at hframe
    rcases List.mem_append.1 hframe with hframe | hframe
    · obtain ⟨w, hw, hframe⟩ := mem_gather_frames.1 hframe
      exact (next w (List.mem_append_left _ hw)).frames frame hframe
    rcases List.mem_append.1 hframe with hframe | hframe
    · rcases opened_node tracked v.tree v.place v.numbering with ⟨hnone, -⟩ | ⟨u, hu, hregion, -⟩
      · rw [hnone] at hframe
        cases hframe
      · rw [hregion frame hframe]
        exact hnodes u hu
    · obtain ⟨w, hw, hframe⟩ := mem_gather_frames.1 hframe
      exact (next w (List.mem_append_right _ hw)).frames frame hframe
  · intro e he
    rcases mem_walk_events.1 he with he | he | ⟨w, hw, he⟩
    · obtain ⟨hplace, u, hu, hoffset⟩ := own_offset_node he
      exact ⟨by rw [hoffset]; exact (hnodes u hu).2, by rw [hplace]; exact harms⟩
    · rcases opened_node tracked v.tree v.place v.numbering with ⟨-, hnone⟩ | ⟨u, hu, -, hevents⟩
      · rw [hnone] at he
        cases he
      · obtain ⟨hplace, hoffset⟩ := hevents e he
        exact ⟨by rw [hoffset]; exact (hnodes u hu).1, by rw [hplace]; exact harms⟩
    · exact (next w hw).events e he

end Offsets

/-! ## Moved scopes -/

/-- A scope with all its offsets moved. -/
def move (σ : Nat → Nat) (s : Scope) : Scope :=
  ⟨s.frame.move σ, s.events.map (Event.move σ)⟩

def Scopes.move (σ : Nat → Nat) (s : Scopes) : Scopes :=
  { s with scopes := s.scopes.map (Scope.move σ) }

/-- Whether all offsets in some scopes have a property. -/
def Scopes.On (P : Nat → Prop) (s : Scopes) : Prop :=
  ∀ scope ∈ s.scopes, scope.frame.region.On P ∧ ∀ e ∈ scope.events, e.On P

section Scopes

variable {tracked : Tracked.Set} {P : Nat → Prop} {ρ : Span → String} {σ : Nat → Nat} {t : Tree}
  {c : Context}

theorem framesOf_relabel (hzero : σ 0 = 0) :
    framesOf tracked (relabel ρ σ c t) = (framesOf tracked t).map (Frame.move σ) := by
  have hwalk := walk_relabel tracked ρ σ t c ⟨0, 0, []⟩ ⟨1, 0⟩
  have hroot : moduleFrame (relabel ρ σ c t) = (moduleFrame t).move σ := by
    simp [moduleFrame, Frame.move, Span.move, hzero]
  rw [framesOf, framesOf, List.map_cons, hroot]
  exact congrArg (fun f : Findings => (moduleFrame t).move σ :: f.frames) hwalk

theorem eventsOf_relabel :
    eventsOf tracked (relabel ρ σ c t) = (eventsOf tracked t).map (Event.move σ) :=
  congrArg Findings.events (walk_relabel tracked ρ σ t c ⟨0, 0, []⟩ ⟨1, 0⟩)

variable (tracked) in
theorem resolve_on (hzero : P 0) (hnodes : ∀ u, IsNode u t → u.span.On P) :
    (resolve tracked t).On P := by
  have hfound : ((wholeVisit t).found tracked).On P :=
    found_on _ hnodes fun a ha => by cases ha
  intro scope hscope
  rw [resolve_scopes] at hscope
  obtain ⟨⟨frame, id⟩, hmem, rfl⟩ := List.mem_map.1 hscope
  constructor
  · rcases List.mem_cons.1 (List.fst_mem_of_mem_zipIdx hmem) with rfl | hframe
    · exact ⟨hzero, (hnodes t .self).2⟩
    · exact hfound.frames frame hframe
  · intro e he
    exact hfound.events e (List.mem_filter.1 (mem_stableSort.1 he)).1

/-- The scopes of a relabelled tree are those of the tree at the moved offsets. -/
theorem resolve_relabel (hkeeps : Keeps P σ) (hzero : σ 0 = 0)
    (hnodes : ∀ u, IsNode u t → u.span.On P) :
    resolve tracked (relabel ρ σ c t) = (resolve tracked t).move σ := by
  have hfound : ((wholeVisit t).found tracked).On P :=
    found_on _ hnodes fun a ha => by cases ha
  have hscope : ∀ (frame : Frame) (id : Nat),
      scopeOf tracked (relabel ρ σ c t) (frame.move σ) id =
        (scopeOf tracked t frame id).move σ := by
    intro frame id
    rw [scopeOf, scopeOf, move, eventsOf_relabel, List.filter_map, stableSort_map]
    · rfl
    · intro e he f hf
      have he := (hfound.events e (List.mem_filter.1 he).1).offset
      have hf := (hfound.events f (List.mem_filter.1 hf).1).offset
      simp only [Event.move, hkeeps.le_iff he hf]
  have hscopes : (resolve tracked (relabel ρ σ c t)).scopes =
      (resolve tracked t).scopes.map (Scope.move σ) := by
    rw [resolve_scopes, resolve_scopes, framesOf_relabel hzero, List.zipIdx_map, List.map_map,
      List.map_map]
    exact List.map_congr_left fun p _ => hscope p.1 p.2
  show Scopes.mk tracked _ = Scopes.mk tracked _
  rw [← hscopes]
  rfl

end Scopes

/-! ## Names at moved offsets -/

section Lookup

variable {P : Nat → Prop} {σ : Nat → Nat} {s : Scopes} {offset : Nat} {name : String}

theorem divergingArm?_move : ∀ l m : List Arm,
    divergingArm? (l.map (Arm.move σ)) (m.map (Arm.move σ)) =
      (divergingArm? l m).map (Arm.move σ)
  | [], _ => rfl
  | _ :: _, [] => rfl
  | mine :: rest, other :: others => by
      rw [List.map_cons, List.map_cons, divergingArm?, divergingArm?]
      show (if mine.statement ≠ other.statement then none
        else if mine.number ≠ other.number then some (mine.move σ)
        else divergingArm? (rest.map (Arm.move σ)) (others.map (Arm.move σ))) = _
      split
      · rfl
      split
      · rfl
      · exact divergingArm?_move rest others

theorem surviving?_move (h : Keeps P σ) (hoffset : P offset) {latest : Event} (hlatest : latest.On P)
    (earlier : List Event) :
    surviving? (latest.move σ) (σ offset) (earlier.map (Event.move σ)) =
      surviving? latest offset earlier := by
  induction earlier with
  | nil => rfl
  | cons e rest ih =>
      have harms : divergingArm? (latest.move σ).arms (e.move σ).arms =
          (divergingArm? latest.arms e.arms).map (Arm.move σ) := divergingArm?_move ..
      have hbinding : (e.move σ).binding = e.binding := rfl
      rw [List.map_cons, surviving?, surviving?, harms, hbinding]
      cases hd : divergingArm? latest.arms e.arms with
      | none => rfl
      | some arm =>
          have hcontains : (arm.move σ).region.contains (σ offset) = arm.region.contains offset :=
            h.contains (hlatest.arms arm (divergingArm?_mem hd).1) hoffset
          dsimp only [Option.map_some]
          rw [hcontains, ih]

theorem visible?_move (h : Keeps P σ) (hoffset : P offset) {events : List Event}
    (hevents : ∀ e ∈ events, e.On P) :
    visible? (events.map (Event.move σ)) name (σ offset) = visible? events name offset := by
  have hfilter : (events.map (Event.move σ)).reverse.filter
        (fun e => e.name == name && e.offset ≤ σ offset) =
      (events.reverse.filter fun e => e.name == name && e.offset ≤ offset).map (Event.move σ) := by
    rw [← List.map_reverse, List.filter_map]
    refine congrArg (List.map (Event.move σ)) (List.filter_congr fun e he => ?_)
    have he := (hevents e (List.mem_reverse.1 he)).offset
    simp [Event.move, h.le_iff he hoffset]
  unfold visible?
  rw [hfilter]
  cases hlist : events.reverse.filter fun e => e.name == name && e.offset ≤ offset with
  | nil => rfl
  | cons latest earlier =>
      have hmem : latest ∈ events.reverse.filter fun e => e.name == name && e.offset ≤ offset := by
        rw [hlist]
        exact List.mem_cons_self
      have hlatest := hevents latest (List.mem_reverse.1 (List.mem_filter.1 hmem).1)
      rw [List.map_cons]
      dsimp only
      rw [surviving?_move h hoffset hlatest]
      rfl

/-- The innermost scope at a moved offset is the one at the offset. -/
theorem scopeAt_move (h : Keeps P σ) (hoffset : P offset) (hs : s.On P) :
    (s.move σ).scopeAt (σ offset) = s.scopeAt offset := by
  have hfind : ∀ l : List Scope, (∀ scope ∈ l, scope.frame.region.On P) →
      (l.map (Scope.move σ)).findIdx? (fun scope => scope.frame.region.contains (σ offset)) =
        l.findIdx? fun scope => scope.frame.region.contains offset := by
    intro l hl
    induction l with
    | nil => rfl
    | cons scope rest ih =>
        have hcontains : (scope.move σ).frame.region.contains (σ offset) =
            scope.frame.region.contains offset := h.contains (hl scope List.mem_cons_self) hoffset
        rw [List.map_cons, List.findIdx?_cons, List.findIdx?_cons, hcontains,
          ih fun scope hscope => hl scope (List.mem_cons_of_mem _ hscope)]
  unfold Scopes.scopeAt Scopes.move
  rw [List.length_map, ← List.map_reverse,
    hfind _ fun scope hscope => (hs scope (List.mem_reverse.1 hscope)).1]

theorem lookupFrom_move (h : Keeps P σ) (hoffset : P offset) (hs : s.On P) (steps : Nat)
    (innermost : Bool) (id : Nat) :
    (s.move σ).lookupFrom name (σ offset) steps innermost id =
      s.lookupFrom name offset steps innermost id := by
  induction steps generalizing innermost id with
  | zero => rfl
  | succ steps ih =>
      rw [Scopes.lookupFrom, Scopes.lookupFrom]
      have hget : (s.move σ).scopes[id]? = (s.scopes[id]?).map (Scope.move σ) :=
        List.getElem?_map
      rw [hget]
      cases hscope : s.scopes[id]? with
      | none => rfl
      | some scope =>
          have hevents := (hs scope (List.mem_of_getElem? hscope)).2
          dsimp only [Option.map_some]
          have hvisible : visible? (scope.move σ).events name (σ offset) =
              visible? scope.events name offset := visible?_move h hoffset hevents
          have hkind : (scope.move σ).frame.kind = scope.frame.kind := rfl
          have hparent : (scope.move σ).frame.parent = scope.frame.parent := rfl
          rw [hvisible, hkind, hparent]
          cases (if innermost || scope.frame.kind ≠ .classBody then
              visible? scope.events name offset else none) with
          | some b => rfl
          | none =>
              cases scope.frame.parent with
              | none => rfl
              | some parent => exact ih false parent

/-- A name stands for the same thing at a moved offset. -/
theorem lookup_move (h : Keeps P σ) (hoffset : P offset) (hs : s.On P) :
    (s.move σ).lookup name (σ offset) = s.lookup name offset := by
  have hlength : (s.move σ).scopes.length = s.scopes.length := List.length_map _
  rw [Scopes.lookup, Scopes.lookup, scopeAt_move h hoffset hs, hlength]
  exact lookupFrom_move h hoffset hs _ _ _

end Lookup

/-! ## Calls -/

section Calls

variable (source : List Char) (ρ : Span → String) (σ : Nat → Nat)

/-- A keyword with another name, at its moved place in another text. -/
def moveKeyword (k : Edit.Keyword) : Edit.Keyword :=
  ⟨ρ k.span, k.span.move σ, k.value.move σ, positionAt source (σ k.span.start)⟩

/-- A call with other keywords, at its moved place in another text. -/
def moveCall (call : Edit.Call) : Edit.Call :=
  { call with
    span := call.span.move σ
    keywords := call.keywords.map (moveKeyword source ρ σ) }

variable {source ρ σ} {source' : List Char} {P : Nat → Prop} {s : Scopes} {t : Tree} {c : Context}

theorem callee?_relabel (h : Keeps P σ) (hs : s.On P) (ht : P t.span.start)
    (hkind : t.kind = .call) : callee? (s.move σ) (relabel ρ σ c t) = callee? s t := by
  have hne : c.enter t.kind ≠ .argument := Context.enter_ne (by simp [hkind])
  unfold callee?
  rw [relabel_child?, relabel_start]
  cases t.child? .callee with
  | none => rfl
  | some callee =>
      dsimp only [Option.map_some]
      rw [relabel_kind, relabel_text hne, segments?_relabel callee hne]
      have hlookup : ∀ name, (s.move σ).lookup name (σ t.span.start) = s.lookup name t.span.start :=
        fun name => lookup_move h ht hs
      unfold Scopes.resolveBare Scopes.resolveDotted
      simp only [hlookup]
      rfl

theorem keyword?_relabel (t : Tree) :
    keyword? source' (relabel ρ σ .arguments t) =
      (keyword? source t).map (moveKeyword source' ρ σ) := by
  unfold keyword?
  rw [relabel_kind]
  split
  · rename_i hkind
    have henter : Context.enter .arguments t.kind = .argument := by
      rw [hkind]
      rfl
    rw [relabel_child?, relabel_child?, henter]
    cases hname : t.child? .name with
    | none => rfl
    | some name =>
        cases t.child? .value with
        | none => rfl
        | some value =>
            have hrole := (Draft.child?_eq_some hname).2
            dsimp only [Option.map_some]
            rw [relabel_kind]
            split
            · rename_i hidentifier
              rw [relabel_name hrole hidentifier, relabel_span, relabel_span]
              rfl
            · rfl
  · rfl

variable (source source') in
theorem keywords_relabel (t : Tree) :
    keywords source' (relabel ρ σ c t) = (keywords source t).map (moveKeyword source' ρ σ) := by
  unfold keywords
  rw [relabel_child?]
  cases t.child? .arguments with
  | none => rfl
  | some arguments =>
      dsimp only [Option.map_some]
      rw [relabel_kind]
      split
      · rename_i hlist
        have henter : (c.enter t.kind).enter arguments.kind = .arguments := by
          rw [hlist]
          rfl
        rw [relabel_children, henter, List.filterMap_map, List.map_filterMap]
        refine congrArg (fun f => List.filterMap f arguments.children) (funext fun u => ?_)
        exact keyword?_relabel u
      · rfl

theorem call?_relabel (h : Keeps P σ) (hs : s.On P) (ht : P t.span.start) :
    call? source' (s.move σ) (relabel ρ σ c t) =
      (call? source s t).map (moveCall source' ρ σ) := by
  unfold call?
  rw [relabel_kind]
  split
  · rename_i hkind
    rw [callee?_relabel h hs ht hkind, keywords_relabel source source' t, relabel_span]
    cases callee? s t with
    | none => rfl
    | some found => rfl
  · rfl

mutual

/-- Each call of a tree is found in the relabelled tree. -/
theorem callsAt_relabel (h : Keeps P σ) (hs : s.On P) : ∀ (c : Context) (depth : Nat) (t : Tree),
    (∀ u, IsNode u t → u.span.On P) →
    callsAt source' (s.move σ) depth (relabel ρ σ c t) =
      (callsAt source s depth t).map (moveCall source' ρ σ)
  | c, depth, .node kind role span text children, hnodes => by
      have hcall : call? source' (s.move σ) (relabel ρ σ c (.node kind role span text children)) =
          (call? source s (.node kind role span text children)).map (moveCall source' ρ σ) :=
        call?_relabel h hs (hnodes _ .self).1
      have hin := callsIn_relabel h hs (c.enter kind) (depth + 1) children fun u hu v hv =>
        hnodes v (.inside hu hv)
      rw [relabel] at hcall ⊢
      rw [callsAt, callsAt]
      split
      · rfl
      · rw [hcall, hin, List.map_append]
        cases call? source s (.node kind role span text children) <;> rfl

theorem callsIn_relabel (h : Keeps P σ) (hs : s.On P) :
    ∀ (c : Context) (depth : Nat) (ts : List Tree),
    (∀ t ∈ ts, ∀ u, IsNode u t → u.span.On P) →
    callsIn source' (s.move σ) depth (relabelIn ρ σ c ts) =
      (callsIn source s depth ts).map (moveCall source' ρ σ)
  | c, depth, [], _ => by rw [relabelIn, callsIn, callsIn, List.map_nil]
  | c, depth, t :: rest, hnodes => by
      rw [relabelIn, callsIn, callsIn,
        callsAt_relabel h hs c depth t (hnodes t List.mem_cons_self),
        callsIn_relabel h hs c depth rest fun u hu => hnodes u (List.mem_cons_of_mem _ hu),
        List.map_append]

end

end Calls

end Scope

end Longhand
