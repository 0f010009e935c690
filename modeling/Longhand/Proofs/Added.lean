import Longhand.Proofs.Moved
import Longhand.Proofs.Route

/-!
# Another tracked module

A further module changes what some import statements bind, and nothing else: the scopes, the bound
names, the offsets and the arms are the same.  What a name stands for without the module can be read
off from what it stands for with it.  So a call keeps what it stands for, unless a binding that is
untracked without the module decides with it.
-/

namespace Longhand

namespace Scope

open Syntax Tracked

variable {s s' : Tracked.Set} {f : Binding → Binding} {p : Place} {n : Numbering} {t u w : Tree}
  {es : List Event} {name : String} {offset : Nat}

/-! ## Other bindings -/

/-- An event with another binding. -/
def Event.rebind (f : Binding → Binding) (e : Event) : Event :=
  { e with binding := f e.binding }

/-- Findings with other bindings. -/
def Findings.rebind (f : Binding → Binding) (g : Findings) : Findings :=
  { g with events := g.events.map (Event.rebind f) }

theorem Findings.rebind_append (g h : Findings) : (g ++ h).rebind f = g.rebind f ++ h.rebind f := by
  show Findings.mk _ _ _ = Findings.mk _ _ _
  simp [rebind]

/-- Untracked bindings stay what they are. -/
theorem rebind_of_untracked (hf : f .untracked = .untracked) (h : Untracked p es) :
    es.map (Event.rebind f) = es := by
  have heach : ∀ e ∈ es, Event.rebind f e = e := by
    intro e he
    have hbinding := (h e he).2
    obtain ⟨scope, name, offset, binding, arms⟩ := e
    cases hbinding
    rw [Event.rebind, hf]
  rw [List.map_congr_left heach, List.map_id'']
  exact fun _ => rfl

/-- Whether the bindings of one set of tracked modules can be read off from those of another. -/
structure Rereads (s s' : Tracked.Set) (f : Binding → Binding) : Prop where
  untracked : f .untracked = .untracked
  imported : ∀ p t, importedEvents s p t = (importedEvents s' p t).map (Event.rebind f)

/-- Whether a walk finds with one set of tracked modules what it finds with another, with other
bindings. -/
def Rereads.At (s s' : Tracked.Set) (f : Binding → Binding) (v : Visit) : Prop :=
  v.found s = (v.found s').rebind f

theorem after_of_rereads {v : Visit} (h : Rereads.At s s' f v) (n : Numbering) :
    n.after (v.found s) = n.after (v.found s') := by
  rw [h]
  rfl

theorem gather_rebind {vs : List Visit} (h : ∀ v ∈ vs, Rereads.At s s' f v) :
    gather s vs = (gather s' vs).rebind f := by
  induction vs with
  | nil => rfl
  | cons v rest ih =>
      rw [gather, gather, Findings.rebind_append, h v List.mem_cons_self,
        ih fun w hw => h w (List.mem_cons_of_mem _ hw)]

theorem visitsAll_rebind {selection : Selection} {ts : List Tree}
    (h : ∀ v ∈ visitsAll s' selection p n ts, Rereads.At s s' f v) :
    visitsAll s selection p n ts = visitsAll s' selection p n ts := by
  induction ts generalizing n with
  | nil => rfl
  | cons t rest ih =>
      rw [visitsAll] at h
      rw [visitsAll, visitsAll]
      split
      · rename_i hholds
        rw [if_pos hholds] at h
        have hafter : n.after (walk s p n t) = n.after (walk s' p n t) :=
          after_of_rereads (h ⟨p, n, t⟩ List.mem_cons_self) n
        rw [hafter, ih fun v hv => h v (List.mem_cons_of_mem _ hv)]
      · rename_i hholds
        rw [if_neg hholds] at h
        exact ih h

theorem visitsCases_rebind {statement next : Nat} {ts : List Tree}
    (h : ∀ v ∈ visitsCases s' statement p n next ts, Rereads.At s s' f v) :
    visitsCases s statement p n next ts = visitsCases s' statement p n next ts := by
  induction ts generalizing n next with
  | nil => rfl
  | cons t rest ih =>
      rw [visitsCases] at h
      rw [visitsCases, visitsCases]
      rw [after_of_rereads (h _ List.mem_cons_self),
        ih fun v hv => h v (List.mem_cons_of_mem _ hv)]

theorem visitsPart_rebind {kind : Kind} {statement next : Nat}
    (h : ∀ v ∈ visitsPart s' kind statement p n next t, Rereads.At s s' f v) :
    visitsPart s kind statement p n next t = visitsPart s' kind statement p n next t := by
  unfold visitsPart at h ⊢
  split
  · rename_i hmatch
    rw [if_pos hmatch] at h
    exact visitsCases_rebind h
  · rfl

theorem visitsArms_rebind {kind : Kind} {statement next : Nat} {ts : List Tree}
    (h : ∀ v ∈ visitsArms s' kind statement p n next ts, Rereads.At s s' f v) :
    visitsArms s kind statement p n next ts = visitsArms s' kind statement p n next ts := by
  induction ts generalizing n next with
  | nil => rfl
  | cons t rest ih =>
      rw [visitsArms] at h
      rw [visitsArms, visitsArms]
      have hpart := visitsPart_rebind fun v hv => h v (List.mem_append_left _ hv)
      have hafter : n.after (gather s (visitsPart s' kind statement p n next t)) =
          n.after (gather s' (visitsPart s' kind statement p n next t)) := by
        rw [gather_rebind fun v hv => h v (List.mem_append_left _ hv)]
        rfl
      rw [hpart, hafter, ih fun v hv => h v (List.mem_append_right _ hv)]

theorem found_rebind (c : Course) {own : List Event} (hown : own = c.own.map (Event.rebind f))
    (hopened : c.opened.rebind f = c.opened) (h : ∀ v ∈ c.next, Rereads.At s s' f v) :
    ({ c with own } : Course).found s = (c.found s').rebind f := by
  unfold Course.found
  rw [Findings.rebind_append, Findings.rebind_append, Findings.rebind_append, hown, hopened,
    gather_rebind fun v hv => h v (List.mem_append_left _ hv),
    gather_rebind fun v hv => h v (List.mem_append_right _ hv)]
  rfl

theorem ownEvents_rebind (hf : Rereads s s' f) :
    ownEvents p t = (ownEvents p t).map (Event.rebind f) :=
  (rebind_of_untracked hf.untracked (ownEvents_untracked p t)).symm

theorem rebind_opened {g : Findings} (hf : Rereads s s' f) (h : Untracked p g.events) :
    g.rebind f = g := by
  rw [Findings.rebind, rebind_of_untracked hf.untracked h]

theorem comprehension_rebind (hf : Rereads s s' f)
    (h : ∀ v ∈ (comprehensionCourse s' p n t).next, Rereads.At s s' f v) :
    (comprehensionCourse s p n t).found s =
      ((comprehensionCourse s' p n t).found s').rebind f := by
  have hcourse : comprehensionCourse s p n t = comprehensionCourse s' p n t := by
    unfold comprehensionCourse
    dsimp only
    rw [visitsAll_rebind fun v hv => h v (List.mem_append_right _ hv)]
  rw [hcourse]
  exact found_rebind (comprehensionCourse s' p n t) rfl
    (rebind_opened hf (clauseEvents_untracked _ t)) h

theorem branch_rebind (h : ∀ v ∈ (branchCourse s' p n t).next, Rereads.At s s' f v) :
    (branchCourse s p n t).found s = ((branchCourse s' p n t).found s').rebind f := by
  have hcourse : branchCourse s p n t = branchCourse s' p n t := by
    unfold branchCourse
    dsimp only
    rw [visitsArms_rebind fun v hv => h v (List.mem_append_right _ hv)]
  rw [hcourse]
  exact found_rebind (branchCourse s' p n t) rfl rfl h

theorem body_rebind (hf : Rereads s s' f) (k : ScopeKind)
    (h : ∀ v ∈ (bodyCourse s' p n t k).next, Rereads.At s s' f v) :
    (bodyCourse s p n t k).found s = ((bodyCourse s' p n t k).found s').rebind f := by
  have houter : ∀ v ∈ visitsAll s' .allButBody p.below n t.children, Rereads.At s s' f v := by
    intro v hv
    apply h
    unfold bodyCourse
    cases t.child? .body with
    | none => exact List.mem_append_left _ hv
    | some body => exact List.mem_append_left _ hv
  have hcourse : bodyCourse s p n t k = bodyCourse s' p n t k := by
    unfold bodyCourse
    dsimp only
    rw [visitsAll_rebind houter, gather_rebind houter]
    rfl
  have hopened : (bodyCourse s' p n t k).opened.rebind f = (bodyCourse s' p n t k).opened := by
    unfold bodyCourse
    cases t.child? .body with
    | none => rfl
    | some body => exact rebind_opened hf (untracked_names _ _ _)
  have hown : (bodyCourse s' p n t k).own = ownEvents p t := by
    unfold bodyCourse
    cases t.child? .body <;> rfl
  have hown' : (bodyCourse s' p n t k).own = (bodyCourse s' p n t k).own.map (Event.rebind f) := by
    rw [hown]
    exact ownEvents_rebind hf
  rw [hcourse]
  exact found_rebind (bodyCourse s' p n t k) hown' hopened h

/-- A node is walked over in the same steps with both sets of tracked modules. -/
theorem course_rebind (hf : Rereads s s' f)
    (h : ∀ v ∈ (course s' p n t).next, Rereads.At s s' f v) :
    (course s p n t).found s = ((course s' p n t).found s').rebind f := by
  unfold course at h ⊢
  by_cases hdepth : depthLimit < p.depth
  · simp only [hdepth, if_true]
    rfl
  simp only [hdepth, if_false] at h ⊢
  cases himport : isImport t.kind with
  | true =>
      exact found_rebind { own := importedEvents s' p t } (hf.imported p t) rfl
        fun _ hv => nomatch hv
  | false =>
      cases hcomprehension : isComprehension t.kind with
      | true =>
          simp only [himport, hcomprehension, if_true, Bool.false_eq_true, if_false] at h
          exact comprehension_rebind hf h
      | false =>
          cases hbranch : isBranching t.kind with
          | true =>
              simp only [himport, hcomprehension, hbranch, if_true, Bool.false_eq_true, if_false]
                at h
              exact branch_rebind h
          | false =>
              simp only [himport, hcomprehension, hbranch, Bool.false_eq_true, if_false] at h ⊢
              cases hk : scopeOver? t.kind with
              | some k =>
                  rw [hk] at h
                  exact body_rebind hf k h
              | none =>
                  rw [hk] at h
                  rw [visitsAll_rebind fun v hv => h v (List.mem_append_left _ hv)]
                  exact found_rebind
                    { own := ownEvents p t, outer := visitsAll s' .all p.below n t.children }
                    (ownEvents_rebind hf) rfl h

/-- A walk finds the same with both sets of tracked modules, with other bindings. -/
theorem Rereads.found (hf : Rereads s s' f) (v : Visit) : Rereads.At s s' f v := by
  refine Visit.induction s' (P := Rereads.At s s' f) (fun v ih => ?_) v
  rw [Rereads.At, Visit.found, Visit.found, walk_eq_found, walk_eq_found]
  exact course_rebind hf ih

/-! ## Scopes with other bindings -/

/-- A scope with other bindings. -/
def rebind (f : Binding → Binding) (scope : Scope) : Scope :=
  { scope with events := scope.events.map (Event.rebind f) }

@[simp] theorem rebind_frame (f : Binding → Binding) (scope : Scope) :
    (rebind f scope).frame = scope.frame := rfl

theorem resolve_rebind (hf : Rereads s s' f) (t : Tree) :
    (resolve s t).scopes = (resolve s' t).scopes.map (rebind f) := by
  have hfound : (wholeVisit t).found s = ((wholeVisit t).found s').rebind f :=
    hf.found (wholeVisit t)
  have hframes : framesOf s t = framesOf s' t := by
    show moduleFrame t :: ((wholeVisit t).found s).frames = _
    rw [hfound]
    rfl
  have hevents : eventsOf s t = (eventsOf s' t).map (Event.rebind f) :=
    congrArg Findings.events hfound
  rw [resolve_scopes, resolve_scopes, hframes, List.map_map]
  refine List.map_congr_left fun ⟨frame, id⟩ _ => ?_
  show scopeOf s t frame id = rebind f (scopeOf s' t frame id)
  rw [scopeOf, scopeOf, rebind, hevents, List.filter_map, stableSort_map]
  · rfl
  · exact fun _ _ _ _ => rfl

/-- Whether a binding is tracked and is read as an untracked one. -/
def Shed (f : Binding → Binding) (b : Binding) : Prop :=
  b.isTracked = true ∧ f b = .untracked

theorem Binding.eq_untracked {b : Binding} (h : ¬ b.isTracked = true) : b = .untracked := by
  cases b with
  | untracked => rfl
  | _ => exact absurd rfl h

theorem shed_or_tracked (f : Binding → Binding) {b : Binding} (h : b.isTracked = true) :
    Shed f b ∨ (f b).isTracked = true := by
  cases hb : f b with
  | untracked => exact .inl ⟨h, hb⟩
  | _ => exact .inr rfl

/-- How what a name stands for is read: as it is, or it is shed.  What is shed was bound in an arm of
a branching statement if something tracked is read in its place. -/
def Reread (f : Binding → Binding) (es : List Event) (o o' : Option Binding) : Prop :=
  o = o'.map f ∨ ∃ e ∈ es, o' = some e.binding ∧ Shed f e.binding ∧
    ∀ b, o = some b → b.isTracked = true → e.arms ≠ []

theorem surviving?_rebind (hf : f .untracked = .untracked) (latest : Event) (offset : Nat)
    (es : List Event) :
    Reread f es (surviving? (latest.rebind f) offset (es.map (Event.rebind f)))
      (surviving? latest offset es) := by
  induction es with
  | nil => exact .inl rfl
  | cons e rest ih =>
      have harms : divergingArm? (latest.rebind f).arms (e.rebind f).arms =
          divergingArm? latest.arms e.arms := rfl
      rw [List.map_cons, surviving?, surviving?, harms]
      cases harm : divergingArm? latest.arms e.arms with
      | none => exact .inl rfl
      | some arm =>
          have hbinding : (e.rebind f).binding = f e.binding := rfl
          dsimp only
          rw [hbinding]
          by_cases hregion : arm.region.contains offset = true
          · rw [if_pos hregion, if_pos hregion]
            exact .inl rfl
          rw [if_neg hregion, if_neg hregion]
          by_cases htracked : e.binding.isTracked = true
          · rw [if_pos htracked]
            rcases shed_or_tracked f htracked with hshed | hread
            · obtain ⟨-, b, hb, -⟩ := divergingArm?_mem harm
              exact .inr ⟨e, List.mem_cons_self, rfl, hshed, fun _ _ _ => List.ne_nil_of_mem hb⟩
            · rw [if_pos hread]
              exact .inl rfl
          · rw [if_neg htracked, Binding.eq_untracked htracked, hf,
              if_neg (by simp [Binding.isTracked])]
            rcases ih with heq | ⟨g, hg, hshed⟩
            · exact .inl heq
            · exact .inr ⟨g, List.mem_cons_of_mem _ hg, hshed⟩

theorem Reread.mono {es es' : List Event} {o o' : Option Binding} (h : Reread f es o o')
    (hsub : ∀ e ∈ es, e ∈ es') : Reread f es' o o' := by
  rcases h with heq | ⟨e, he, hshed⟩
  · exact .inl heq
  · exact .inr ⟨e, hsub e he, hshed⟩

/-- The latest binding stands in an arm if another one outlasts it. -/
theorem arms_of_surviving? {latest : Event} {b : Binding}
    (h : surviving? latest offset es = some b) : latest.arms ≠ [] := by
  cases es with
  | nil => cases h
  | cons e rest =>
      rw [surviving?] at h
      cases harm : divergingArm? latest.arms e.arms with
      | none =>
          rw [harm] at h
          cases h
      | some arm => exact List.ne_nil_of_mem (divergingArm?_mem harm).1

theorem visibleEvents_rebind (es : List Event) (name : String) (offset : Nat) :
    visibleEvents (es.map (Event.rebind f)) name offset =
      (visibleEvents es name offset).map (Event.rebind f) := by
  rw [visibleEvents, visibleEvents, ← List.map_reverse, List.filter_map]
  rfl

theorem visible?_eq_none_iff {es : List Event} :
    visible? es name offset = none ↔ visibleEvents es name offset = [] := by
  unfold visible?
  rw [← visibleEvents]
  cases visibleEvents es name offset with
  | nil => simp
  | cons latest earlier =>
      dsimp only
      split <;> simp

theorem visible?_rebind (hf : f .untracked = .untracked) (es : List Event) (name : String)
    (offset : Nat) : Reread f (visibleEvents es name offset)
      (visible? (es.map (Event.rebind f)) name offset) (visible? es name offset) := by
  unfold visible?
  rw [← visibleEvents, ← visibleEvents, visibleEvents_rebind]
  cases visibleEvents es name offset with
  | nil => exact .inl rfl
  | cons latest earlier =>
      rw [List.map_cons]
      show Reread f (latest :: earlier)
        (if (f latest.binding).isTracked then some (f latest.binding)
          else some ((surviving? (latest.rebind f) offset
            (earlier.map (Event.rebind f))).getD (f latest.binding)))
        (if latest.binding.isTracked then some latest.binding
          else some ((surviving? latest offset earlier).getD latest.binding))
      -- A latest binding that loses its module may let an earlier one outlast it.
      by_cases htracked : latest.binding.isTracked = true
      · rw [if_pos htracked]
        rcases shed_or_tracked f htracked with hshed | hread
        · refine .inr ⟨latest, List.mem_cons_self, rfl, hshed, fun b hb hbtracked => ?_⟩
          rw [hshed.2, if_neg (by simp [Binding.isTracked])] at hb
          cases hsurviving : surviving? (latest.rebind f) offset
              (earlier.map (Event.rebind f)) with
          | none =>
              rw [hsurviving] at hb
              cases hb
              cases hbtracked
          | some _ =>
              show (latest.rebind f).arms ≠ []
              exact arms_of_surviving? hsurviving
        · rw [if_pos hread]
          exact .inl rfl
      · have huntracked := Binding.eq_untracked htracked
        rw [huntracked, hf, if_neg (by simp [Binding.isTracked])]
        rcases surviving?_rebind hf latest offset earlier with
          heq | ⟨e, he, hsome, hshed, harms⟩
        · left
          rw [heq]
          cases surviving? latest offset earlier with
          | none => simp [hf]
          | some b => rfl
        · refine .inr ⟨e, List.mem_cons_of_mem _ he, by rw [hsome]; rfl, hshed,
            fun b hb hbtracked => ?_⟩
          cases hsurviving : surviving? (latest.rebind f) offset
              (earlier.map (Event.rebind f)) with
          | none =>
              rw [hsurviving] at hb
              cases hb
              cases hbtracked
          | some b' =>
              rw [hsurviving] at hb
              cases hb
              exact harms b' hsurviving hbtracked

/-- The bindings of a name up to an offset in all scopes. -/
def Scopes.visibleEvents (s : Scopes) (name : String) (offset : Nat) : List Event :=
  s.scopes.flatMap fun scope => Scope.visibleEvents scope.events name offset

theorem scopeAt_rebind {a b : Scopes} (h : a.scopes = b.scopes.map (rebind f)) (offset : Nat) :
    a.scopeAt offset = b.scopeAt offset := by
  unfold Scopes.scopeAt
  rw [h, List.length_map, ← List.map_reverse, List.findIdx?_map]
  rfl

/-- What is found in a scope, or else in those around it, is read as each of the two is. -/
theorem Reread.orOuter {es : List Event} {here here' : Option Binding} {parent : Option Nat}
    {outer outer' : Nat → Option Binding} (houter : ∀ id, Reread f es (outer id) (outer' id)) :
    (here = none ↔ here' = none) → Reread f es here here' →
    Reread f es
      (match here, parent with
        | some b, _ => some b
        | none, some parent => outer parent
        | none, none => none)
      (match here', parent with
        | some b, _ => some b
        | none, some parent => outer' parent
        | none, none => none) := by
  intro hnone hhere
  cases here' with
  | none =>
      rw [hnone.2 rfl]
      cases parent with
      | none => exact .inl rfl
      | some parent => exact houter parent
  | some b' =>
      cases here with
      | none => cases hnone.1 rfl
      | some b => exact hhere

theorem lookupFrom_rebind (hf : f .untracked = .untracked) {a b : Scopes}
    (h : a.scopes = b.scopes.map (rebind f)) (steps : Nat) (innermost : Bool) (id : Nat) :
    Reread f (b.visibleEvents name offset) (a.lookupFrom name offset steps innermost id)
      (b.lookupFrom name offset steps innermost id) := by
  induction steps generalizing innermost id with
  | zero => exact .inl rfl
  | succ steps ih =>
      rw [Scopes.lookupFrom, Scopes.lookupFrom, h, List.getElem?_map]
      cases hscope : b.scopes[id]? with
      | none => exact .inl rfl
      | some scope =>
          dsimp only [Option.map_some]
          rw [rebind_frame]
          by_cases hreaches : (innermost || decide (scope.frame.kind ≠ .classBody)) = true
          · rw [if_pos hreaches, if_pos hreaches]
            refine .orOuter (ih false) ?_ ?_
            · rw [rebind, visible?_eq_none_iff, visible?_eq_none_iff, visibleEvents_rebind,
                List.map_eq_nil_iff]
            · refine (visible?_rebind hf scope.events name offset).mono fun e he => ?_
              exact List.mem_flatMap.2 ⟨scope, List.mem_of_getElem? hscope, he⟩
          · rw [if_neg hreaches, if_neg hreaches]
            exact .orOuter (ih false) Iff.rfl (.inl rfl)

theorem lookup_rebind (hf : Rereads s s' f) (t : Tree) (name : String) (offset : Nat) :
    Reread f ((resolve s' t).visibleEvents name offset) ((resolve s t).lookup name offset)
      ((resolve s' t).lookup name offset) := by
  have hscopes := resolve_rebind hf t
  rw [Scopes.lookup, Scopes.lookup, scopeAt_rebind hscopes, hscopes, List.length_map]
  exact lookupFrom_rebind hf.untracked hscopes _ _ _

/-! ## An added module -/

/-- Whether a set of tracked modules is another one with a module added behind the others, whose path
neither goes on behind that of one of them nor lies two names or more above it. -/
structure Adds (s s' : Tracked.Set) (path : String) : Prop where
  paths : s'.paths = s.paths ++ [path]
  apart : ∀ p ∈ s.paths, ¬ pathNames p <+: pathNames path
  near : ∀ p ∈ s.paths, ∀ rest, pathNames p = pathNames path ++ rest → rest.length ≤ 1

/-- What a path stands for that is no module. -/
def packageBinding (s : Tracked.Set) (q : String) : Binding :=
  if s.hasPackage q then .package q else .untracked

/-- What a name stands for without an added module, by what it stands for with it. -/
def Binding.without (s : Tracked.Set) (path : String) : Binding → Binding
  | .module place => if place = s.paths.length then packageBinding s path else .module place
  | .package q => packageBinding s q
  | .command place name => if place = s.paths.length then .untracked else .command place name
  | .untracked => .untracked

namespace Adds

variable {path q origin imported : String} {place : Nat}

theorem not_mem (h : Adds s s' path) : path ∉ s.paths :=
  fun hmem => h.apart path hmem (List.prefix_refl _)

theorem find?_eq (h : Adds s s' path) (q : String) :
    s'.find? q = (s.find? q).or (if q = path then some s.paths.length else none) := by
  rw [Set.find?, h.paths, List.idxOf?, List.findIdx?_append, Set.find?, List.idxOf?]
  by_cases hq : q = path
  · subst hq
    simp [List.findIdx?_cons]
  · have hne : (path == q) = false := by simpa using Ne.symm hq
    simp [List.findIdx?_cons, hq, hne]

theorem ne_of_find? (hq : s.find? q = some place) : place ≠ s.paths.length :=
  Nat.ne_of_lt (List.idxOf?_eq_some_iff.1 hq).1

theorem hasPackage_of (h : Adds s s' path) (hq : s.hasPackage q = true) :
    s'.hasPackage q = true := by
  obtain ⟨r, hr⟩ := Set.hasPackage_iff.1 hq
  refine Set.hasPackage_iff.2 ⟨r, ?_⟩
  rw [h.paths]
  exact List.mem_append_left _ hr

theorem packageBinding_without (h : Adds s s' path) (q : String) :
    (packageBinding s' q).without s path = packageBinding s q := by
  unfold packageBinding
  by_cases hq : s.hasPackage q = true
  · rw [if_pos hq, if_pos (h.hasPackage_of hq), Binding.without, packageBinding, if_pos hq]
  · rw [if_neg hq]
    split
    · rw [Binding.without, packageBinding, if_neg hq]
    · rfl

theorem pathBinding_without (h : Adds s s' path) (q : String) :
    (pathBinding s' q).without s path = pathBinding s q := by
  unfold pathBinding
  rw [h.find?_eq]
  cases hq : s.find? q with
  | some place => simp [Binding.without, ne_of_find? hq]
  | none =>
      rw [Option.none_or]
      by_cases hpath : q = path
      · rw [if_pos hpath, hpath]
        simp [Binding.without, packageBinding]
      · rw [if_neg hpath]
        exact h.packageBinding_without q

/-- There is no module of the set below what is imported from the added module. -/
theorem not_below (h : Adds s s' path) : s.hasPackage (path ++ "." ++ imported) = false := by
  rw [Bool.eq_false_iff]
  intro hpackage
  obtain ⟨r, hr⟩ := Set.hasPackage_iff.1 hpackage
  have hnames := h.near _ hr (pathNames imported ++ pathNames r)
    (by rw [pathNames_append, pathNames_append, List.append_assoc])
  have himported := List.length_pos_iff.2 (pathNames_ne_nil imported)
  have hrest := List.length_pos_iff.2 (pathNames_ne_nil r)
  rw [List.length_append] at hnames
  omega

theorem memberBinding_without (h : Adds s s' path) (origin imported : String) :
    (memberBinding s' origin imported).without s path = memberBinding s origin imported := by
  unfold memberBinding
  dsimp only
  rw [h.find?_eq, h.find?_eq]
  cases hq : s.find? (origin ++ "." ++ imported) with
  | some place => simp [Binding.without, ne_of_find? hq]
  | none =>
      rw [Option.none_or]
      by_cases hpath : origin ++ "." ++ imported = path
      · -- The name is the added module, so that its origin is none.
        have horigin : s.find? origin = none := by
          rw [Set.find?_eq_none_iff]
          intro hmem
          exact h.apart origin hmem (pathNames_prefix_iff.2 (.inr ⟨imported, hpath.symm⟩))
        rw [if_pos hpath, horigin, hpath]
        simp [Binding.without, packageBinding]
      rw [if_neg hpath]
      cases horigin : s.find? origin with
      | some place => simp [Binding.without, ne_of_find? horigin]
      | none =>
          rw [Option.none_or]
          by_cases hadded : origin = path
          · rw [if_pos hadded, hadded]
            simp [Binding.without, h.not_below]
          · rw [if_neg hadded]
            exact h.packageBinding_without _

theorem rereads (h : Adds s s' path) : Rereads s s' (Binding.without s path) where
  untracked := rfl
  imported p t := by
    unfold importedEvents
    split
    · rw [List.map_flatMap]
      refine List.flatMap_congr fun item _ => ?_
      unfold importEvents
      split
      · split
        · have hhead := h.packageBinding_without
          simp only [packageBinding] at hhead
          simp [Event.rebind, Place.event, hhead]
        · rfl
      · split
        · split
          · simp [Event.rebind, Place.event, h.pathBinding_without]
          · rfl
        · rfl
      · rfl
    · rw [List.map_flatMap]
      refine List.flatMap_congr fun item _ => ?_
      unfold importFromEvents
      dsimp only
      split
      · rfl
      · cases originPath? t with
        | none => rfl
        | some origin => simp [Event.rebind, Place.event, h.memberBinding_without]

/-- What is found without the added module is found with it. -/
theorem find?_of_some (h : Adds s s' path) (hq : s.find? q = some place) :
    s'.find? q = some place := by
  rw [h.find?_eq, hq, Option.some_or]

theorem path?_of_some (h : Adds s s' path) (hq : s.path? place = some q) :
    s'.path? place = some q := by
  rw [Set.path?_eq] at hq ⊢
  rw [h.paths, List.getElem?_append_left (List.getElem?_eq_some_iff.1 hq).1, hq]

theorem path?_length (h : Adds s s' path) : s'.path? s.paths.length = some path := by
  rw [Set.path?_eq, h.paths]
  simp

/-- The path of what a name stands for is the same with the added module, unless the name is shed. -/
theorem path?_without (h : Adds s s' path) {b : Binding} (hb : (b.without s path).path? s = some q) :
    b.path? s' = some q := by
  have package : ∀ {q' : String}, (packageBinding s q').path? s = some q → q' = q := by
    intro q' hq
    unfold packageBinding at hq
    split at hq
    · exact Option.some.inj hq
    · cases hq
  cases b with
  | module found =>
      rw [Binding.without] at hb
      split at hb
      · rename_i hfound
        rw [← package hb, hfound]
        exact h.path?_length
      · exact h.path?_of_some hb
  | package q' =>
      rw [← package hb]
      rfl
  | command found name =>
      rw [Binding.without] at hb
      split at hb <;> cases hb
  | untracked => cases hb

theorem command_of_without {b : Binding} {command : String}
    (hb : b.without s path = .command place command) : b = .command place command := by
  have package : packageBinding s path ≠ .command place command ∧
      ∀ q', packageBinding s q' ≠ .command place command := by
    unfold packageBinding
    constructor
    · split <;> simp
    · intro q'
      split <;> simp
  cases b with
  | module found =>
      rw [Binding.without] at hb
      split at hb
      · exact absurd hb package.1
      · cases hb
  | package q' => exact absurd hb (package.2 q')
  | command found name =>
      rw [Binding.without] at hb
      split at hb
      · cases hb
      · exact hb
  | untracked => cases hb

/-- A name that is not shed leads where it leads without the added module. -/
theorem target_without (h : Adds s s' path) {b : Binding} {after : List String} {command : String}
    (hb : (b.without s path).target? s after = some (place, command)) :
    b.target? s' after = some (place, command) := by
  cases hlast : after.getLast? with
  | none =>
      have hnil : after = [] := List.getLast?_eq_none_iff.1 hlast
      subst hnil
      rw [command_of_without (Binding.target?_nil.1 hb)]
      rfl
  | some last =>
      unfold Binding.target? at hb ⊢
      rw [hlast] at hb ⊢
      obtain ⟨q, hq, htarget⟩ := Option.bind_eq_some_iff.1 hb
      obtain ⟨found, hfound, heq⟩ := Option.map_eq_some_iff.1 htarget
      dsimp only
      rw [h.path?_without hq, Option.bind_some, h.find?_of_some hfound, Option.map_some, heq]

end Adds

/-! ## Calls with an added module -/

/-- Whether a name is bound in an arm of a branching statement by an import that is untracked with one
set of tracked modules, and decides with another one. -/
def Overtaken (s s' : Tracked.Set) (t : Tree) (name : String) (offset : Nat) : Prop :=
  ∃ e ∈ (resolve s t).visibleEvents name offset, e.binding = .untracked ∧ e.arms ≠ [] ∧
    ∃ b, b.isTracked = true ∧ { e with binding := b } ∈ (resolve s' t).visibleEvents name offset ∧
      (resolve s' t).lookup name offset = some b

theorem mem_visibleEvents_rebind {e : Event} (hf : Rereads s s' f)
    (he : e ∈ (resolve s' t).visibleEvents name offset) :
    e.rebind f ∈ (resolve s t).visibleEvents name offset := by
  obtain ⟨scope, hscope, he⟩ := List.mem_flatMap.1 he
  refine List.mem_flatMap.2 ⟨rebind f scope, ?_, ?_⟩
  · rw [resolve_rebind hf t]
    exact List.mem_map_of_mem hscope
  · rw [rebind, visibleEvents_rebind]
    exact List.mem_map_of_mem he

/-- A call stands for the same with an added module, unless its first name is overtaken. -/
theorem Adds.callee {path command : String} {place : Nat} {after : List String}
    (h : Adds s s' path) (hw : Calls w (name :: after))
    (hcallee : callee? (resolve s t) w = some (place, command)) :
    callee? (resolve s' t) w = some (place, command) ∨ Overtaken s s' t name w.span.start := by
  rw [callee?_eq hw] at hcallee ⊢
  obtain ⟨b, hlookup, htarget⟩ := Option.bind_eq_some_iff.1 hcallee
  have htracked : b.isTracked = true := Binding.isTracked_of_target? htarget
  rcases lookup_rebind h.rereads t name w.span.start with heq | ⟨e, he, hadded, hshed, harms⟩
  · left
    rw [hlookup] at heq
    obtain ⟨b', hlookup', rfl⟩ := Option.map_eq_some_iff.1 heq.symm
    rw [hlookup', Option.bind_some]
    exact h.target_without htarget
  · right
    refine ⟨_, mem_visibleEvents_rebind h.rereads he, hshed.2, harms b hlookup htracked, e.binding,
      hshed.1, ?_, hadded⟩
    exact he

theorem mem_of_mem_firstOfEach {α : Type} {same : α → α → Bool} {l : List α} {a : α}
    (h : a ∈ firstOfEach same l) : a ∈ l := by
  induction l with
  | nil => cases h
  | cons b rest ih =>
      rcases List.mem_cons.1 h with rfl | h
      · exact List.mem_cons_self
      · exact List.mem_cons_of_mem _ (ih (List.mem_filter.1 h).1)

/-- What is different from all elements of a list is the first of its kind behind them. -/
theorem firstOfEach_append {α : Type} {same : α → α → Bool} {l : List α} {a : α}
    (h : ∀ b ∈ l, same b a = false) : firstOfEach same (l ++ [a]) = firstOfEach same l ++ [a] := by
  induction l with
  | nil => rfl
  | cons b rest ih =>
      rw [List.cons_append, firstOfEach, ih fun c hc => h c (List.mem_cons_of_mem _ hc),
        List.filter_append, firstOfEach]
      simp [h b List.mem_cons_self]

/-- A further module comes behind the others. -/
theorem adds_ofList {members : List Member} {m : Member} (table : Flag.Table)
    (hapart : ∀ a ∈ members, ¬ pathNames a.spec.path <+: pathNames m.spec.path)
    (hnear : ∀ a ∈ members, ∀ rest,
      pathNames a.spec.path = pathNames m.spec.path ++ rest → rest.length ≤ 1) :
    Adds (.ofList members table) (.ofList (members ++ [m]) table) m.spec.path := by
  have hmem : ∀ p ∈ (Tracked.Set.ofList members table).paths, ∃ a ∈ members, a.spec.path = p := by
    intro p hp
    obtain ⟨a, ha, rfl⟩ := List.mem_map.1 hp
    exact ⟨a, mem_of_mem_firstOfEach ha, rfl⟩
  constructor
  · have hdifferent : ∀ a ∈ members, (a.spec.path == m.spec.path) = false := by
      intro a ha
      rw [beq_eq_false_iff_ne]
      intro heq
      exact hapart a ha (by rw [heq])
    rw [Tracked.Set.paths, Tracked.Set.ofList, firstOfEach_append hdifferent, List.map_append]
    rfl
  · intro p hp
    obtain ⟨a, ha, rfl⟩ := hmem p hp
    exact hapart a ha
  · intro p hp
    obtain ⟨a, ha, rfl⟩ := hmem p hp
    exact hnear a ha

/-- Let the path of a further module neither go on behind that of a tracked one nor lie two names or
more above it.  Then each call that is found is found with the further module too, as one of the same
command of the same module, unless its first name is overtaken: an import in an arm of a branching
statement binds it, which is untracked without the further module and decides with it. -/
theorem calls_independent (members : List Member) (m : Member) (table : Flag.Table)
    (hapart : ∀ a ∈ members, ¬ pathNames a.spec.path <+: pathNames m.spec.path)
    (hnear : ∀ a ∈ members, ∀ rest,
      pathNames a.spec.path = pathNames m.spec.path ++ rest → rest.length ≤ 1)
    {source : List Char} (hsource : parseChecked source = .ok t) {call : Edit.Call}
    (hcall : call? source (resolve (.ofList members table) t) w = some call) :
    (call? source (resolve (.ofList (members ++ [m]) table) t) w = some call ∧
      (Tracked.Set.ofList (members ++ [m]) table).path? call.place =
        (Tracked.Set.ofList members table).path? call.place) ∨
    ∃ name after, Calls w (name :: after) ∧
      Overtaken (.ofList members table) (.ofList (members ++ [m]) table) t name w.span.start := by
  have hadds := adds_ofList table hapart hnear
  obtain ⟨⟨names, hcalls⟩, -⟩ := namedCall_of_call? hcall
  obtain ⟨hkind, hcallee, hspan, hkeywords⟩ := Draft.call?_eq_some hcall
  obtain ⟨name, after, rfl⟩ : ∃ name after, names = name :: after := by
    obtain ⟨-, callee, -, -, hsegments⟩ := hcalls
    exact List.exists_cons_of_ne_nil (ne_nil_of_segments hsegments)
  rcases hadds.callee hcalls hcallee with hsame | hovertaken
  · left
    obtain ⟨q, hq⟩ := exists_path_of_callee (sourced_of_parseChecked hsource) hcalls hcallee
    constructor
    · rw [call?, if_pos hkind, hsame, ← hspan, ← hkeywords]
    · rw [hadds.path?_of_some hq, hq]
  · exact .inr ⟨name, after, hcalls, hovertaken⟩

/-- A tracked module without a table of its own. -/
def member (package entry : String) : Member :=
  ⟨⟨package, entry⟩, none⟩

/-- With a module of another package, a call of the first one is found as before. -/
theorem calls_independent_package :
    ∃ t, parseChecked packageImport = .ok t ∧ ∃ w call,
      call? packageImport (resolve (.ofList [member "maya" "cmds"] default) t) w = some call ∧
      ((call? packageImport
          (resolve (.ofList [member "maya" "cmds", member "other" "cmds"] default) t) w =
            some call ∧
        (Tracked.Set.ofList [member "maya" "cmds", member "other" "cmds"] default).path?
            call.place =
          (Tracked.Set.ofList [member "maya" "cmds"] default).path? call.place) ∨
      ∃ name after, Calls w (name :: after) ∧
        Overtaken (.ofList [member "maya" "cmds"] default)
          (.ofList [member "maya" "cmds", member "other" "cmds"] default) t name w.span.start) := by
  obtain ⟨hfaultless, s, -, w, -, hsome⟩ : (parse packageImport).firstFault? 0 = none ∧
      ∃ s ∈ (parse packageImport).children, ∃ w ∈ s.children, (call? packageImport
        (resolve (.ofList [member "maya" "cmds"] default) (parse packageImport)) w).isSome = true := by
    decide +kernel
  have hsource : parseChecked packageImport = .ok (parse packageImport) :=
    parseChecked_of_faultless hfaultless
  obtain ⟨call, hcall⟩ := Option.isSome_iff_exists.1 hsome
  obtain ⟨hmaya, hother⟩ : pathNames (member "maya" "cmds").spec.path = ["maya", "cmds"] ∧
      pathNames (member "other" "cmds").spec.path = ["other", "cmds"] := by
    decide +kernel
  refine ⟨parse packageImport, hsource, w, call, hcall,
    calls_independent [member "maya" "cmds"] (member "other" "cmds") default ?_ ?_ hsource hcall⟩
  · intro a ha
    rw [List.mem_singleton.1 ha, hmaya, hother]
    decide
  · intro a ha rest hrest
    rw [List.mem_singleton.1 ha, hmaya, hother] at hrest
    simp at hrest

/-- The modules and commands of the calls in a text. -/
def found (members : List Member) (source : List Char) : List (Option String × String) :=
  (calls source (resolve (.ofList members default) (parse source)) (parse source)).map fun call =>
    ((Tracked.Set.ofList members default).path? call.place, call.command)

def commandImport : List Char :=
  "from a.b import c\nc(x=1)\n".toList

def subpackageImport : List Char :=
  "from a.b import c\nc.d.f(x=1)\n".toList

def otherFallback : List Char :=
  ("try:\n    from maya import cmds\nexcept ImportError:\n    from other import cmds\n" ++
    "cmds.f(a=1)\n").toList

/-- A further module changes calls of others if its path goes on behind one of theirs, if it lies two
names or more above one, and if it is imported as a fallback. -/
theorem calls_dependent :
    (parseChecked commandImport = .ok (parse commandImport) ∧
      found [member "a" "b"] commandImport = [(some "a.b", "c")] ∧
      found [member "a" "b", member "a.b" "c"] commandImport = []) ∧
    (parseChecked subpackageImport = .ok (parse subpackageImport) ∧
      found [member "a.b.c" "d"] subpackageImport = [(some "a.b.c.d", "f")] ∧
      found [member "a.b.c" "d", member "a" "b"] subpackageImport = []) ∧
    parseChecked otherFallback = .ok (parse otherFallback) ∧
      found [member "maya" "cmds"] otherFallback = [(some "maya.cmds", "f")] ∧
      found [member "maya" "cmds", member "other" "cmds"] otherFallback =
        [(some "other.cmds", "f")] := by
  have command : (parse commandImport).firstFault? 0 = none ∧
      found [member "a" "b"] commandImport = [(some "a.b", "c")] ∧
      found [member "a" "b", member "a.b" "c"] commandImport = [] := by
    decide +kernel
  have subpackage : (parse subpackageImport).firstFault? 0 = none ∧
      found [member "a.b.c" "d"] subpackageImport = [(some "a.b.c.d", "f")] ∧
      found [member "a.b.c" "d", member "a" "b"] subpackageImport = [] := by
    decide +kernel
  have fallback : (parse otherFallback).firstFault? 0 = none ∧
      found [member "maya" "cmds"] otherFallback = [(some "maya.cmds", "f")] ∧
      found [member "maya" "cmds", member "other" "cmds"] otherFallback =
        [(some "other.cmds", "f")] := by
    decide +kernel
  exact ⟨⟨parseChecked_of_faultless command.1, command.2⟩,
    ⟨parseChecked_of_faultless subpackage.1, subpackage.2⟩,
    parseChecked_of_faultless fallback.1, fallback.2⟩

end Scope

end Longhand
