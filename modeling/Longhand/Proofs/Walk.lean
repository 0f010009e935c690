import Longhand.Proofs.Node
import Longhand.Scope.Resolve

/-!
# What a walk finds

The scopes that a walk opens are regions of the tree, each inside the one around it.  What is
tracked is bound by an import statement in the region of its scope.
-/

namespace Longhand.Scope

open Syntax Text

variable {tracked : Tracked.Set} {fs : List Frame} {root : Tree}

/-! ## Places in the list of all scopes -/

/-- Whether some scopes are those from a number on. -/
def Placed (fs : List Frame) (k : Nat) (l : List Frame) : Prop :=
  ∃ before after, fs = before ++ (l ++ after) ∧ before.length = k

theorem Placed.left {k : Nat} {l m : List Frame} (h : Placed fs k (l ++ m)) : Placed fs k l := by
  obtain ⟨before, after, rfl, hk⟩ := h
  exact ⟨before, m ++ after, by simp, hk⟩

theorem Placed.right {k : Nat} {l m : List Frame} (h : Placed fs k (l ++ m)) :
    Placed fs (k + l.length) m := by
  obtain ⟨before, after, rfl, rfl⟩ := h
  exact ⟨before ++ l, after, by simp, by simp⟩

theorem Placed.head {k : Nat} {f : Frame} {l : List Frame} (h : Placed fs k (f :: l)) :
    fs[k]? = some f := by
  obtain ⟨before, after, rfl, rfl⟩ := h
  simp

/-- Whether a span lies in the region of the scope with a number. -/
def Inside (fs : List Frame) (k : Nat) (s : Span) : Prop :=
  ∃ frame, fs[k]? = some frame ∧ s.Within frame.region

theorem Inside.within {k : Nat} {s s' : Span} (h : Inside fs k s) (hs : s'.Within s) :
    Inside fs k s' := by
  obtain ⟨frame, hframe, hwithin⟩ := h
  exact ⟨frame, hframe, hs.trans hwithin⟩

/-! ## Scopes and bindings of a tree -/

/-- Whether a node is the region of a scope. -/
def IsRegion (t : Tree) : Prop :=
  t.role = some .body ∨ t.kind = .listComprehension ∨ t.kind = .setComprehension ∨
    t.kind = .dictionaryComprehension ∨ t.kind = .generatorExpression

/-- Whether the region of a scope is a node inside the region of the scope around it. -/
structure Enclosed (fs : List Frame) (root : Tree) (frame : Frame) : Prop where
  outer : ∃ k, frame.parent = some k ∧ Inside fs k frame.region
  node : ∃ u, IsNode u root ∧ u.span = frame.region ∧ IsRegion u

/-- Whether a binding is one that an import statement in a region makes. -/
def Imported (tracked : Tracked.Set) (root : Tree) (region : Span) (e : Event) : Prop :=
  ∃ u, IsNode u root ∧ u.span.Within region ∧ ∃ c ∈ u.childrenIn .name, ∃ p : Place,
    (u.kind = .importStatement ∧ e ∈ importEvents tracked p u.span.stop c) ∨
      (u.kind = .importFromStatement ∧
        e ∈ importFromEvents tracked p u.span.stop (originPath? u) c)

/-- Whether a binding belongs to a scope and is imported there if it is tracked. -/
def Made (tracked : Tracked.Set) (fs : List Frame) (root : Tree) (e : Event) : Prop :=
  ∃ frame, fs[e.scope]? = some frame ∧
    (e.binding.isTracked = true → Imported tracked root frame.region e)

/-- Whether all that a walk finds is as it should be. -/
structure Sane (tracked : Tracked.Set) (fs : List Frame) (root : Tree) (f : Findings) : Prop where
  frames : ∀ frame ∈ f.frames, Enclosed fs root frame
  events : ∀ e ∈ f.events, Made tracked fs root e

theorem Sane.empty : Sane tracked fs root {} :=
  ⟨fun _ h => (nomatch h), fun _ h => nomatch h⟩

theorem Sane.append {f g : Findings} (hf : Sane tracked fs root f) (hg : Sane tracked fs root g) :
    Sane tracked fs root (f ++ g) :=
  ⟨fun frame h => (List.mem_append.1 h).elim (hf.frames frame) (hg.frames frame),
    fun e h => (List.mem_append.1 h).elim (hf.events e) (hg.events e)⟩

/-- Bindings of a scope that are all untracked. -/
theorem Made.untracked {k : Nat} {s : Span} (h : Inside fs k s) {e : Event} (hscope : e.scope = k)
    (hbinding : e.binding = .untracked) : Made tracked fs root e := by
  obtain ⟨frame, hframe, -⟩ := h
  refine ⟨frame, by rw [hscope, hframe], fun htracked => ?_⟩
  rw [hbinding] at htracked
  cases htracked

/-! ## Bindings of single nodes -/

/-- Whether some bindings are untracked ones of a place. -/
def Untracked (p : Place) (es : List Event) : Prop :=
  ∀ e ∈ es, e.scope = p.scope ∧ e.binding = .untracked

theorem Untracked.nil (p : Place) : Untracked p [] :=
  fun _ h => nomatch h

theorem untracked_names (p : Place) (offset : Nat) (names : List String) :
    Untracked p (p.untracked offset names) := by
  intro e he
  obtain ⟨name, -, rfl⟩ := List.mem_map.1 he
  exact ⟨rfl, rfl⟩

theorem ownEvents_untracked (p : Place) (t : Tree) : Untracked p (ownEvents p t) := by
  have one : ∀ (name : String) (offset : Nat), Untracked p [p.event name offset .untracked] := by
    intro name offset e he
    rw [List.mem_singleton.1 he]
    exact ⟨rfl, rfl⟩
  unfold ownEvents
  split
  all_goals first
    | exact .nil p
    | split
      · first
        | exact untracked_names p _ _
        | exact one _ _
      · exact .nil p

theorem clauseEvents_untracked (p : Place) (t : Tree) : Untracked p (clauseEvents p t) := by
  intro e he
  obtain ⟨c, -, he⟩ := List.mem_flatMap.1 he
  split at he
  · exact untracked_names p _ _ e he
  · cases he

/-- Each binding of an import statement belongs to the scope of the statement. -/
theorem importEvents_scope {p : Place} {offset : Nat} {t : Tree} {e : Event}
    (h : e ∈ importEvents tracked p offset t) : e.scope = p.scope := by
  unfold importEvents at h
  split at h
  · split at h
    · rw [List.mem_singleton.1 h]
      rfl
    · cases h
  · split at h
    · split at h
      · rw [List.mem_singleton.1 h]
        rfl
      · cases h
    · cases h
  · cases h

theorem importFromEvents_scope {p : Place} {offset : Nat} {origin : Option String} {t : Tree}
    {e : Event} (h : e ∈ importFromEvents tracked p offset origin t) : e.scope = p.scope := by
  unfold importFromEvents at h
  dsimp only at h
  split at h
  · cases h
  · rw [List.mem_singleton.1 h]
    rfl

theorem Sane.ofEvents {p : Place} {s : Span} (h : Inside fs p.scope s) {es : List Event}
    (hes : Untracked p es) : Sane tracked fs root { events := es } :=
  ⟨fun _ h => (nomatch h), fun e he => .untracked h (hes e he).1 (hes e he).2⟩

/-! ## Walks -/

/-- Whether some findings are as they should be if their scopes are those from a number on. -/
def Fits (tracked : Tracked.Set) (fs : List Frame) (root : Tree) (n : Numbering) (f : Findings) :
    Prop :=
  Placed fs n.scope f.frames → Sane tracked fs root f

section Fits

variable {n : Numbering} {f f' : Findings}

theorem Fits.empty : Fits tracked fs root n {} :=
  fun _ => .empty

theorem Fits.append (hf : Fits tracked fs root n f) (hf' : Fits tracked fs root (n.after f) f') :
    Fits tracked fs root n (f ++ f') :=
  fun h => (hf h.left).append (hf' h.right)

theorem Findings.append_assoc (f f' f'' : Findings) : f ++ f' ++ f'' = f ++ (f' ++ f'') := by
  show Findings.append (Findings.append f f') f'' = Findings.append f (Findings.append f' f'')
  simp [Findings.append, Nat.add_assoc]

theorem Fits.ofEvents {p : Place} {s : Span} (h : Inside fs p.scope s) {es : List Event}
    (hes : Untracked p es) : Fits tracked fs root n { events := es } :=
  fun _ => .ofEvents h hes

/-- The names of an import statement are bound. -/
theorem Fits.ofImports {p : Place} {t : Tree} {es : List Event} (hnode : IsNode t root)
    (hinside : Inside fs p.scope t.span)
    (hes : ∀ e ∈ es, e.scope = p.scope ∧ ∃ c ∈ Tree.childrenIn .name t,
      (t.kind = .importStatement ∧ e ∈ importEvents tracked p t.span.stop c) ∨
        (t.kind = .importFromStatement ∧
          e ∈ importFromEvents tracked p t.span.stop (originPath? t) c)) :
    Fits tracked fs root n { events := es } := by
  intro _
  refine ⟨fun _ h => (nomatch h), fun e he => ?_⟩
  obtain ⟨hscope, c, hc, hevent⟩ := hes e he
  obtain ⟨frame, hframe, hwithin⟩ := hinside
  exact ⟨frame, by rw [hscope, hframe], fun _ => ⟨_, hnode, hwithin, c, hc, p, hevent⟩⟩

/-- A scope is opened, and a walk goes on in it. -/
theorem Fits.scope {frame : Frame} {es : List Event} {p : Place} (hframe : Enclosed fs root frame)
    (hp : p.scope = n.scope) (hes : Untracked p es)
    (hf : Inside fs n.scope frame.region →
      Fits tracked fs root (n.after { frames := [frame], events := es }) f) :
    Fits tracked fs root n (({ frames := [frame], events := es } : Findings) ++ f) := by
  intro h
  have hinside : Inside fs n.scope frame.region := ⟨frame, h.head, .refl _⟩
  refine .append ⟨?_, ?_⟩ (hf hinside h.right)
  · intro frame' hframe'
    rw [List.mem_singleton.1 hframe']
    exact hframe
  · intro e he
    exact .untracked hinside ((hes e he).1.trans hp) (hes e he).2

end Fits

/-- Whether some trees are nodes inside a span. -/
def Parts (root : Tree) (s : Span) (ts : List Tree) : Prop :=
  ∀ c ∈ ts, IsNode c root ∧ c.span.Within s

theorem Parts.tail {s : Span} {t : Tree} {ts : List Tree} (h : Parts root s (t :: ts)) :
    Parts root s ts :=
  fun c hc => h c (List.mem_cons_of_mem _ hc)

section Walks

variable {g : Draft} {root' : Tree}

theorem parts_children (hroot : g.Twin root root') {t : Tree} (h : IsNode t root) :
    Parts root t.span t.children := by
  intro c hc
  obtain ⟨_, _, htwin, -⟩ := hroot.node h
  obtain ⟨_, _, -, hwithin⟩ := htwin.child hc
  exact ⟨(IsNode.child hc).trans h, hwithin⟩

mutual

theorem walk_fits (hroot : g.Twin root root') : ∀ (p : Place) (n : Numbering) {t : Tree},
    IsNode t root → Inside fs p.scope t.span → Fits tracked fs root n (walk tracked p n t)
  | p, n, .node kind role s x children, hnode, hinside => by
      have hparts := parts_children hroot hnode
      by_cases hdepth : depthLimit < p.depth
      · rw [walk, if_pos hdepth]
        exact .empty
      -- One fact for each form that the walk over a node takes.
      have own : Fits tracked fs root n { events := ownEvents p (.node kind role s x children) } :=
        .ofEvents hinside (ownEvents_untracked p _)
      have outside : Fits tracked fs root n
          (({ events := ownEvents p (.node kind role s x children) } : Findings) ++
            walkAll tracked .allButBody p.below n children) :=
        own.append (walkAll_fits hroot .allButBody p.below n hparts hinside)
      have opened : ∀ {outer : Findings} {k : ScopeKind} {body : Tree} {es : List Event}
          {inner : Place}, Fits tracked fs root n outer →
          Tree.child? .body (.node kind role s x children) = some body →
          inner.scope = (n.after outer).scope → Untracked inner es →
          Fits tracked fs root n
            (outer ++ { frames := [⟨k, some p.scope, body.span⟩], events := es } ++
              walkBody tracked inner.below ((n.after outer).after
                { frames := [⟨k, some p.scope, body.span⟩], events := es }) children) := by
        intro outer k body es inner houter hbody hscope hes
        have hfound : children.find? (fun c => c.role = some .body) = some body := hbody
        have hrole : body.role = some .body := by simpa using List.find?_some hfound
        obtain ⟨hbodynode, hwithin⟩ := hparts body (List.mem_of_find?_eq_some hfound)
        rw [Findings.append_assoc]
        refine houter.append (.scope ⟨⟨p.scope, rfl, hinside.within hwithin⟩,
          ⟨body, hbodynode, rfl, .inl hrole⟩⟩ hscope hes fun hin => ?_)
        refine walkBody_fits hroot inner.below _ hparts fun body' hbody' => ?_
        rw [hfound] at hbody'
        cases hbody'
        show Inside fs inner.scope body.span
        rw [hscope]
        exact hin
      have comprehension : ∀ {es : List Event} {inner : Place},
          IsRegion (.node kind role s x children) → inner.scope = n.scope → Untracked inner es →
          Fits tracked fs root n
            (({ frames := [⟨.comprehension, some p.scope, s⟩], events := es } : Findings) ++
              walkAll tracked .all inner.below
                (n.after { frames := [⟨.comprehension, some p.scope, s⟩], events := es })
                children) := by
        intro es inner hregion hscope hes
        refine .scope ⟨⟨p.scope, rfl, hinside⟩, ⟨_, hnode, rfl, hregion⟩⟩ hscope hes fun hin => ?_
        rw [← hscope] at hin
        exact walkAll_fits hroot .all _ _ hparts hin
      have arms : Fits tracked fs root n
          (({ statements := 1 } : Findings) ++ walkArms tracked kind n.statement p.below
            (n.after { statements := 1 }) 1 children) :=
        .append (fun _ => ⟨fun _ h => (nomatch h), fun _ h => nomatch h⟩)
          (walkArms_fits hroot kind _ p.below _ 1 hparts hinside)
      rw [walk, if_neg hdepth]
      dsimp only
      split
      · refine .ofImports hnode hinside fun e he => ?_
        obtain ⟨c, hc, he⟩ := List.mem_flatMap.1 he
        exact ⟨importEvents_scope he, c, hc, .inl ⟨rfl, he⟩⟩
      · refine .ofImports hnode hinside fun e he => ?_
        obtain ⟨c, hc, he⟩ := List.mem_flatMap.1 he
        exact ⟨importFromEvents_scope he, c, hc, .inr ⟨rfl, he⟩⟩
      · split
        · exact outside
        · exact opened outside ‹_› rfl (untracked_names _ _ _)
      · split
        · exact outside
        · exact opened outside ‹_› rfl (untracked_names _ _ _)
      · split
        · exact outside
        · exact opened outside ‹_› rfl (.nil _)
      · exact comprehension (.inr (.inl rfl)) rfl (clauseEvents_untracked _ _)
      · exact comprehension (.inr (.inr (.inl rfl))) rfl (clauseEvents_untracked _ _)
      · exact comprehension (.inr (.inr (.inr (.inl rfl)))) rfl (clauseEvents_untracked _ _)
      · exact comprehension (.inr (.inr (.inr (.inr rfl)))) rfl (clauseEvents_untracked _ _)
      · exact arms
      · exact arms
      · exact arms
      · exact own.append (walkAll_fits hroot .all p.below n hparts hinside)

theorem walkAll_fits (hroot : g.Twin root root') : ∀ (selection : Selection) (p : Place)
    (n : Numbering) {s : Span} {ts : List Tree}, Parts root s ts → Inside fs p.scope s →
      Fits tracked fs root n (walkAll tracked selection p n ts)
  | selection, p, n, s, [], hparts, hinside => by
      rw [walkAll]
      exact .empty
  | selection, p, n, s, t :: rest, hparts, hinside => by
      obtain ⟨hnode, hwithin⟩ := hparts t List.mem_cons_self
      rw [walkAll]
      split
      · exact (walk_fits hroot p n hnode (hinside.within hwithin)).append
          (walkAll_fits hroot selection p _ hparts.tail hinside)
      · exact walkAll_fits hroot selection p n hparts.tail hinside

theorem walkBody_fits (hroot : g.Twin root root') : ∀ (p : Place) (n : Numbering) {s : Span}
    {ts : List Tree}, Parts root s ts → (∀ body, ts.find? (fun c => c.role = some .body) = some body →
      Inside fs p.scope body.span) → Fits tracked fs root n (walkBody tracked p n ts)
  | p, n, s, [], hparts, hbody => by
      rw [walkBody]
      exact .empty
  | p, n, s, t :: rest, hparts, hbody => by
      rw [walkBody]
      split
      · rename_i hrole
        exact walk_fits hroot p n (hparts t List.mem_cons_self).1
          (hbody t (List.find?_cons_of_pos (by simpa using hrole)))
      · rename_i hrole
        refine walkBody_fits hroot p n hparts.tail fun body hfound => hbody body ?_
        rw [List.find?_cons_of_neg (by simpa using hrole), hfound]

theorem walkArms_fits (hroot : g.Twin root root') : ∀ (kind : Kind) (statement : Nat) (p : Place)
    (n : Numbering) (next : Nat) {s : Span} {ts : List Tree}, Parts root s ts → Inside fs p.scope s →
      Fits tracked fs root n (walkArms tracked kind statement p n next ts)
  | kind, statement, p, n, next, s, [], hparts, hinside => by
      rw [walkArms]
      exact .empty
  | kind, statement, p, n, next, s, .node k role span text children :: rest, hparts, hinside => by
      obtain ⟨hnode, hwithin⟩ := hparts _ List.mem_cons_self
      have hspan := hinside.within hwithin
      rw [walkArms]
      refine .append ?_ (walkArms_fits hroot kind statement p _ _ hparts.tail hinside)
      split
      · exact walkCases_fits hroot statement p n 1 (parts_children hroot hnode) hspan
      · split
        · exact walk_fits hroot _ n hnode hspan
        · exact walk_fits hroot p n hnode hspan

theorem walkCases_fits (hroot : g.Twin root root') : ∀ (statement : Nat) (p : Place)
    (n : Numbering) (next : Nat) {s : Span} {ts : List Tree}, Parts root s ts → Inside fs p.scope s →
      Fits tracked fs root n (walkCases tracked statement p n next ts)
  | statement, p, n, next, s, [], hparts, hinside => by
      rw [walkCases]
      exact .empty
  | statement, p, n, next, s, .node k role span text children :: rest, hparts, hinside => by
      obtain ⟨hnode, hwithin⟩ := hparts _ List.mem_cons_self
      rw [walkCases]
      refine .append ?_ (walkCases_fits hroot statement p _ _ hparts.tail hinside)
      refine walk_fits hroot _ n hnode ?_
      split
      · exact hinside.within hwithin
      · exact hinside.within hwithin

end

end Walks

end Longhand.Scope
