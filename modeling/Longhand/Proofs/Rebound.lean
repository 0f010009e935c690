import Longhand.Proofs.ArmTrees
import Longhand.Proofs.Occurrence

/-!
# Names that are bound anew

A name that comes to stand for something that is not tracked no longer stands for what was imported
before.  The scan over the bindings of a scope stops at the new binding, since all bindings behind it
up to an offset in its arms were made in these arms too, and the scopes further inside hold bindings
that come later in the text.
-/

namespace Longhand.Scope

open Syntax Text

variable {tracked : Tracked.Set} {p : Place} {n : Numbering} {t u c id : Tree} {x : String}
  {s : Scopes} {v w : Visit} {offset made j k : Nat} {frame frame' : Frame} {scope inner : Scope}
  {e f latest : Event} {a : Arm} {b : Binding}

/-! ## The scopes that are looked at -/

/-- Whether a name at an offset is looked for in a scope.  The names of a class are those of its own
body only. -/
def Scopes.Reads (s : Scopes) (offset k : Nat) : Prop :=
  s.holds offset k = true ∧
    ((s.scopes[k]?).map (fun scope => scope.frame.kind) = some .classBody → s.scopeAt offset = k)

/-- Of two scopes that hold an offset, the region of the later one lies in that of the other. -/
theorem region_within_of_holds (ht : Ordered t) (hk : (resolve tracked t).holds offset k = true) :
    ∀ {j : Nat}, (resolve tracked t).holds offset j = true → k < j → ∀ {frame frame' : Frame},
      (framesOf tracked t)[k]? = some frame → (framesOf tracked t)[j]? = some frame' →
        frame'.region.Within frame.region := by
  intro j
  induction j using Nat.strongRecOn with
  | ind j ih =>
      intro hj hlt frame frame' hframe hframe'
      obtain ⟨outer, houter, hcontains⟩ := resolve_holds.1 hk
      obtain rfl : outer = frame := Option.some.inj (houter.symm.trans hframe)
      obtain ⟨parent, -, hparent, ⟨around, haround, hwithin⟩, hbetween⟩ :=
        parent_spec ht hframe' (by omega)
      have hcontains' : frame'.region.contains offset = true := by
        obtain ⟨inner, hinner, hcontains'⟩ := resolve_holds.1 hj
        rwa [Option.some.inj (hinner.symm.trans hframe')] at hcontains'
      rcases Nat.lt_trichotomy parent k with hparentk | rfl | hparentk
      · -- No scope between a scope and the one around it holds the offset.
        rw [(hbetween k outer hparentk hlt hframe).not_contains hcontains] at hcontains'
        cases hcontains'
      · rwa [Option.some.inj (haround.symm.trans hframe)] at hwithin
      · have hholds : (resolve tracked t).holds offset parent = true :=
          resolve_holds.2 ⟨around, haround, hwithin.contains hcontains'⟩
        exact hwithin.trans (ih parent hparent hholds hparentk hframe haround)

/-- What a name stands for is said by the bindings of a scope in which it is looked for, if one of
them is visible, or by those of a scope further inside. -/
theorem lookupFrom_cases (ht : Ordered t) (hk : (resolve tracked t).holds offset k = true)
    (hscope : (resolve tracked t).scopes[k]? = some scope)
    (hvisible : visible? scope.events x offset ≠ none) :
    ∀ (steps : Nat) (innermost : Bool) (i : Nat), k ≤ i →
      (resolve tracked t).holds offset i = true →
      (scope.frame.kind = .classBody → i = k ∧ innermost = true) →
      (resolve tracked t).lookupFrom x offset steps innermost i = some b →
        visible? scope.events x offset = some b ∨ ∃ j inner, k < j ∧
          (resolve tracked t).scopes[j]? = some inner ∧
          (resolve tracked t).holds offset j = true ∧ visible? inner.events x offset = some b
  | 0, _, _, _, _, _, h => by cases h
  | steps + 1, innermost, i, hle, hi, hclass, h => by
      obtain ⟨here, hhere, -⟩ := Scopes.holds_iff.1 hi
      rw [Scopes.lookupFrom, hhere] at h
      dsimp only at h
      -- The lookup stops in the scope that it has reached, or goes on to the scope around it, and
      -- between that one and `k` there is none that holds the offset.
      by_cases hik : i = k
      · subst hik
        obtain rfl : here = scope := Option.some.inj (hhere.symm.trans hscope)
        have hread : (innermost || decide (here.frame.kind ≠ .classBody)) = true := by
          by_cases hkind : here.frame.kind = .classBody
          · simp [(hclass hkind).2]
          · simp [hkind]
        obtain ⟨found, hfound⟩ := Option.ne_none_iff_exists'.1 hvisible
        rw [if_pos hread, hfound] at h
        exact .inl (hfound.trans h)
      · have hnot : scope.frame.kind ≠ .classBody := fun hkind => hik (hclass hkind).1
        split at h
        · rename_i found hfound
          cases h
          split at hfound
          · exact .inr ⟨i, here, by omega, hhere, hi, hfound⟩
          · cases hfound
        · rename_i parent hnone hparent
          have hlt : k < i := by omega
          rcases holds_cases ht hi with ⟨hzero, -⟩ | ⟨around, haround, -, hholds, hbetween⟩
          · omega
          · rw [Scopes.parent?, hhere, Option.bind_some, hparent] at haround
            obtain rfl : parent = around := Option.some.inj haround
            have hle' : k ≤ parent := by
              by_contra hgt
              rw [hbetween k (by omega) hlt] at hk
              cases hk
            exact lookupFrom_cases ht hk hscope hvisible steps false parent hle' hholds
              (fun hkind => absurd hkind hnot) h
        · cases h

theorem Scopes.Reads.cases (ht : Ordered t) (hreads : (resolve tracked t).Reads offset k)
    (hscope : (resolve tracked t).scopes[k]? = some scope)
    (hvisible : visible? scope.events x offset ≠ none)
    (h : (resolve tracked t).lookup x offset = some b) :
    visible? scope.events x offset = some b ∨ ∃ j inner, k < j ∧
      (resolve tracked t).scopes[j]? = some inner ∧
      (resolve tracked t).holds offset j = true ∧ visible? inner.events x offset = some b := by
  obtain ⟨hk, hclass⟩ := hreads
  obtain ⟨hholds, hlast⟩ := Scopes.scopeAt_spec hk
  refine lookupFrom_cases ht hk hscope hvisible _ true _ ?_ hholds (fun hkind => ⟨?_, rfl⟩) h
  · by_contra hlt
    rw [hlast k (by omega)] at hk
    cases hk
  · exact hclass (by rw [hscope, Option.map_some, hkind])

/-! ## Bindings of scopes further inside -/

/-- A tracked binding is made behind the start of its scope. -/
theorem start_lt_of_tracked (ht : Sourced t) (hinner : (resolve tracked t).scopes[j]? = some inner)
    (he : e ∈ inner.events) (htracked : e.binding.isTracked = true) :
    inner.frame.region.start < e.offset := by
  obtain ⟨g, t', htwin⟩ := ht.twin
  have hsane : Sane tracked (framesOf tracked t) t ((wholeVisit t).found tracked) :=
    walk_sane htwin
  obtain ⟨hmem, hj⟩ := (mem_scope_events hinner).1 he
  obtain ⟨frame, hframe, himported⟩ := hsane.events e hmem
  have heq : inner.frame = frame := by
    rw [resolve_getElem?, ← hj, hframe] at hinner
    cases hinner
    rfl
  obtain ⟨u, hu, hwithin, c, hc, q, hevent⟩ := himported htracked
  have hsourced := ht.node hu
  have hbehind : Behind u e.offset := by
    rcases hevent with ⟨hkind, hevent⟩ | ⟨hkind, hevent⟩
    · have hmade : e ∈ importedEvents tracked q u := by
        unfold importedEvents
        rw [hkind]
        exact List.mem_flatMap.2 ⟨c, hc, hevent⟩
      exact importedEvents_behind hsourced (by rw [hkind]; rfl) hmade
    · have hmade : e ∈ importedEvents tracked q u := by
        unfold importedEvents
        rw [hkind]
        exact List.mem_flatMap.2 ⟨c, hc, hevent⟩
      exact importedEvents_behind hsourced (by rw [hkind]; rfl) hmade
  have hstart := hwithin.start
  have hlt := (hbehind.bounds hsourced).1
  rw [heq]
  omega

/-- A node that opens a scope over its body makes its own binding behind it. -/
theorem opened_stop_le (ht : Sourced t) (he : e ∈ (course tracked p n t).own)
    (hopened : Opened tracked p n t frame) : frame.region.stop ≤ e.offset := by
  have hstop : e.offset = t.span.stop := by
    have hpos := hopened.pos
    -- Only a definition with a body both binds a name of its own and opens a scope.
    rcases course_opens tracked p n t with ⟨hframes, -⟩ | ⟨-, hcourse⟩ | ⟨k, b, hk, hb, hcourse⟩
    · rw [hframes] at hpos
      cases hpos
    · rw [hcourse] at he
      cases he
    · rw [hcourse] at he
      simp only [bodyCourse, hb] at he
      rcases ownEvents_offset ht he with ⟨hoffset, -⟩ | ⟨left, right, rest, hkind, -⟩
      · exact hoffset
      · rw [hkind] at hk
        cases hk
  have hwithin := hopened.within.stop
  omega

/-- Each scope behind that of a node that holds an offset behind a binding of the node begins behind
the binding too. -/
theorem offset_le_region (ht : Sourced t) (hv : Visited tracked t v)
    (he : e ∈ (course tracked v.place v.numbering v.tree).own) (hj : v.place.scope < j)
    (hframe : (framesOf tracked t)[j]? = some frame)
    (hcontains : frame.region.contains offset = true) (hle : e.offset ≤ offset) :
    e.offset ≤ frame.region.start := by
  have hsourced := ht.node hv.isNode
  obtain ⟨hlow, hhigh⟩ := Span.contains_iff.1 hcontains
  obtain ⟨hstart, hstop⟩ := (own_at hsourced he).2.bounds hsourced
  by_cases hnumbers : v.Numbers tracked j
  · rcases numbers_cases hsourced.ordered hnumbers with ⟨w, hw, hnumbers⟩ | ⟨rfl, f, hopened⟩
    · have hwithin := (hv.next hw).region_within ht.ordered hnumbers hframe
      have hwithinStart := hwithin.start
      have hwithinStop := hwithin.stop
      rcases own_outside hsourced he hw with hbefore | hbehind
      · omega
      · omega
    · obtain rfl : f = frame := Option.some.inj ((hv.opened hopened).symm.trans hframe)
      have := opened_stop_le hsourced he hopened
      omega
  · rcases hv.region_apart ht.ordered hj hnumbers hframe with hbefore | hbehind
    · omega
    · omega

/-! ## The scan in a scope -/

/-- A tracked binding that decides was made later than an untracked one that is visible, if the latest
one was made in no other arm than that, and that one alone does not let earlier ones outlast it. -/
theorem exists_newer (hscope : scope ∈ (resolve tracked t).scopes) (hf : f ∈ scope.events)
    (hname : f.name = x) (hle : f.offset ≤ offset) (huntracked : f.binding.isTracked = false)
    (hlatest : ∀ latest ∈ (visibleEvents scope.events x offset).head?,
      divergingArm? latest.arms f.arms = none)
    (holder : ∀ e ∈ scope.events, e.offset ≤ f.offset → ∀ a,
      divergingArm? f.arms e.arms = some a → a.region.contains offset = true)
    (h : visible? scope.events x offset = some b) (htracked : b.isTracked = true) :
    ∃ e ∈ scope.events, e.name = x ∧ e.binding = b ∧ e.offset ≤ offset ∧
      ∀ older newer, scope.events = older ++ f :: newer → e ∈ newer := by
  rw [visible?_eq] at h
  obtain ⟨⟨later, e⟩, hdeciding, rfl⟩ := Option.map_eq_some_iff.1 h
  obtain ⟨⟨rest, hvisible⟩, hlater⟩ := deciding?_eq_some hdeciding
  have horder : (visibleEvents scope.events x offset).Pairwise fun e f => f.offset ≤ e.offset :=
    visibleEvents_pairwise hscope
  obtain ⟨he, hename, heoffset⟩ := mem_visibleEvents.1
    (show e ∈ visibleEvents scope.events x offset by rw [hvisible]; simp)
  have hne : e ≠ f := by
    rintro rfl
    rw [huntracked] at htracked
    cases htracked
  -- The untracked binding does not stand in front of the one that decides.
  have hnot : f ∉ later := by
    intro hmem
    rcases hlater with rfl | ⟨latest, between, rfl, -, -, hall⟩
    · cases hmem
    · rw [hvisible] at hlatest horder
      rcases List.mem_cons.1 hmem with rfl | hmem
      · obtain ⟨a, ha, hout⟩ := hall e (by simp)
        have hle := (List.pairwise_cons.1 horder).1 e (by simp)
        rw [holder e he hle a ha] at hout
        cases hout
      · obtain ⟨a, ha, -⟩ := hall f (List.mem_append_left _ hmem)
        rw [hlatest latest rfl] at ha
        cases ha
  refine ⟨e, he, hename, rfl, heoffset, fun older newer hevents => ?_⟩
  have hsplit : visibleEvents scope.events x offset =
      newer.reverse.filter (fun e => e.name == x && e.offset ≤ offset) ++
        f :: older.reverse.filter (fun e => e.name == x && e.offset ≤ offset) := by
    unfold visibleEvents
    rw [hevents]
    simp [hname, hle]
  rw [hvisible] at hsplit
  rcases List.append_eq_append_iff.1 hsplit with ⟨m, hnewer, hrest⟩ | ⟨m, heq, hrest⟩
  · cases m with
    | nil => exact absurd (List.cons.inj hrest).1 hne
    | cons g m =>
        obtain ⟨rfl, -⟩ := List.cons.inj hrest
        have hmem : e ∈ newer.reverse.filter fun e => e.name == x && e.offset ≤ offset := by
          rw [hnewer]
          simp
        exact List.mem_reverse.1 (List.mem_filter.1 hmem).1
  · cases m with
    | nil => exact absurd (List.cons.inj hrest).1.symm hne
    | cons g m =>
        obtain ⟨rfl, -⟩ := List.cons.inj hrest
        exact absurd (by rw [heq]; simp) hnot

/-! ## Occurrences are not missed -/

/-- The scope with the number of a frame. -/
theorem exists_scope (hframe : (framesOf tracked t)[k]? = some frame) :
    ∃ scope, (resolve tracked t).scopes[k]? = some scope ∧ scope.frame = frame := by
  rw [resolve_getElem?, hframe]
  exact ⟨_, rfl, rfl⟩

theorem visible?_ne_none (hf : f ∈ scope.events) (hname : f.name = x) (hle : f.offset ≤ offset) :
    visible? scope.events x offset ≠ none := by
  have hmem : f ∈ visibleEvents scope.events x offset := mem_visibleEvents.2 ⟨hf, hname, hle⟩
  rw [visible?_eq, deciding?]
  split
  · rename_i hnil
    rw [hnil] at hmem
    cases hmem
  · split <;> simp

/-- What a tracked binding of a scope further inside is. -/
theorem exists_inner (ht : Sourced t) (hinner : (resolve tracked t).scopes[j]? = some inner)
    (hvisible : visible? inner.events x offset = some b) (htracked : b.isTracked = true) :
    ∃ e ∈ inner.events, e.name = x ∧ e.binding = b ∧ e.offset ≤ offset ∧
      inner.frame.region.start < e.offset := by
  rw [visible?_eq] at hvisible
  obtain ⟨⟨newer, e⟩, hdeciding, rfl⟩ := Option.map_eq_some_iff.1 hvisible
  obtain ⟨⟨older, holder⟩, -⟩ := deciding?_eq_some hdeciding
  obtain ⟨he, hname, hle⟩ := mem_visibleEvents.1
    (show e ∈ visibleEvents inner.events x offset by rw [holder]; simp)
  exact ⟨e, he, hname, rfl, hle, start_lt_of_tracked ht hinner he htracked⟩

/-- Whether what a tracked name stands for was bound after an untracked binding of a scope. -/
def After (s : Scopes) (scope : Scope) (f : Event) (x : String) (offset : Nat) (b : Binding) :
    Prop :=
  ∃ home ∈ s.scopes, ∃ e ∈ home.events, e.name = x ∧ e.binding = b ∧ e.offset ≤ offset ∧
    (f.offset < e.offset ∨ ∀ older newer, scope.events = older ++ f :: newer → e ∈ newer)

/-- An occurrence that binds a name in the scope of its node is recorded there, and no tracked
binding made before it is found behind it. -/
theorem Rebinds.seen (ht : Sourced t) (hv : Visited tracked t v)
    (hdepth : v.place.depth ≤ depthLimit) (h : Rebinds tracked s x v.tree id made) :
    ∃ scope f, (resolve tracked t).scopes[v.place.scope]? = some scope ∧ f ∈ scope.events ∧
      f.name = x ∧ f.offset = made ∧ f.binding = .untracked ∧
        ∀ offset, made ≤ offset → (resolve tracked t).Reads offset v.place.scope →
          (InArms t v.tree offset ∨ (InArmsOrTried t v.tree offset ∧
            (visibleEvents scope.events x offset).head? = some f)) →
          ∀ b, (resolve tracked t).lookup x offset = some b → b.isTracked = true →
            After (resolve tracked t) scope f x offset b := by
  have hsourced := ht.node hv.isNode
  have hown : v.place.event x made .untracked ∈ (course tracked v.place v.numbering v.tree).own :=
    h.mem_own hdepth
  have hbounds : v.tree.span.start < made := ((own_at hsourced hown).2.bounds hsourced).1
  obtain ⟨frame, hframe, -⟩ := hv.inside ht.ordered
  obtain ⟨scope, hscope, -⟩ := exists_scope hframe
  have hmem := List.mem_of_getElem? hscope
  have hfound : v.place.event x made .untracked ∈ ((wholeVisit t).found tracked).events :=
    hv.mem_events (mem_walk_events.2 (.inl hown))
  have hf : v.place.event x made .untracked ∈ scope.events :=
    (mem_scope_events hscope).2 ⟨hfound, rfl⟩
  refine ⟨scope, _, hscope, hf, rfl, rfl, rfl, fun offset hle hreads harms b hlookup htracked => ?_⟩
  rcases hreads.cases ht.ordered hscope (visible?_ne_none hf rfl hle) hlookup with
    hvisible | ⟨j, inner, hj, hinner, hholds, hvisible⟩
  · have hlatest : ∀ latest ∈ (visibleEvents scope.events x offset).head?,
        divergingArm? latest.arms v.place.arms = none := by
      intro latest hlatest
      rcases harms with harms | ⟨-, hhead⟩
      · -- The latest binding comes after this one, and so it was made in its arms.
        obtain ⟨hlatestMem, -, hlatestOffset⟩ :=
          mem_visibleEvents.1 (List.mem_of_mem_head? hlatest)
        have hlow : made ≤ latest.offset :=
          offset_le_of_head hmem hlatest (mem_visibleEvents.2 ⟨hf, rfl, hle⟩)
        exact diverging_of_later ht hv harms hbounds ((mem_scope_events hscope).1 hlatestMem).1 hlow
          hlatestOffset
      · rw [hhead] at hlatest
        cases hlatest
        have hself := divergingArm?_extension v.place.arms []
        rwa [List.append_nil] at hself
    have holder : ∀ e ∈ scope.events, e.offset ≤ made → ∀ a,
        divergingArm? v.place.arms e.arms = some a → a.region.contains offset = true := by
      intro e he hbefore a ha
      obtain ⟨hemem, hescope⟩ := (mem_scope_events hscope).1 he
      exact contains_of_diverging ht hv (harms.elim InArms.orTried fun h => h.1) hfound rfl hemem
        hescope hbefore ha
    obtain ⟨e, he, hname, hbinding, heoffset, hnewer⟩ :=
      exists_newer hmem hf rfl hle rfl hlatest holder hvisible htracked
    exact ⟨scope, hmem, e, he, hname, hbinding, heoffset, .inr hnewer⟩
  · -- A scope further inside begins behind the occurrence.
    obtain ⟨frame', hframe', hcontains⟩ := resolve_holds.1 hholds
    obtain ⟨inner', hinner', rfl⟩ := exists_scope hframe'
    obtain rfl : inner' = inner := Option.some.inj (hinner'.symm.trans hinner)
    obtain ⟨e, he, hname, hbinding, heoffset, hlt⟩ := exists_inner ht hinner hvisible htracked
    have hregion := offset_le_region ht hv hown hj hframe' hcontains hle
    exact ⟨inner', List.mem_of_getElem? hinner, e, he, hname, hbinding, heoffset,
      .inl (Nat.lt_of_le_of_lt hregion hlt)⟩

/-- A name that is bound where a scope is opened hides all tracked bindings made before that scope
begins. -/
theorem Opens.seen {region : Span} (ht : Sourced t) (hv : Visited tracked t v)
    (hdepth : v.place.depth ≤ depthLimit) (h : Opens x v.tree region)
    (hoffset : region.contains offset = true)
    (hlookup : (resolve tracked t).lookup x offset = some b) (htracked : b.isTracked = true) :
    ∃ home ∈ (resolve tracked t).scopes, ∃ e ∈ home.events, e.name = x ∧ e.binding = b ∧
      e.offset ≤ offset ∧ region.start < e.offset := by
  obtain ⟨frame, f, hframes, rfl, hkind, hf, hname, hstart, -⟩ :=
    h.opened tracked v.place v.numbering hdepth
  obtain ⟨-, hfscope, hpos, -⟩ := opened_at (ht.node hv.isNode) hf
  have hopened := opened_of_frames (hv.ordered ht.ordered) hframes
  have hframe := hv.opened hopened
  obtain ⟨scope, hscope, rfl⟩ := exists_scope hframe
  have hmem : f ∈ scope.events :=
    (mem_scope_events hscope).2 ⟨hv.mem_events (mem_walk_events.2 (.inr (.inl hf))), hfscope⟩
  have hholds := resolve_holds.2 ⟨_, hframe, hoffset⟩
  have hreads : (resolve tracked t).Reads offset
      (fresh tracked v.place v.numbering v.tree) := by
    refine ⟨hholds, fun hclass => ?_⟩
    rw [hscope, Option.map_some] at hclass
    exact absurd (Option.some.inj hclass) hkind
  have hle : f.offset ≤ offset := by
    have := (Span.contains_iff.1 hoffset).1
    omega
  rcases hreads.cases ht.ordered hscope (visible?_ne_none hmem hname hle) hlookup with
    hvisible | ⟨j, inner, hj, hinner, hinnerHolds, hvisible⟩
  · obtain ⟨e, he, hename, hbinding, heoffset, hlt⟩ := exists_inner ht hscope hvisible htracked
    exact ⟨scope, List.mem_of_getElem? hscope, e, he, hename, hbinding, heoffset, hlt⟩
  · obtain ⟨e, he, hename, hbinding, heoffset, hlt⟩ := exists_inner ht hinner hvisible htracked
    obtain ⟨frame', hframe', -⟩ := resolve_holds.1 hinnerHolds
    obtain ⟨inner', hinner', rfl⟩ := exists_scope hframe'
    obtain rfl : inner' = inner := Option.some.inj (hinner'.symm.trans hinner)
    have hwithin := (region_within_of_holds ht.ordered hholds hinnerHolds hj hframe hframe').start
    exact ⟨inner', List.mem_of_getElem? hinner, e, he, hename, hbinding, heoffset, by omega⟩

mutual

/-- The nodes of a tree, the tree itself first. -/
def nodes : Tree → List Tree
  | .node kind role span text children =>
      .node kind role span text children :: nodesIn children

def nodesIn : List Tree → List Tree
  | [] => []
  | t :: rest => nodes t ++ nodesIn rest

end

theorem nodes_eq (t : Tree) : nodes t = t :: nodesIn t.children := by
  cases t
  rw [nodes]
  rfl

theorem nodesIn_eq (ts : List Tree) : nodesIn ts = ts.flatMap nodes := by
  induction ts with
  | nil => rfl
  | cons t rest ih => rw [nodesIn, ih, List.flatMap_cons]

theorem mem_nodes (h : IsNode u t) : u ∈ nodes t := by
  induction h with
  | self =>
      rw [nodes_eq]
      exact List.mem_cons_self
  | inside hc _ ih =>
      rw [nodes_eq, nodesIn_eq]
      exact List.mem_cons_of_mem _ (List.mem_flatMap.2 ⟨_, hc, ih⟩)

/-- The search arrives at all nodes of a tree that has few of them. -/
theorem searched_of_mem_nodes {t : Tree} {depth : Nat} (h : u ∈ nodes t)
    (hfew : depth + (nodes t).length ≤ depthLimit) : Searched u depth t := by
  rw [nodes_eq, nodesIn_eq] at h hfew
  rw [List.length_cons] at hfew
  rcases List.mem_cons.1 h with rfl | h
  · exact .here (by omega)
  · obtain ⟨c, hc, h⟩ := List.mem_flatMap.1 h
    have hle : (nodes c).length ≤ (t.children.flatMap nodes).length := by
      obtain ⟨before, behind, hcs⟩ := List.append_of_mem hc
      rw [hcs]
      simp only [List.flatMap_append, List.flatMap_cons, List.length_append]
      omega
    have _ := sizeOf_child hc
    exact .inside (by omega) hc (searched_of_mem_nodes h (by omega))
termination_by sizeOf t

/-- A name that is bound by a starred target in an arm, and imported again behind that. -/
def reimported : List Char :=
  ("from maya import cmds\nif a:\n    [b, *cmds] = c\n    from maya import cmds\n" ++
    "    X\n").toList

/-- A pattern that captures the name of an import. -/
def captured : List Char :=
  "from maya import cmds\nmatch x:\n    case cmds:\n        X\n".toList

/-- An assignment expression in a comprehension, with a name behind it. -/
def bindingComprehension : List Char :=
  "from maya import cmds\n[cmds := f(y) for y in z]\nX\n".toList

end Longhand.Scope
