import Longhand.Proofs.Route
import Longhand.Proofs.Sibling

/-!
# Where names are bound anew

The places of a program at which a name comes to stand for something that is not tracked.  A statement
or an expression binds a name in the scope that it stands in, and a parameter or the target of a
comprehension is bound in the scope that is opened there.  The walk records all of them.
-/

namespace Longhand.Scope

open Syntax Text

variable {tracked : Tracked.Set} {p : Place} {n : Numbering} {t u c id : Tree} {x : String}
  {s : Scopes} {v w : Visit} {offset made k : Nat} {frame : Frame}

/-! ## Targets and parameters -/

/-- Whether nodes of a kind bind what their children bind as targets. -/
def isGroup : Kind → Bool
  | .patternList | .tuplePattern | .listPattern | .expressionList | .tuple | .list
  | .parenthesizedExpression | .listSplatPattern | .listSplat | .asPatternTarget => true
  | _ => false

/-- Whether a target binds a name at one of its nodes.  Targets may be starred, and nested as deep as
they like. -/
inductive Target (x : String) (id : Tree) : Tree → Prop
  | name : id.kind = .identifier → id.text = x → Target x id id
  | inside {t c : Tree} : isGroup t.kind = true → c ∈ t.children → Target x id c → Target x id t

theorem Target.isNode (h : Target x id t) : IsNode id t := by
  induction h with
  | name => exact .self
  | inside _ hc _ ih => exact .inside hc ih

theorem Target.identifier (h : Target x id t) : id.kind = .identifier := by
  induction h with
  | name hkind _ => exact hkind
  | inside _ _ _ ih => exact ih

theorem targetNames_of_group (h : isGroup t.kind = true) :
    targetNames t = targetNamesIn t.children := by
  obtain ⟨kind, role, span, text, children⟩ := t
  unfold isGroup at h
  split at h
  all_goals first
    | rename_i hkind
      change kind = _ at hkind
      subst hkind
      rfl
    | cases h

theorem mem_targetNamesIn {ts : List Tree} :
    x ∈ targetNamesIn ts ↔ ∃ t ∈ ts, x ∈ targetNames t := by
  induction ts with
  | nil => simp [targetNamesIn]
  | cons t rest ih => simp [targetNamesIn, ih]

/-- The names that are collected from a target include all that it binds. -/
theorem Target.mem (h : Target x id t) : x ∈ targetNames t := by
  induction h with
  | name hkind htext =>
      obtain ⟨kind, role, span, text, children⟩ := id
      cases hkind
      exact List.mem_singleton.2 htext.symm
  | inside hgroup hc _ ih =>
      rw [targetNames_of_group hgroup]
      exact mem_targetNamesIn.2 ⟨_, hc, ih⟩

def isStarred : Kind → Bool
  | .listSplatPattern | .dictionarySplatPattern => true
  | _ => false

/-- Whether a parameter binds a name. -/
inductive Parameter (x : String) (t : Tree) : Prop
  | plain : t.kind = .identifier → t.text = x → Parameter x t
  | preset {name id : Tree} : t.kind = .defaultParameter ∨ t.kind = .typedDefaultParameter →
      t.child? .name = some name → Target x id name → Parameter x t
  | typed {c : Tree} : t.kind = .typedParameter → c ∈ t.children → c.role ≠ some .type →
      c.kind = .identifier → c.text = x → Parameter x t
  | typedStar {c id : Tree} : t.kind = .typedParameter → c ∈ t.children → c.role ≠ some .type →
      isStarred c.kind = true → id ∈ c.children → id.kind = .identifier → id.text = x →
      Parameter x t
  | star {id : Tree} : isStarred t.kind = true → id ∈ t.children → id.kind = .identifier →
      id.text = x → Parameter x t
  | nested {id : Tree} : t.kind = .tuplePattern → Target x id t → Parameter x t

theorem mem_splatNames (hc : c ∈ t.children) (hkind : c.kind = .identifier) (htext : c.text = x) :
    x ∈ splatNames t :=
  List.mem_map.2 ⟨c, List.mem_filter.2 ⟨hc, by simp [hkind]⟩, htext⟩

theorem starred_cases {k : Kind} (h : isStarred k = true) :
    k = .listSplatPattern ∨ k = .dictionarySplatPattern := by
  unfold isStarred at h
  split at h
  · exact .inl rfl
  · exact .inr rfl
  · cases h

theorem Parameter.mem (h : Parameter x t) : x ∈ parameterNames t := by
  unfold parameterNames
  cases h with
  | plain hkind htext => simp [hkind, htext]
  | preset hkind hname htarget =>
      rcases hkind with hkind | hkind <;> simp [hkind, hname, htarget.mem]
  | typed hkind hc hrole hname htext =>
      rw [hkind]
      refine List.mem_flatMap.2 ⟨_, List.mem_filter.2 ⟨hc, by simpa using hrole⟩, ?_⟩
      simp [hname, htext]
  | typedStar hkind hc hrole hstar hid hname htext =>
      rw [hkind]
      refine List.mem_flatMap.2 ⟨_, List.mem_filter.2 ⟨hc, by simpa using hrole⟩, ?_⟩
      have hmem := mem_splatNames hid hname htext
      rcases starred_cases hstar with hkind | hkind <;> simpa [hkind] using hmem
  | star hstar hid hname htext =>
      have hmem := mem_splatNames hid hname htext
      rcases starred_cases hstar with hkind | hkind <;> simpa [hkind] using hmem
  | nested hkind htarget => simpa [hkind] using htarget.mem

/-! ## Occurrences -/

/-- Whether a dotted path is neither that of a tracked module nor on the way to one. -/
def Foreign (tracked : Tracked.Set) (path : String) : Prop :=
  tracked.find? path = none ∧ tracked.hasPackage path = false

/-- Whether a node binds a name to something that is not tracked in the scope that a part of the node
stands in, from an offset on.  The names in the patterns of a `case` are not among these, and neither
is a name that an assignment expression binds inside a comprehension, nor an import of a feature. -/
inductive Rebinds (tracked : Tracked.Set) (s : Scopes) (x : String) (u : Tree) : Tree → Nat → Prop
  /-- An assignment, an annotated or an augmented one takes effect behind the whole of it. -/
  | assigned {target id : Tree} : u.kind = .assignment ∨ u.kind = .augmentedAssignment →
      u.child? .left = some target → Target x id target → Rebinds tracked s x u id u.span.stop
  /-- The targets of a loop are bound behind what it runs over. -/
  | looped {target iterable id : Tree} : u.kind = .forStatement →
      u.child? .left = some target → u.child? .right = some iterable → Target x id target →
      Rebinds tracked s x u id iterable.span.stop
  /-- An item of a `with` statement or the exception of a handler gets a name. -/
  | aliased {target id : Tree} : u.kind = .asPattern → u.child? .alias = some target →
      Target x id target → Rebinds tracked s x u id u.span.stop
  | walrus {target id : Tree} : u.kind = .namedExpression → u.child? .name = some target →
      Target x id target → (s.scopes[s.scopeAt id.span.start]?).map (fun scope => scope.frame.kind)
        ≠ some .comprehension → Rebinds tracked s x u id u.span.stop
  | defined {id : Tree} : u.kind = .functionDefinition ∨ u.kind = .classDefinition →
      u.child? .name = some id → id.text = x → Rebinds tracked s x u id u.span.stop
  | imported {item : Tree} {rest : List String} : u.kind = .importStatement →
      item ∈ u.childrenIn .name → item.kind = .dottedName → segments? item = some (x :: rest) →
      tracked.hasPackage x = false → Rebinds tracked s x u u u.span.stop
  | renamed {item path other : Tree} {names : List String} : u.kind = .importStatement →
      item ∈ u.childrenIn .name → item.kind = .aliasedImport → item.child? .name = some path →
      segments? path = some names → item.child? .alias = some other → other.text = x →
      Foreign tracked (dotted names) → Rebinds tracked s x u u u.span.stop
  /-- What comes from a relative module is never tracked. -/
  | member {item : Tree} {name : String} : u.kind = .importFromStatement →
      item ∈ u.childrenIn .name → Brings item name x →
      (∀ origin, originPath? u = some origin → tracked.find? origin = none ∧
        Foreign tracked (origin ++ "." ++ name)) → Rebinds tracked s x u u u.span.stop

/-- Whether a node binds a name in the scope that it opens over a region. -/
inductive Opens (x : String) (u : Tree) : Span → Prop
  | parameter {parameters parameter body : Tree} :
      u.kind = .functionDefinition ∨ u.kind = .lambda → u.child? .parameters = some parameters →
      parameter ∈ parameters.children → Parameter x parameter → u.child? .body = some body →
      Opens x u body.span
  | target {clause target id : Tree} : isComprehension u.kind = true → clause ∈ u.children →
      clause.kind = .forInClause → clause.child? .left = some target → Target x id target →
      Opens x u u.span

/-! ## Recorded bindings -/

/-- The bindings that a node makes by itself, if it is no statement of a special kind. -/
theorem course_own (hdepth : p.depth ≤ depthLimit) (himport : isImport t.kind = false)
    (hcomprehension : isComprehension t.kind = false) (hbranch : isBranching t.kind = false) :
    (course tracked p n t).own = ownEvents p t := by
  cases hover : scopeOver? t.kind with
  | some k =>
      rw [course_scope hover hdepth]
      unfold bodyCourse
      dsimp only
      split <;> rfl
  | none => rw [course_plain himport hcomprehension hbranch hover hdepth]

theorem mem_untracked_of_mem {names : List String} (h : x ∈ names) :
    p.event x offset .untracked ∈ p.untracked offset names :=
  List.mem_map.2 ⟨x, h, rfl⟩

theorem importedEvents_of_item {e : Event} {item : Tree} (hu : u.kind = .importStatement)
    (hitem : item ∈ u.childrenIn .name)
    (h : importEvents tracked p u.span.stop item = [e]) : e ∈ importedEvents tracked p u := by
  unfold importedEvents
  rw [hu]
  exact List.mem_flatMap.2 ⟨item, hitem, by rw [h]; exact List.mem_singleton.2 rfl⟩

/-- The binding that an item of a statement brings, imported from a module or a relative one. -/
theorem importFromEvents_of_foreign {item : Tree} {origin : Option String} {name : String}
    (hitem : Brings item name x) (horigin : ∀ path, origin = some path →
      tracked.find? path = none ∧ Foreign tracked (path ++ "." ++ name)) :
    importFromEvents tracked p offset origin item = [p.event x offset .untracked] := by
  have hmember : ∀ path, origin = some path → memberBinding tracked path name = .untracked := by
    intro path hpath
    obtain ⟨hnone, hfind, hpackage⟩ := horigin path hpath
    simp [memberBinding, hfind, hnone, hpackage]
  unfold importFromEvents
  cases origin with
  | none =>
      cases hitem with
      | plain hkind => simp only [hkind]
      | renamed hkind himported hother => simp only [hkind, himported, hother]
  | some path =>
      cases hitem with
      | plain hkind => simp only [hkind, hmember path rfl]
      | renamed hkind himported hother =>
          simp only [hkind, himported, hother, hmember path rfl]

/-- Each occurrence that binds a name is recorded where it takes effect. -/
theorem Rebinds.mem_own (h : Rebinds tracked s x u id made) (hdepth : p.depth ≤ depthLimit) :
    p.event x made .untracked ∈ (course tracked p n u).own := by
  -- The walk takes the bindings of a node over as they are, and those of an import with their paths.
  have own : isImport u.kind = false → isComprehension u.kind = false →
      isBranching u.kind = false → p.event x made .untracked ∈ ownEvents p u →
      p.event x made .untracked ∈ (course tracked p n u).own := by
    intro himport hcomprehension hbranch hmem
    rw [course_own hdepth himport hcomprehension hbranch]
    exact hmem
  have imports : isImport u.kind = true → p.event x made .untracked ∈ importedEvents tracked p u →
      p.event x made .untracked ∈ (course tracked p n u).own := by
    intro himport hmem
    rw [course_import himport hdepth]
    exact hmem
  cases h with
  | assigned hkind hleft htarget =>
      rcases hkind with hkind | hkind
      all_goals
        apply own (by rw [hkind]; rfl) (by rw [hkind]; rfl) (by rw [hkind]; rfl)
        simp only [ownEvents, hkind, hleft]
        exact mem_untracked_of_mem htarget.mem
  | looped hkind hleft hright htarget =>
      apply own (by rw [hkind]; rfl) (by rw [hkind]; rfl) (by rw [hkind]; rfl)
      simp only [ownEvents, hkind, hleft, hright, Option.getD_some]
      exact mem_untracked_of_mem htarget.mem
  | aliased hkind halias htarget =>
      apply own (by rw [hkind]; rfl) (by rw [hkind]; rfl) (by rw [hkind]; rfl)
      simp only [ownEvents, hkind, halias]
      exact mem_untracked_of_mem htarget.mem
  | walrus hkind hname htarget =>
      apply own (by rw [hkind]; rfl) (by rw [hkind]; rfl) (by rw [hkind]; rfl)
      simp only [ownEvents, hkind, hname]
      exact mem_untracked_of_mem htarget.mem
  | defined hkind hname htext =>
      rcases hkind with hkind | hkind
      all_goals
        apply own (by rw [hkind]; rfl) (by rw [hkind]; rfl) (by rw [hkind]; rfl)
        simp only [ownEvents, hkind, hname, htext, List.mem_singleton]
  | imported hkind hitem hdotted hsegments hpackage =>
      apply imports (by rw [hkind]; rfl)
      apply importedEvents_of_item hkind hitem
      simp [importEvents, hdotted, hsegments, hpackage]
  | renamed hkind hitem haliased hname hsegments hother htext hforeign =>
      apply imports (by rw [hkind]; rfl)
      apply importedEvents_of_item hkind hitem
      simp [importEvents, haliased, hname, hother, hsegments, htext, pathBinding, hforeign.1,
        hforeign.2]
  | member hkind hitem hbrings hforeign =>
      apply imports (by rw [hkind]; rfl)
      unfold importedEvents
      rw [hkind]
      refine List.mem_flatMap.2 ⟨_, hitem, ?_⟩
      rw [importFromEvents_of_foreign hbrings hforeign]
      exact List.mem_singleton.2 rfl

/-- Each name that is bound where a scope is opened is recorded at the start of the scope. -/
theorem Opens.opened {region : Span} (tracked : Tracked.Set) (p : Place) (n : Numbering)
    (h : Opens x u region) (hdepth : p.depth ≤ depthLimit) :
    ∃ frame e, (course tracked p n u).opened.frames = [frame] ∧ frame.region = region ∧
      frame.kind ≠ .classBody ∧ e ∈ (course tracked p n u).opened.events ∧ e.name = x ∧
        e.offset = region.start ∧ e.binding = .untracked := by
  cases h with
  | @parameter parameters parameter body hkind hparameters hmem hparameter hbody =>
      have hnames : x ∈ bodyNames u := by
        unfold bodyNames
        rw [if_neg (by rcases hkind with hkind | hkind <;> simp [hkind]), hparameters]
        exact List.mem_flatMap.2 ⟨_, hmem, hparameter.mem⟩
      have hover : scopeOver? u.kind = some .function := by
        rcases hkind with hkind | hkind <;> rw [hkind] <;> rfl
      rw [course_scope hover hdepth]
      unfold bodyCourse
      rw [hbody]
      exact ⟨_, _, rfl, rfl, by simp, mem_untracked_of_mem hnames, rfl, rfl, rfl⟩
  | target hkind hclause hfor hleft htarget =>
      rw [course_comprehension hkind hdepth]
      refine ⟨_, ({ p with scope := n.scope } : Place).event x u.span.start .untracked, rfl, rfl,
        by simp, List.mem_flatMap.2 ⟨_, List.mem_filter.2 ⟨hclause, by simp [hfor]⟩, ?_⟩, rfl, rfl,
        rfl⟩
      rw [hleft]
      exact mem_untracked_of_mem htarget.mem

/-! ## The scope of an occurrence -/

/-- A child of a node in the scope that the node stands in is visited there. -/
theorem exists_next_beside (tracked : Tracked.Set) (n : Numbering) (hdepth : p.depth ≤ depthLimit)
    (himport : isImport t.kind = false) (hcomprehension : isComprehension t.kind = false)
    (hbranch : isBranching t.kind = false) (hc : c ∈ t.children)
    (hbody : scopeOver? t.kind = none ∨ c.role ≠ some .body) :
    ∃ w ∈ (course tracked p n t).next, w.tree = c ∧ w.place = p.below := by
  cases hover : scopeOver? t.kind with
  | some k =>
      have hrole := hbody.resolve_left (by simp [hover])
      obtain ⟨w, hw, htree, hplace⟩ : ∃ w ∈ visitsAll tracked .allButBody p.below n t.children,
          w.tree = c ∧ w.place = p.below :=
        exists_visitsAll hc (by simpa [Selection.holds] using hrole)
      refine ⟨w, List.mem_append_left _ ?_, htree, hplace⟩
      rw [course_scope hover hdepth]
      unfold bodyCourse
      dsimp only
      split <;> exact hw
  | none =>
      obtain ⟨w, hw, htree, hplace⟩ : ∃ w ∈ visitsAll tracked .all p.below n t.children,
          w.tree = c ∧ w.place = p.below :=
        exists_visitsAll hc rfl
      refine ⟨w, List.mem_append_left _ ?_, htree, hplace⟩
      rw [course_plain himport hcomprehension hbranch hover hdepth]
      exact hw

/-- No scope that is opened inside a node holds an offset in a part of the node that stays in the
scope of the node, if none does that is opened inside that part. -/
theorem Clear.of_next (ht : Ordered t) (hv : Visited tracked t v) (hw : w ∈ v.next tracked)
    (hscope : w.place.scope = v.place.scope) (hoffset : w.tree.span.contains offset = true)
    (hclear : Clear tracked t w offset) : Clear tracked t v offset := by
  intro k frame hk hframe
  have hordered := hv.ordered ht
  have apart : frame.region.Apart w.tree.span → frame.region.contains offset = false := by
    intro hapart
    exact hapart.symm.not_contains hoffset
  rcases numbers_cases hordered hk with ⟨w', hw', hnumbers⟩ | ⟨rfl, f, hopened⟩
  · by_cases heq : w' = w
    · subst heq
      exact hclear k frame hnumbers hframe
    · have hregion := (hv.next hw').region_within ht hnumbers hframe
      exact apart ((apart_of_ne hordered hw hw' heq).within hregion (.refl _))
  · obtain rfl : f = frame := Option.some.inj ((hv.opened hopened).symm.trans hframe)
    rcases List.mem_append.1 hw with hw | hw
    · exact apart (hopened.apart w hw).symm
    · have := (hopened.inside w hw).2
      have := hv.scope_lt ht
      have : v.numbering.scope ≤ fresh tracked v.place v.numbering v.tree := le_fresh
      omega

/-- Nothing is opened inside a name. -/
theorem clear_of_identifier (ht : Sourced t) (hv : Visited tracked t v)
    (hkind : v.tree.kind = .identifier) : Clear tracked t v offset := by
  intro k frame hk _
  have hsourced := ht.node hv.isNode
  obtain ⟨g, t', htwin⟩ := hsourced.twin
  have hleaf : v.tree.children = [] := by
    by_contra hne
    have hshaped := htwin.shaped hne (by simp [hkind])
    rw [hkind] at hshaped
    exact hshaped
  exact absurd hk (not_numbers_of_leaf hsourced.ordered hleaf (by rw [hkind]; rfl))

/-- A node further down than the walk goes opens nothing. -/
theorem clear_of_deep (ht : Ordered t) (hv : Visited tracked t v)
    (hdepth : depthLimit < v.place.depth) : Clear tracked t v offset := by
  intro k frame hk _
  have hcourse : course tracked v.place v.numbering v.tree = {} := course_deep hdepth
  rcases numbers_cases (hv.ordered ht) hk with ⟨w, hw, -⟩ | ⟨-, f, hopened⟩
  · rw [Visit.next, hcourse] at hw
    cases hw
  · have hpos := hopened.pos
    rw [hcourse] at hpos
    cases hpos

theorem group_kinds {k : Kind} (h : isGroup k = true) :
    isImport k = false ∧ isComprehension k = false ∧ isBranching k = false ∧
      scopeOver? k = none := by
  unfold isGroup at h
  split at h
  all_goals first
    | exact ⟨rfl, rfl, rfl, rfl⟩
    | cases h

theorem contains_of_target (ht : Sourced t) (hc : IsNode c t) (h : Target x id c) :
    c.span.contains id.span.start = true := by
  have hsourced := ht.node hc
  have hlt := (hsourced.node h.isNode).lt_of_identifier .self h.identifier
  have hwithin := hsourced.within h.isNode
  have hstart := hwithin.start
  have hstop := hwithin.stop
  exact Span.contains_iff.2 ⟨hstart, by omega⟩

/-- No scope that is opened inside a target holds a name that the target binds. -/
theorem Target.clear (ht : Sourced t) (h : Target x id c) :
    ∀ {v : Visit}, Visited tracked t v → v.tree = c → Clear tracked t v id.span.start := by
  induction h with
  | name hkind _ =>
      rintro v hv rfl
      exact clear_of_identifier ht hv hkind
  | @inside g c hgroup hc htarget ih =>
      rintro v hv rfl
      by_cases hdepth : depthLimit < v.place.depth
      · exact clear_of_deep ht.ordered hv hdepth
      obtain ⟨himport, hcomprehension, hbranch, hscope⟩ := group_kinds hgroup
      obtain ⟨w, hw, htree, hplace⟩ := exists_next_beside tracked v.numbering
        (Nat.le_of_not_lt hdepth) himport hcomprehension hbranch hc (.inl hscope)
      have hwvisited := hv.next hw
      have hin : w.tree.span.contains id.span.start = true :=
        contains_of_target ht hwvisited.isNode (htree ▸ htarget)
      exact .of_next ht.ordered hv hw (by rw [hplace]; rfl) hin (ih hwvisited htree)

/-- A name that is bound by a child of a node stands in the scope in which the node was visited. -/
theorem scopeAt_of_target (ht : Sourced t) (hv : Visited tracked t v)
    (hdepth : v.place.depth ≤ depthLimit) (himport : isImport v.tree.kind = false)
    (hcomprehension : isComprehension v.tree.kind = false)
    (hbranch : isBranching v.tree.kind = false) (hc : c ∈ v.tree.children)
    (hbody : scopeOver? v.tree.kind = none ∨ c.role ≠ some .body) (htarget : Target x id c) :
    (resolve tracked t).scopeAt id.span.start = v.place.scope := by
  obtain ⟨w, hw, htree, hplace⟩ :=
    exists_next_beside tracked v.numbering hdepth himport hcomprehension hbranch hc hbody
  have hwvisited := hv.next hw
  have hin : w.tree.span.contains id.span.start = true :=
    contains_of_target ht hwvisited.isNode (htree ▸ htarget)
  have hclear : Clear tracked t w id.span.start := htarget.clear ht hwvisited htree
  have hwithin := (ht.node hv.isNode).within (next_isNode hw)
  apply hv.scopeAt_of_clear ht.ordered (hwithin.contains hin)
  exact .of_next ht.ordered hv hw (by rw [hplace]; rfl) hin hclear

/-- The name of a function or a class is one of its children. -/
theorem name_of_definition (ht : Sourced t)
    (hkind : t.kind = .functionDefinition ∨ t.kind = .classDefinition)
    (hname : t.child? .name = some id) : id.kind = .identifier ∧ id ∈ t.children := by
  have hshape : ∃ name outer body, t.children = name :: (outer ++ [body]) ∧
      name.kind = .identifier ∧ name.role = some .name := by
    rcases hkind with hkind | hkind
    all_goals
      have hshape := ht.formed.shape (by rw [hkind]; rfl)
      rw [hkind] at hshape
      obtain ⟨name, outer, body, hcs, hidentifier, hrole, -⟩ := hshape
      exact ⟨name, outer, body, hcs, hidentifier, hrole⟩
  obtain ⟨name, outer, body, hcs, hidentifier, hrole⟩ := hshape
  rw [Tree.child?, hcs, List.find?_cons_of_pos (by simp [hrole])] at hname
  cases hname
  exact ⟨hidentifier, by simp [hcs]⟩

/-- The innermost scope at a name that is bound is the one in which its node was visited. -/
theorem Rebinds.scopeAt_eq (ht : Sourced t) (hv : Visited tracked t v)
    (hdepth : v.place.depth ≤ depthLimit) (h : Rebinds tracked s x v.tree id made) :
    (resolve tracked t).scopeAt id.span.start = v.place.scope := by
  have plain : isImport v.tree.kind = false → isComprehension v.tree.kind = false →
      isBranching v.tree.kind = false → scopeOver? v.tree.kind = none →
      ∀ {r : Role} {target : Tree}, v.tree.child? r = some target → Target x id target →
        (resolve tracked t).scopeAt id.span.start = v.place.scope := by
    intro himport hcomprehension hbranch hscope r target hchild htarget
    exact scopeAt_of_target ht hv hdepth himport hcomprehension hbranch
      (Draft.child?_eq_some hchild).1 (.inl hscope) htarget
  have imports : isImport v.tree.kind = true → Rebinds tracked s x v.tree id made →
      (resolve tracked t).scopeAt v.tree.span.start = v.place.scope := by
    intro himport h
    have hown := h.mem_own (p := v.place) (n := v.numbering) hdepth
    rw [course_import himport hdepth] at hown
    exact hv.scopeAt_import ht himport hdepth hown
  cases h with
  | assigned hkind hleft htarget =>
      rcases hkind with hkind | hkind
      · exact plain (by rw [hkind]; rfl) (by rw [hkind]; rfl) (by rw [hkind]; rfl)
          (by rw [hkind]; rfl) hleft htarget
      · exact plain (by rw [hkind]; rfl) (by rw [hkind]; rfl) (by rw [hkind]; rfl)
          (by rw [hkind]; rfl) hleft htarget
  | looped hkind hleft _ htarget =>
      exact plain (by rw [hkind]; rfl) (by rw [hkind]; rfl) (by rw [hkind]; rfl)
        (by rw [hkind]; rfl) hleft htarget
  | aliased hkind halias htarget =>
      exact plain (by rw [hkind]; rfl) (by rw [hkind]; rfl) (by rw [hkind]; rfl)
        (by rw [hkind]; rfl) halias htarget
  | walrus hkind hname htarget =>
      exact plain (by rw [hkind]; rfl) (by rw [hkind]; rfl) (by rw [hkind]; rfl)
        (by rw [hkind]; rfl) hname htarget
  | defined hkind hname htext =>
      -- The name stands beside the body.
      obtain ⟨hidentifier, hmem⟩ := name_of_definition (ht.node hv.isNode) hkind hname
      have hrole : id.role ≠ some .body := by
        rw [(Draft.child?_eq_some hname).2]
        simp
      refine scopeAt_of_target ht hv hdepth ?_ ?_ ?_ hmem (.inr hrole) (.name hidentifier htext)
      all_goals rcases hkind with hkind | hkind <;> rw [hkind] <;> rfl
  | imported hkind hitem hdotted hsegments hpackage =>
      exact imports (by rw [hkind]; rfl) (.imported hkind hitem hdotted hsegments hpackage)
  | renamed hkind hitem haliased hname hsegments hother htext hforeign =>
      exact imports (by rw [hkind]; rfl)
        (.renamed hkind hitem haliased hname hsegments hother htext hforeign)
  | member hkind hitem hbrings hforeign =>
      exact imports (by rw [hkind]; rfl) (.member hkind hitem hbrings hforeign)

/-! ## Nodes that are visited -/

theorem Rebinds.active (h : Rebinds tracked s x u id made) : ¬ Inert u ∧ u.kind ≠ .block := by
  have active : ∀ {k : Kind}, u.kind = k → (k.isStatement = true ∨ k.isBinder = true) →
      k ≠ .block → ¬ Inert u ∧ u.kind ≠ .block := by
    rintro k rfl hk hblock
    refine ⟨fun hinert => ?_, hblock⟩
    obtain ⟨⟨-, hstatement, hbinder⟩, -⟩ := inert_iff.1 hinert
    rcases hk with hk | hk
    · rw [hstatement] at hk
      cases hk
    · rw [hbinder] at hk
      cases hk
  cases h with
  | assigned hkind | defined hkind =>
      rcases hkind with hkind | hkind <;> exact active hkind (by decide) (by decide)
  | looped hkind | aliased hkind | walrus hkind | imported hkind | renamed hkind | member hkind =>
      exact active hkind (by decide) (by decide)

theorem Opens.active {region : Span} (h : Opens x u region) : ¬ Inert u ∧ u.kind ≠ .block := by
  have hkind : (u.kind.isStatement = true ∨ u.kind.isBinder = true) ∧ u.kind ≠ .block := by
    cases h with
    | parameter hkind =>
        rcases hkind with hkind | hkind <;> rw [hkind] <;> exact ⟨by decide, by decide⟩
    | target hkind =>
        unfold isComprehension at hkind
        split at hkind
        all_goals first
          | rename_i heq
            rw [heq]
            exact ⟨by decide, by decide⟩
          | cases hkind
  refine ⟨fun hinert => ?_, hkind.2⟩
  obtain ⟨⟨-, hstatement, hbinder⟩, -⟩ := inert_iff.1 hinert
  rw [hstatement, hbinder] at hkind
  simp at hkind

end Longhand.Scope
