import Longhand.Proofs.Moved
import Longhand.Proofs.Patch

/-!
# Other names of keyword arguments

When the names of keyword arguments in a text are replaced by others that are not empty, all offsets
outside these names keep their order.  So the same calls are found in the tree of the text with the
other names, with the same modules and commands.
-/

namespace Longhand.Scope

open Syntax Text

/-! ## The names of keyword arguments -/

mutual

/-- The spans of the names of keyword arguments in a tree from left to right, given what it is a part
of. -/
def argumentNames (c : Context) : Tree → List Span
  | .node kind role span _ children =>
      if isArgumentName c kind role then [span] else argumentNamesIn (c.enter kind) children

def argumentNamesIn (c : Context) : List Tree → List Span
  | [] => []
  | t :: rest => argumentNames c t ++ argumentNamesIn c rest

end

/-- Whether an offset is not inside one of some names. -/
def Outside (names : List Span) (offset : Nat) : Prop :=
  ∀ s ∈ names, offset ≤ s.start ∨ s.stop ≤ offset

section Names

variable {s : Span}

mutual

/-- The names lie in the tree, one after the other. -/
theorem argumentNames_pairwise : ∀ {c : Context} {t : Tree}, Ordered t →
    (argumentNames c t).Pairwise (fun a b => a.stop ≤ b.start) ∧
      ∀ s ∈ argumentNames c t, s.Within t.span
  | c, .node kind role span text children, .node _ hwithin hpairwise hchildren => by
      obtain ⟨hsorted, hinside⟩ := argumentNamesIn_pairwise (c := c.enter kind) hpairwise hchildren
      rw [argumentNames]
      split
      · refine ⟨List.pairwise_singleton _ _, fun s hs => ?_⟩
        rw [List.mem_singleton.1 hs]
        exact .refl _
      · refine ⟨hsorted, fun s hs => ?_⟩
        obtain ⟨u, hu, hsu⟩ := hinside s hs
        exact hsu.trans (hwithin u hu)

theorem argumentNamesIn_pairwise : ∀ {c : Context} {ts : List Tree},
    ts.Pairwise (fun u v => u.span.stop ≤ v.span.start) → (∀ t ∈ ts, Ordered t) →
    (argumentNamesIn c ts).Pairwise (fun a b => a.stop ≤ b.start) ∧
      ∀ s ∈ argumentNamesIn c ts, ∃ t ∈ ts, s.Within t.span
  | c, [], _, _ => by
      rw [argumentNamesIn]
      exact ⟨.nil, fun _ h => nomatch h⟩
  | c, t :: rest, hpairwise, hordered => by
      obtain ⟨hfirst, hrest⟩ := List.pairwise_cons.1 hpairwise
      obtain ⟨hsorted, hinside⟩ :=
        argumentNames_pairwise (c := c) (hordered t List.mem_cons_self)
      obtain ⟨hsorted', hinside'⟩ := argumentNamesIn_pairwise (c := c) hrest fun u hu =>
        hordered u (List.mem_cons_of_mem _ hu)
      rw [argumentNamesIn]
      refine ⟨List.pairwise_append.2 ⟨hsorted, hsorted', fun a ha b hb => ?_⟩, fun s hs => ?_⟩
      · obtain ⟨u, hu, hbu⟩ := hinside' b hb
        exact Nat.le_trans (hinside a ha).stop (Nat.le_trans (hfirst u hu) hbu.start)
      · rcases List.mem_append.1 hs with hs | hs
        · exact ⟨t, List.mem_cons_self, hinside s hs⟩
        · obtain ⟨u, hu, hsu⟩ := hinside' s hs
          exact ⟨u, List.mem_cons_of_mem _ hu, hsu⟩

end

/-- Whether a node is the name of a keyword argument that it is a part of. -/
def NamesArgument (t u : Tree) : Prop :=
  t.kind = .keywordArgument ∧ u ∈ t.children ∧ u.role = some .name ∧ u.kind = .identifier

mutual

/-- A name is that of a keyword argument in the tree, or the whole tree. -/
theorem mem_argumentNames : ∀ {c : Context} {t : Tree}, s ∈ argumentNames c t →
    (isArgumentName c t.kind t.role = true ∧ s = t.span) ∨
      ∃ v u, IsNode v t ∧ NamesArgument v u ∧ s = u.span
  | c, .node kind role span text children, h => by
      rw [argumentNames] at h
      split at h
      · exact .inl ⟨‹_›, List.mem_singleton.1 h⟩
      · obtain ⟨u, hu, hs⟩ := mem_argumentNamesIn h
        right
        rcases hs with ⟨hname, rfl⟩ | ⟨v, w, hv, hnames, rfl⟩
        · refine ⟨_, u, .self, ?_, rfl⟩
          simp only [isArgumentName, Bool.and_eq_true, decide_eq_true_eq] at hname
          obtain ⟨⟨hcontext, hrole⟩, hkind⟩ := hname
          refine ⟨?_, hu, hrole, hkind⟩
          -- Only what stands in a keyword argument can be a name.
          by_contra hne
          exact Context.enter_ne hne hcontext
        · exact ⟨v, w, .inside hu hv, hnames, rfl⟩

theorem mem_argumentNamesIn : ∀ {c : Context} {ts : List Tree}, s ∈ argumentNamesIn c ts →
    ∃ t ∈ ts, (isArgumentName c t.kind t.role = true ∧ s = t.span) ∨
      ∃ v u, IsNode v t ∧ NamesArgument v u ∧ s = u.span
  | c, [], h => by
      rw [argumentNamesIn] at h
      cases h
  | c, t :: rest, h => by
      rw [argumentNamesIn] at h
      rcases List.mem_append.1 h with h | h
      · exact ⟨t, List.mem_cons_self, mem_argumentNames h⟩
      · obtain ⟨u, hu, hs⟩ := mem_argumentNamesIn h
        exact ⟨u, List.mem_cons_of_mem _ hu, hs⟩

end

/-- The names of keyword arguments in the tree of a text are leaves that are not empty, and each is a
slice of the text. -/
theorem exists_leaf {source : List Char} (hs : s ∈ argumentNames .elsewhere (parse source)) :
    ∃ u, IsNode u (parse source) ∧ u.kind = .identifier ∧ u.role = some .name ∧ u.children = [] ∧
      u.span = s ∧ s.start < s.stop ∧ ∃ name, slice? source s = some name := by
  rcases mem_argumentNames hs with ⟨hname, -⟩ | ⟨v, u, hv, ⟨hkind, hmem, hrole, hidentifier⟩, rfl⟩
  · cases hname
  have hreads : Reads source := by
    -- There are no keyword arguments in the tree of a text that cannot be read.
    by_contra hnot
    rw [parse_of_not_reads hnot] at hv
    cases hv with
    | self => cases hkind
    | inside hchild hv =>
        rw [List.mem_singleton.1 hchild] at hv
        rw [hv.eq_of_leaf rfl] at hkind
        cases hkind
  have h := Draft.twin_parse hreads
  obtain ⟨v', -, hvtwin, -⟩ := h.node hv
  obtain ⟨u', -, hutwin, -⟩ := hvtwin.child hmem
  have hshaped := hvtwin.shaped (List.ne_nil_of_mem hmem) (by simp [hkind])
  rw [hkind] at hshaped
  obtain ⟨name, value, hchildren, hkeyword, hvalue⟩ := hshaped
  obtain rfl : u = name := by
    rw [hchildren] at hmem
    rcases List.mem_cons.1 hmem with heq | hmem
    · exact heq
    · rw [List.mem_singleton.1 hmem, hvalue] at hrole
      cases hrole
  refine ⟨u, (IsNode.child hmem).trans hv, hidentifier, hrole, hkeyword.leaf.2.2, rfl,
    hutwin.identifier_lt hidentifier, ?_⟩
  obtain ⟨s, done, mid, todo, rfl, hparts, hstart, hstop, -⟩ := hkeyword
  refine ⟨Draft.before mid, slice?_eq_some_iff.2
    ⟨Draft.before done, Draft.before todo, ?_, hstart.symm, ?_⟩⟩
  · rw [← Draft.before_ofText source, hparts, Draft.before_append, Draft.before_append]
  · show s.stop = s.start + _
    rw [hstop, hstart, Draft.before_append, byteSize_append]

/-- No node of the tree of a text begins or ends inside the name of a keyword argument. -/
theorem outside_names {source : List Char} {u : Tree} (hu : IsNode u (parse source)) :
    u.span.On (Outside (argumentNames .elsewhere (parse source))) := by
  have hordered := Draft.ordered_parse source
  have ends : ∀ s ∈ argumentNames .elsewhere (parse source),
      (u.span.start ≤ s.start ∨ s.stop ≤ u.span.start) ∧
        (u.span.stop ≤ s.start ∨ s.stop ≤ u.span.stop) := by
    intro s hs
    obtain ⟨v, hv, -, -, hleaf, rfl, hlt, -⟩ := exists_leaf hs
    have hle := (hordered.node_of hu).le
    rcases hordered.nested_or_apart hu hv with hnode | hnode | hapart
    · rw [hnode.eq_of_leaf hleaf]
      exact ⟨.inl (Nat.le_refl _), .inr (Nat.le_refl _)⟩
    · have hwithin := (hordered.node_of hu).within hnode
      exact ⟨.inl hwithin.start, .inr hwithin.stop⟩
    · rcases hapart with hle' | hle'
      · exact ⟨.inl (by omega), .inl hle'⟩
      · exact ⟨.inr hle', .inr (by omega)⟩
  exact ⟨fun s hs => (ends s hs).1, fun s hs => (ends s hs).2⟩

end Names

/-! ## The offsets of the text with other names -/

/-- New names for the names of keyword arguments, given by their spans. -/
structure Relabelling where
  name : Span → String
  nonempty : ∀ s, name s ≠ ""

namespace Relabelling

variable (r : Relabelling)

/-- The offset in the text with the new names that belongs to an offset outside the old ones, given
an offset in front of the names and the one that belongs to it. -/
def image : List Span → Nat → Nat → Nat → Nat
  | [], old, new, offset => new + (offset - old)
  | s :: rest, old, new, offset =>
      if offset ≤ s.start then new + (offset - old)
      else image rest s.stop (new + (s.start - old) + byteSize (r.name s).toList) offset

/-- The offset in the text with the new names that belongs to an offset of a text with a tree. -/
def offset (t : Tree) : Nat → Nat :=
  r.image (argumentNames .elsewhere t) 0 0

/-- The tree with the new names. -/
def tree (t : Tree) : Tree :=
  relabel r.name (r.offset t) .elsewhere t

/-- The edits that put the new names into a text with a tree. -/
def edits (t : Tree) : List Edit :=
  (argumentNames .elsewhere t).map fun s => ⟨s, (r.name s).toList⟩

variable {r} {names : List Span} {old new a b : Nat}

theorem size_pos (s : Span) : 0 < byteSize (r.name s).toList := by
  have hne : (r.name s).toList ≠ [] := by
    intro h
    exact r.nonempty s (String.toList_eq_nil_iff.1 h)
  obtain ⟨x, rest, heq⟩ := List.exists_cons_of_ne_nil hne
  have := x.utf8Size_pos
  rw [heq, byteSize_cons]
  omega

theorem image_zero : r.image names 0 0 0 = 0 := by
  cases names with
  | nil => rfl
  | cons s rest => rw [image, if_pos (Nat.zero_le _)]

theorem le_image (names : List Span) (old new a : Nat) : new ≤ r.image names old new a := by
  induction names generalizing old new with
  | nil =>
      rw [image]
      omega
  | cons s rest ih =>
      rw [image]
      split
      · omega
      · have := ih s.stop (new + (s.start - old) + byteSize (r.name s).toList)
        omega

/-- Offsets outside the old names keep their order. -/
theorem image_lt (hsorted : names.Pairwise fun s s' => s.stop ≤ s'.start)
    (hlow : ∀ s ∈ names, old ≤ s.start) (ha : old ≤ a)
    (haout : Outside names a) (hbout : Outside names b) (hlt : a < b) :
    r.image names old new a < r.image names old new b := by
  induction names generalizing old new with
  | nil =>
      rw [image, image]
      omega
  | cons s rest ih =>
      obtain ⟨hfirst, hrest⟩ := List.pairwise_cons.1 hsorted
      have hs := hlow s List.mem_cons_self
      rw [image, image]
      by_cases hbs : b ≤ s.start
      · rw [if_pos hbs, if_pos (by omega)]
        omega
      · rw [if_neg hbs]
        by_cases has : a ≤ s.start
        · -- The new name in between takes up room.
          rw [if_pos has]
          have hpos := size_pos (r := r) s
          have := le_image (r := r) rest s.stop
            (new + (s.start - old) + byteSize (r.name s).toList) b
          omega
        · rw [if_neg has]
          have hstop : s.stop ≤ a := (haout s List.mem_cons_self).resolve_left has
          refine ih hrest hfirst hstop ?_ ?_
          · exact fun s' hs' => haout s' (List.mem_cons_of_mem _ hs')
          · exact fun s' hs' => hbout s' (List.mem_cons_of_mem _ hs')

/-- Offsets outside the names of keyword arguments of a tree keep their order. -/
theorem keeps (r : Relabelling) {t : Tree} (ht : Ordered t) :
    Keeps (Outside (argumentNames .elsewhere t)) (r.offset t) := by
  intro a b ha hb hlt
  exact image_lt (argumentNames_pairwise ht).1 (fun s _ => Nat.zero_le _) (Nat.zero_le a) ha hb hlt

/-! ## The text with other names -/

/-- The replacement of the slice of a text by a new name, as a change. -/
def change (r : Relabelling) (source : List Char) (s : Span) : Edit.Change :=
  ⟨s, ⟨default, "", String.ofList ((slice? source s).getD []), r.name s⟩⟩

/-- The new names of a text as changes, in the order of the names. -/
def changes (r : Relabelling) (source : List Char) : List Edit.Change :=
  (argumentNames .elsewhere (parse source)).map (r.change source)

theorem edits_parse (r : Relabelling) (source : List Char) :
    r.edits (parse source) = (r.changes source).map Edit.Change.edit := by
  rw [edits, changes, List.map_map]
  rfl

theorem changes_span (r : Relabelling) (source : List Char) :
    (r.changes source).map Edit.Change.span = argumentNames .elsewhere (parse source) := by
  rw [changes, List.map_map]
  exact List.map_id _

theorem changes_pairwise (r : Relabelling) (source : List Char) :
    (r.changes source).Pairwise fun a b => a.span.stop ≤ b.span.start :=
  List.pairwise_map.2 (argumentNames_pairwise (c := .elsewhere) (Draft.ordered_parse source)).1

/-- Each change replaces a name that stands in the text. -/
theorem changes_fit (r : Relabelling) (source : List Char) : ∀ c ∈ r.changes source,
    c.span.start < c.span.stop ∧ slice? source c.span = some c.rename.short.toList ∧
      c.rename.long = r.name c.span := by
  intro c hc
  obtain ⟨s, hs, rfl⟩ := List.mem_map.1 hc
  obtain ⟨-, -, -, -, -, -, hlt, name, hname⟩ := exists_leaf hs
  exact ⟨hlt, by simp [change, hname], rfl⟩

/-- What stands between the changes is moved as a whole. -/
theorem image_draws {o : Nat} {changes : List Edit.Change} {parts : List Draft.Part}
    (h : Draft.Draws o changes parts) (hnames : ∀ c ∈ changes, c.rename.long = r.name c.span)
    (hlt : ∀ c ∈ changes, c.span.start < c.span.stop) {done todo : List Draft.Part} (new : Nat)
    (hparts : parts = done ++ todo) :
    r.image (changes.map Edit.Change.span) o new (o + byteSize (Draft.before done)) =
      new + byteSize (Draft.after done) := by
  induction h generalizing done new with
  | @nil o cs =>
      obtain ⟨cs₁, cs₂, rfl, rfl, -⟩ := List.map_eq_append_iff.1 hparts
      rw [List.map_nil, image, Draft.before_map_kept, Draft.after_map_kept]
      omega
  | @cons o c rest parts kept hstart hstop _ ih =>
      have hlt' := hlt c List.mem_cons_self
      rw [List.map_cons, image]
      rcases List.append_eq_append_iff.1 hparts with ⟨mid, h₁, h₂⟩ | ⟨mid, h₁, h₂⟩
      · cases mid with
        | nil =>
            rw [h₁, List.append_nil, Draft.before_map_kept, Draft.after_map_kept,
              if_pos (by omega)]
            omega
        | cons p mid =>
            -- The place is behind the name that is replaced.
            rw [List.cons_append] at h₂
            obtain ⟨rfl, hmore⟩ := List.cons.inj h₂
            have hrest := ih (fun c hc => hnames c (List.mem_cons_of_mem _ hc))
              (fun c hc => hlt c (List.mem_cons_of_mem _ hc))
              (new + (c.span.start - o) + byteSize (r.name c.span).toList) hmore
            have hlong := hnames c List.mem_cons_self
            have hoffset : o + byteSize (Draft.before done) =
                c.span.stop + byteSize (Draft.before mid) := by
              rw [h₁]
              simp only [Draft.before_append, Draft.before_map_kept, Draft.before_renamed,
                byteSize_append]
              omega
            rw [hoffset, if_neg (by omega), hrest, h₁, ← hlong]
            simp only [Draft.after_append, Draft.after_map_kept, Draft.after_renamed,
              byteSize_append]
            omega
      · obtain ⟨cs₁, cs₂, rfl, rfl, -⟩ := List.map_eq_append_iff.1 h₁
        have hsize : byteSize cs₁ ≤ byteSize (cs₁ ++ cs₂) := by
          rw [byteSize_append]
          omega
        rw [Draft.before_map_kept, Draft.after_map_kept, if_pos (by omega)]
        omega

/-- The new names can be put into the text, and each stands at its place there. -/
theorem exists_text (r : Relabelling) (source : List Char) :
    ∃ source', Edit.patch source (r.edits (parse source)) = .ok source' ∧
      (r.tree (parse source)).span = ⟨0, byteSize source'⟩ ∧
      ∀ s ∈ argumentNames .elsewhere (parse source),
        slice? source' (s.move (r.offset (parse source))) = some (r.name s).toList := by
  have hsorted := r.changes_pairwise source
  have hlt : ∀ c ∈ r.changes source, c.span.start < c.span.stop :=
    fun c hc => (r.changes_fit source c hc).1
  obtain ⟨parts, hparts, hdraws⟩ := Draft.exists_draws [] source rfl hsorted
    (fun c _ => Nat.zero_le _) fun c hc => (r.changes_fit source c hc).2.1
  -- The offset of a place between two parts is moved to that of the same place.
  have himage : ∀ (done todo : List Draft.Part), parts = done ++ todo →
      r.offset (parse source) (byteSize (Draft.before done)) = byteSize (Draft.after done) := by
    intro done todo hsplit
    have h := image_draws hdraws (fun c hc => (r.changes_fit source c hc).2.2) hlt 0 hsplit
    rw [r.changes_span, byteSize_nil, Nat.zero_add, Nat.zero_add] at h
    exact h
  refine ⟨Draft.after parts, ?_, ?_, fun s hs => ?_⟩
  · rw [r.edits_parse]
    exact Edit.patch_of_draws hsorted hlt hdraws hparts.symm
  · have hspan : (parse source).span = ⟨0, byteSize source⟩ := parse_span source
    have hall := himage parts [] (List.append_nil _).symm
    rw [hparts] at hall
    rw [tree, relabel_span, hspan, Span.move, hall, offset, image_zero]
  · obtain ⟨done, todo, hsplit, hstart, hstop⟩ :=
      hdraws.exists_part (List.mem_map_of_mem (f := r.change source) hs)
    have hbegin := himage done _ hsplit
    have hend := himage (done ++ [.renamed (r.change source s).rename.short.toList
      (r.change source s).rename.long.toList]) todo (by rw [hsplit]; simp)
    have hs' : s = (r.change source s).span := rfl
    refine slice?_eq_some_iff.2 ⟨Draft.after done, Draft.after todo, ?_, ?_, ?_⟩
    · rw [hsplit]
      simp [change]
    · rw [← hbegin, Span.move, hs', hstart, byteSize_nil, Nat.zero_add]
    · simp only [Draft.before_append, Draft.before_renamed, Draft.before_nil, List.append_nil,
        Draft.after_append, Draft.after_renamed, Draft.after_nil, byteSize_append] at hend
      rw [Span.move, hs', hstop, hstart, byteSize_nil, Nat.zero_add, hend, hbegin]
      rfl

end Relabelling

/-- Other names of the keyword arguments of a text, none of them empty, change neither which calls
are found nor what they stand for: in the tree with the new names and the moved offsets there are the
same calls in the same order, with the same modules and commands, at the moved spans, and with the
new names as keywords. -/
theorem calls_relabelled (tracked : Tracked.Set) (source : List Char) (r : Relabelling) :
    ∃ source', Edit.patch source (r.edits (parse source)) = .ok source' ∧
      (r.tree (parse source)).span = ⟨0, byteSize source'⟩ ∧
      (∀ s ∈ argumentNames .elsewhere (parse source),
        slice? source' (s.move (r.offset (parse source))) = some (r.name s).toList) ∧
      calls source' (resolve tracked (r.tree (parse source))) (r.tree (parse source)) =
        (calls source (resolve tracked (parse source)) (parse source)).map
          (moveCall source' r.name (r.offset (parse source))) := by
  obtain ⟨source', hpatch, hspan, hnames⟩ := r.exists_text source
  have hkeeps := r.keeps (Draft.ordered_parse source)
  have hnodes : ∀ u, IsNode u (parse source) →
      u.span.On (Outside (argumentNames .elsewhere (parse source))) :=
    fun u hu => outside_names hu
  have hzero : Outside (argumentNames .elsewhere (parse source)) 0 :=
    fun s _ => .inl (Nat.zero_le _)
  refine ⟨source', hpatch, hspan, hnames, ?_⟩
  unfold Relabelling.tree
  rw [resolve_relabel hkeeps Relabelling.image_zero hnodes]
  exact callsAt_relabel hkeeps (resolve_on tracked hzero hnodes) .elsewhere 0 _ hnodes

end Longhand.Scope
