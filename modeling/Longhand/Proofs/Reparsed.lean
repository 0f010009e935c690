import Longhand.Proofs.Clash
import Longhand.Proofs.Patchable
import Longhand.Proofs.Respelled

/-!
# The rewritten text read again

Where all new names are identifiers of a parsed file, the old and the new text are the two texts of
a draft that marks nothing but names of keyword arguments.  So the rewriting of a text that is read
as it stands is accepted too, and its tree is the old one with other names and moved offsets.

A flag may have characters that no identifier of a parsed file has, and a text that is only read
because a line end is supplied in it need not be read any more once a statement of it is shorter.
In both cases the new text may be rejected.
-/

namespace Longhand

open Syntax Text

instance (source : List Char) : Decidable (ReadsAsIs source) :=
  decidable_of_iff ((moduleItems source []).isOk = true) (by
    unfold ReadsAsIs
    cases moduleItems source [] <;> simp [Except.isOk, Except.toBool])

/-! ## Flags as identifiers -/

namespace Flag

variable {name : String}

/-- Whether a flag is made of the characters of an identifier of a parsed file. -/
def isIdentifier (name : String) : Bool :=
  match name.toList with
  | [] => false
  | first :: rest => isIdentifierStart first && rest.all isIdentifierPart

/-- The reserved words of the grammar are no flags. -/
theorem lookup_of_isUsable (h : isUsable name = true) : words.lookup name.toList = none := by
  have hall : ∀ p ∈ words, reservedWords.contains (String.ofList p.1) = true := by decide +kernel
  cases hlookup : words.lookup name.toList with
  | none => rfl
  | some w =>
      obtain ⟨before, after, heq, -⟩ := List.lookup_eq_some_iff.1 hlookup
      have hreserved := hall (name.toList, w) (by rw [heq]; simp)
      unfold isUsable at h
      split at h
      · cases h
      · rw [String.ofList_toList] at hreserved
        rw [hreserved] at h
        simp at h

theorem isPlainName_of_isIdentifier (h : isUsable name = true) (hname : isIdentifier name = true) :
    isPlainName name.toList = true := by
  have hword := lookup_of_isUsable h
  unfold isIdentifier at hname
  split at hname
  · cases hname
  · rename_i first rest heq
    rw [heq] at hword ⊢
    rw [isPlainName, hname, hword]
    rfl

end Flag

/-! ## Faults of a relabelled tree -/

theorem Syntax.firstFault?_of_parseChecked {source : List Char} {t : Tree}
    (h : parseChecked source = .ok t) : t.firstFault? 0 = none := by
  unfold parseChecked at h
  dsimp only at h
  split at h
  · cases h
  · rename_i hnone
    cases h
    exact hnone

namespace Scope

section Faults

variable {ρ : Span → String} {σ : Nat → Nat}

theorem ownFault?_relabel (c : Context) (t : Tree) : (relabel ρ σ c t).ownFault? = t.ownFault? := by
  obtain ⟨kind, role, s, x, children⟩ := t
  by_cases hkind : kind = .identifier
  · subst hkind
    rw [relabel]
    rfl
  · -- Only names have other texts.
    have hname : isArgumentName c kind role = false := by
      rw [isArgumentName, decide_eq_false hkind, Bool.and_false]
    have hcomma : ((relabel ρ σ c (.node kind role s x children)).children.any
        fun u => u.kind = .comma) = children.any fun u => u.kind = .comma := by
      rw [relabel_children, List.any_map]
      simp only [Function.comp_def, relabel_kind]
      rfl
    unfold Tree.ownFault?
    rw [hcomma, relabel, hname]
    rfl

mutual

/-- The first fault of a tree is also that of the tree with other names. -/
theorem firstFault?_relabel : ∀ (c : Context) (depth : Nat) (t : Tree),
    ((relabel ρ σ c t).firstFault? depth).map Prod.fst = (t.firstFault? depth).map Prod.fst
  | c, depth, .node kind role s x children => by
      have hown := ownFault?_relabel (ρ := ρ) (σ := σ) c (.node kind role s x children)
      rw [relabel] at hown ⊢
      rw [Tree.firstFault?, Tree.firstFault?]
      dsimp only
      rw [hown]
      split
      · rfl
      · split
        · rfl
        · exact firstFaultIn?_relabel _ (depth + 1) children

theorem firstFaultIn?_relabel : ∀ (c : Context) (depth : Nat) (ts : List Tree),
    (Tree.firstFaultIn? depth (relabelIn ρ σ c ts)).map Prod.fst =
      (Tree.firstFaultIn? depth ts).map Prod.fst
  | c, depth, [] => by rw [relabelIn]
  | c, depth, t :: rest => by
      have hfirst := firstFault?_relabel c depth t
      rw [relabelIn, Tree.firstFaultIn?, Tree.firstFaultIn?]
      cases ht : t.firstFault? depth with
      | some f =>
          rw [ht, Option.map_some, Option.map_eq_some_iff] at hfirst
          obtain ⟨f', hf', heq⟩ := hfirst
          rw [hf']
          exact congrArg some heq
      | none =>
          rw [ht, Option.map_none, Option.map_eq_none_iff] at hfirst
          rw [hfirst]
          exact firstFaultIn?_relabel c depth rest

end

end Faults

/-! ## Names of keyword arguments -/

variable {s s' : Span} {c : Context} {t t' u : Tree} {ts : List Tree} {source : List Char}

theorem mem_argumentNamesIn_of_mem (ht : t ∈ ts) (hs : s ∈ argumentNames c t) :
    s ∈ argumentNamesIn c ts := by
  induction ts with
  | nil => cases ht
  | cons u rest ih =>
      rw [argumentNamesIn, List.mem_append]
      rcases List.mem_cons.1 ht with rfl | ht
      · exact .inl hs
      · exact .inr (ih ht)

theorem mem_argumentNames_of_child (hkind : t.kind ≠ .identifier) (hu : u ∈ t.children)
    (hs : s ∈ argumentNames (c.enter t.kind) u) : s ∈ argumentNames c t := by
  obtain ⟨kind, role, span, text, children⟩ := t
  have hname : isArgumentName c kind role = false := by
    rw [isArgumentName, decide_eq_false (show kind ≠ .identifier from hkind), Bool.and_false]
  rw [argumentNames, hname]
  exact mem_argumentNamesIn_of_mem hu hs

/-- The name of a keyword argument is found wherever the list of the arguments stands. -/
theorem mem_argumentNames_of_list {g : Draft} {list a : Tree} (h : g.Twin t t')
    (hnode : IsNode list t) (hlist : list.kind = .argumentList) (ha : a ∈ list.children)
    (hnames : NamesArgument a u) (c : Context) : u.span ∈ argumentNames c t := by
  obtain ⟨hkeyword, hu, hrole, hkind⟩ := hnames
  induction hnode generalizing t' c with
  | self =>
      refine mem_argumentNames_of_child (by rw [hlist]; exact Kind.noConfusion) ha ?_
      refine mem_argumentNames_of_child (by rw [hkeyword]; exact Kind.noConfusion) hu ?_
      rw [hlist, hkeyword]
      obtain ⟨kind, role, span, text, children⟩ := u
      cases hkind
      cases hrole
      rw [argumentNames]
      exact List.mem_singleton_self _
  | inside hmem _ ih =>
      obtain ⟨_, _, htwin, -⟩ := h.child hmem
      refine mem_argumentNames_of_child (fun hidentifier => ?_) hmem (ih htwin _)
      have hshaped := h.shaped (List.ne_nil_of_mem hmem)
        (by rw [hidentifier]; exact Kind.noConfusion)
      rw [hidentifier] at hshaped
      exact hshaped

/-- No name of a keyword argument lies in another one. -/
theorem eq_of_within_name (hs : s ∈ argumentNames .elsewhere (parse source))
    (hs' : s' ∈ argumentNames .elsewhere (parse source)) (h : s'.Within s) : s' = s := by
  obtain ⟨u, hu, -, -, hleaf, rfl, hlt, -⟩ := exists_leaf hs
  obtain ⟨v, hv, -, -, hleaf', rfl, hlt', -⟩ := exists_leaf hs'
  have hstart := h.start
  have hstop := h.stop
  rcases (Draft.ordered_parse source).nested_or_apart hu hv with hnode | hnode | hapart
  · rw [hnode.eq_of_leaf hleaf']
  · rw [hnode.eq_of_leaf hleaf]
  · rcases hapart with hle | hle <;> omega

end Scope

/-! ## The draft of a rewriting -/

namespace Draft

/-- Parts are sound if each marked name of them stands between what has to stand around it. -/
theorem sound_of_forall {fuel : Nat} {free : Bool} {parts : List Part}
    (h : ∀ done todo old new, parts = done ++ .renamed old new :: todo →
      opens free done = true ∧ isPlainName old = true ∧ isPlainName new = true ∧
        EqualsAhead fuel (before todo)) : Sound fuel free parts := by
  induction parts generalizing free with
  | nil => trivial
  | cons p rest ih =>
      cases p with
      | kept c =>
          exact ih fun done todo old new hrest =>
            h (.kept c :: done) todo old new (by rw [hrest]; rfl)
      | renamed old new =>
          obtain ⟨hopen, hold, hnew, hahead⟩ := h [] rest old new rfl
          exact ⟨hopen, hold, hnew, hahead, ih fun done todo old' new' hrest =>
            h (.renamed old new :: done) todo old' new' (by rw [hrest]; rfl)⟩

/-- Whether a name may be marked behind some parts hangs on the text before the replacement. -/
theorem opens_of_before {done : List Part}
    (hplain : ∀ old new, Part.renamed old new ∈ done → isPlainName old = true)
    (h : opens false ((before done).map .kept) = true) : opens false done = true := by
  rcases List.eq_nil_or_concat done with rfl | ⟨rest, p, rfl⟩
  · exact h
  cases p with
  | kept c =>
      simp only [List.concat_eq_append, before_append, before_kept, before_nil, List.map_append,
        List.map_cons, List.map_nil, opens_append] at h ⊢
      exact h
  | renamed old new =>
      have hold := hplain old new (by simp)
      have hchars := isNameChar_of_isPlainName hold
      obtain ⟨x, xs, rfl, -⟩ := exists_of_isPlainName hold
      obtain ⟨ys, y, hy⟩ : ∃ ys y, x :: xs = ys ++ [y] :=
        ⟨_, _, (List.dropLast_append_getLast (List.cons_ne_nil x xs)).symm⟩
      rw [hy] at hchars h
      simp only [List.concat_eq_append, before_append, before_renamed, before_nil, List.append_nil,
        List.map_append, List.map_cons, List.map_nil, ← List.append_assoc] at h
      rw [opens_append] at h
      have hbreak : isBreak y = true := h
      have hname := isNameChar_eq_false_of_isBreak hbreak
      rw [hchars y (by simp)] at hname
      cases hname

/-- A draft of one text is made of the characters of the text. -/
theorem eq_map_kept {source : List Char} {done todo : List Part}
    (h : (ofText source).parts = done ++ todo) : done = (before done).map .kept := by
  obtain ⟨cs, cs', -, rfl, -⟩ := List.map_eq_append_iff.1 (show source.map Part.kept = _ from h)
  rw [before_map_kept]

open Edit in
/-- How much longer or shorter the text up to a place has become. -/
theorem Draws.sizes {o : Nat} {changes : List Change} {parts : List Part}
    (h : Draws o changes parts) (hlt : ∀ c ∈ changes, c.span.start < c.span.stop)
    {done todo : List Part} (hparts : parts = done ++ todo) :
    byteSize (after done) +
        ((changes.filter fun c => c.span.stop ≤ o + byteSize (before done)).map
          fun c => byteSize c.rename.short.toList).sum =
      byteSize (before done) +
        ((changes.filter fun c => c.span.stop ≤ o + byteSize (before done)).map
          fun c => byteSize c.rename.long.toList).sum := by
  induction h generalizing done with
  | @nil o cs =>
      obtain ⟨cs₁, cs₂, -, rfl, -⟩ := List.map_eq_append_iff.1 hparts
      rw [before_map_kept, after_map_kept]
      rfl
  | @cons o c rest parts kept hstart hstop hrest ih =>
      have hc := hlt c List.mem_cons_self
      -- No change is passed in front of the first one.
      have front : ∀ n, n ≤ c.span.start →
          ((c :: rest).filter fun c => c.span.stop ≤ n) = [] := by
        intro n hn
        refine List.filter_eq_nil_iff.2 fun d hd => ?_
        have hd' := hlt d hd
        rw [decide_eq_true_eq]
        rcases List.mem_cons.1 hd with rfl | hd
        · omega
        · obtain ⟨_, _, -, hplace, -⟩ := hrest.exists_part hd
          omega
      have whole : ∀ cs : List Char, done = cs.map .kept → byteSize cs ≤ byteSize kept →
          ((c :: rest).filter fun c => c.span.stop ≤ o + byteSize (before done)) = [] := by
        rintro cs rfl hle
        refine front _ ?_
        rw [before_map_kept]
        omega
      rcases List.append_eq_append_iff.1 hparts with ⟨mid, h₁, h₂⟩ | ⟨mid, h₁, h₂⟩
      · cases mid with
        | nil =>
            rw [List.append_nil] at h₁
            rw [whole kept h₁ (Nat.le_refl _), h₁, before_map_kept, after_map_kept]
            rfl
        | cons p mid =>
            obtain ⟨rfl, hmore⟩ := List.cons.inj h₂
            have hmid := ih (fun d hd => hlt d (List.mem_cons_of_mem _ hd)) hmore
            have hplace : o + byteSize (before done) = c.span.stop + byteSize (before mid) := by
              rw [h₁]
              simp only [before_append, before_map_kept, before_renamed, byteSize_append]
              omega
            rw [hplace, List.filter_cons_of_pos (by simp), h₁]
            simp only [before_append, after_append, before_map_kept, after_map_kept, before_renamed,
              after_renamed, byteSize_append, List.map_cons, List.sum_cons]
            omega
      · obtain ⟨cs₁, cs₂, hkept, rfl, -⟩ := List.map_eq_append_iff.1 h₁
        have hle : byteSize cs₁ ≤ byteSize kept := by
          rw [hkept, byteSize_append]
          omega
        rw [whole cs₁ rfl hle, before_map_kept, after_map_kept]
        rfl

end Draft

/-! ## The tree of the new text -/

namespace Edit.Plan

open Draft

/-- The name in the new text of the keyword argument with its name at a span of the old one. -/
def nameAt (p : Plan) (source : List Char) (s : Span) : String :=
  match p.changes.find? fun c => c.span = s with
  | some c => c.rename.long
  | none => String.ofList ((slice? source s).getD [])

/-- The offset in the new text of a place outside the replaced names. -/
def offset (p : Plan) (o : Nat) : Nat :=
  let passed := p.changes.filter fun c => c.span.stop ≤ o
  o + (passed.map fun c => byteSize c.rename.long.toList).sum
    - (passed.map fun c => byteSize c.rename.short.toList).sum

variable {p : Plan} {g : Draft}

theorem offset_of_cut (h : Draws 0 p.changes g.parts)
    (hlt : ∀ c ∈ p.changes, c.span.start < c.span.stop) {o o' : Nat} (ho : g.Cut o o') :
    p.offset o = o' := by
  obtain ⟨done, todo, hparts, rfl, rfl⟩ := ho
  have hsizes := h.sizes hlt hparts
  rw [Nat.zero_add] at hsizes
  unfold offset
  dsimp only
  omega

theorem marked_of_mem (h : Draws 0 p.changes g.parts) {c : Change} (hc : c ∈ p.changes) :
    g.Marked c.span c.rename.short.toList c.rename.long.toList := by
  obtain ⟨done, todo, hparts, hstart, hstop⟩ := h.exists_part hc
  rw [Nat.zero_add] at hstart
  exact ⟨done, todo, hparts, hstart, by rw [hstop, hstart]⟩

theorem exists_of_marked (h : Draws 0 p.changes g.parts) {s : Span} {old new : List Char}
    (hs : g.Marked s old new) : ∃ c ∈ p.changes, c.span = s := by
  obtain ⟨done, todo, hparts, hstart, hstop⟩ := hs
  obtain ⟨c, hc, hspan, -⟩ := h.marked hparts
  refine ⟨c, hc, ?_⟩
  rw [hspan, Nat.zero_add, ← hstop, ← hstart]

/-- Each name of a keyword argument is spelled in the new text as the plan says. -/
theorem nameAt_of_spelled (h : Draws 0 p.changes g.parts)
    (hnames : ∀ c ∈ p.changes, c.span ∈ Scope.argumentNames .elsewhere (parse (before g.parts)))
    {s : Span} (hs : s ∈ Scope.argumentNames .elsewhere (parse (before g.parts))) {x x' : String}
    (hspelled : g.Spelled s x x') : p.nameAt (before g.parts) s = x' := by
  unfold nameAt
  split
  · rename_i c hfind
    have hspan : c.span = s := by simpa using List.find?_some hfind
    have hmarked := marked_of_mem h (List.mem_of_find?_eq_some hfind)
    rw [hspan] at hmarked
    rw [(hspelled.eq_of_marked hmarked).2, String.ofList_toList]
  · rename_i hfind
    have hsame : x' = x := by
      refine hspelled.eq_of_unmarked fun s' old new hs' hwithin => ?_
      obtain ⟨c, hc, rfl⟩ := exists_of_marked h hs'
      have hne := List.find?_eq_none.1 hfind c hc
      exact hne (by simpa using Scope.eq_of_within_name hs (hnames c hc) hwithin)
    obtain ⟨done, mid, todo, hparts, hstart, hstop, hx, -⟩ := hspelled
    have hslice : slice? (before g.parts) s = some (before mid) := by
      refine slice?_eq_some_iff.2 ⟨before done, before todo, ?_, hstart.symm, ?_⟩
      · rw [hparts, before_append, before_append]
      · rw [hstop, hstart, before_append, byteSize_append]
    rw [hslice, hsame, hx]
    rfl

/-- Whether no name that is replaced or put in is spelled like a keyword of a match statement. -/
def IsRegular (p : Plan) : Prop :=
  ∀ c ∈ p.changes, ∀ name ∈ [c.rename.short, c.rename.long], name ≠ "_" ∧ name ≠ "case"

instance (p : Plan) : Decidable p.IsRegular :=
  inferInstanceAs (Decidable (∀ c ∈ p.changes, _))

theorem IsRegular.regular (h : p.IsRegular) (hdraws : Draws 0 p.changes g.parts) : g.Regular := by
  intro s old new hs name hname
  obtain ⟨done, todo, hparts, -⟩ := hs
  obtain ⟨c, hc, -, rfl, rfl⟩ := hdraws.marked hparts
  have hnames := h c hc (String.ofList name) (by rcases hname with rfl | rfl <;> simp)
  refine ⟨fun heq => hnames.1 ?_, fun heq => hnames.2 ?_⟩
  · rw [heq, String.ofList_toList]
  · rw [heq, String.ofList_toList]

end Edit.Plan

namespace Rewrite

open Edit Draft

variable {tracked : Tracked.Set} {source : String} {t : Tree} {r : Rewrite}

/-- A change replaces the name of a keyword argument by another flag. -/
theorem exists_name (h : parseChecked source.toList = .ok t) (hr : ofSource tracked source = .ok r)
    {c : Change} (hc : c ∈ r.plan.changes) :
    ∃ name, (ofText source.toList).KeywordName name ∧ name.span = c.span ∧
      name.text = c.rename.short ∧ c.span ∈ Scope.argumentNames .elsewhere t ∧
      Flag.isUsable c.rename.short = true ∧ Flag.isUsable c.rename.long = true := by
  obtain ⟨hplan, -⟩ := plan_of_ofSource h hr
  obtain ⟨hreads, rfl⟩ := reads_of_parseChecked h
  have htwin := twin_parse hreads
  obtain ⟨call, hcall, table, -, k, hk, hchange⟩ := (mem_changes_iff hplan).1 hc
  obtain ⟨hspan, -, -, hshort, hlookup, -⟩ := change?_eq_some hchange
  obtain ⟨husable, hlong⟩ := Flag.Table.isUsable_of_lookup hlookup
  obtain ⟨u, hu, hfound⟩ := Scope.mem_calls_iff.1 hcall
  obtain ⟨-, -, -, hkeywords⟩ := call?_eq_some hfound
  rw [hkeywords] at hk
  obtain ⟨list, hlist, hkind, a, ha, hka⟩ := mem_keywords hk
  have hnode : IsNode list (parse source.toList) := (IsNode.child hlist).trans hu.isNode
  have hatwin := htwin.node_self ((IsNode.child ha).trans hnode)
  obtain ⟨hargument, name, value, hchildren, hname, rfl⟩ := keyword?_eq_some hatwin hka
  obtain ⟨hidentifier, hrole, -⟩ := hname.leaf
  refine ⟨name, hname, hspan.symm, hshort.symm, ?_, by rwa [hshort], hlong⟩
  rw [hspan]
  exact Scope.mem_argumentNames_of_list htwin hnode hkind ha
    ⟨hargument, by rw [hchildren]; exact List.mem_cons_self, hrole, hidentifier⟩ .elsewhere

/-- The old text and the new one are those of a draft, if the new names are identifiers. -/
theorem exists_draft (h : parseChecked source.toList = .ok t) (hr : ofSource tracked source = .ok r)
    (hidentifier : ∀ c ∈ r.plan.changes, Flag.isIdentifier c.rename.long = true) :
    ∃ g : Draft, before g.parts = source.toList ∧ after g.parts = r.output.toList ∧
      Draws 0 r.plan.changes g.parts := by
  obtain ⟨parts, hdrawn⟩ := exists_parts hr
  have hplain : ∀ c ∈ r.plan.changes, isPlainName c.rename.short.toList = true := by
    intro c hc
    obtain ⟨_, ⟨s, done, mid, todo, rfl, -, -, -, -, hmid, -⟩, -, htext, -, hshort, -⟩ :=
      exists_name h hr hc
    have hword := Flag.lookup_of_isUsable hshort
    rw [← htext] at hword ⊢
    rw [Tree.text, String.toList_ofList] at hword ⊢
    rw [hword] at hmid
    exact hmid.resolve_right Bool.false_ne_true
  have hsound : Sound (tokenBound false (before parts) + 1) false parts := by
    refine sound_of_forall fun done todo old new hsplit => ?_
    obtain ⟨c, hc, hspan, rfl, rfl⟩ := hdrawn.draws.marked hsplit
    obtain ⟨_, ⟨s, done', mid, todo', rfl, hparts, hstart, -, hopen, -, hahead⟩, hs, htext, -, -,
      hlong⟩ := exists_name h hr hc
    -- The text around the part is the text around the name.
    have hmid : c.rename.short.toList = before mid := by
      rw [← htext, Tree.text, String.toList_ofList]
    have hsource : source.toList = before done ++ (before mid ++ before todo) := by
      rw [← hdrawn.before, hsplit, before_append, before_renamed, hmid]
    have hsource' : source.toList = before done' ++ (before mid ++ before todo') := by
      rw [← before_ofText source.toList, hparts, before_append, before_append]
    have hsize : byteSize (before done) = byteSize (before done') := by
      have hs : s = c.span := hs
      rw [← hstart, hs, hspan, Nat.zero_add]
    have hcut := splitAt?_eq_some_iff.2 ⟨hsource, rfl⟩
    rw [splitAt?_eq_some_iff.2 ⟨hsource', hsize.symm⟩, Option.some.injEq, Prod.mk.injEq] at hcut
    obtain ⟨hdone, htodo⟩ := hcut
    refine ⟨?_, hplain c hc, Flag.isPlainName_of_isIdentifier hlong (hidentifier c hc), ?_⟩
    · refine opens_of_before (fun old new hmem => ?_) ?_
      · obtain ⟨left, right, rfl⟩ := List.append_of_mem hmem
        obtain ⟨d, hd, -, rfl, -⟩ := hdrawn.draws.marked
          (show parts = left ++ .renamed old new :: _ by rw [hsplit, List.append_assoc]; rfl)
        exact hplain d hd
      · rw [← hdone, ← eq_map_kept hparts]
        exact hopen
    · rw [hdrawn.before, ← List.append_cancel_left htodo]
      rw [Draft.size, before_ofText] at hahead
      exact hahead
  exact ⟨⟨parts, hsound⟩, hdrawn.before, hdrawn.after, hdrawn.draws⟩

/-- If the new text is read like the old one, its tree is a twin of the old one, with the new names
in it and the offsets moved. -/
theorem exists_twin (h : parseChecked source.toList = .ok t) (hr : ofSource tracked source = .ok r)
    (hidentifier : ∀ c ∈ r.plan.changes, Flag.isIdentifier c.rename.long = true)
    (hreads : ReadsAsIs source.toList ∨ r.plan.IsRegular ∧ Reads r.output.toList) :
    ∃ g : Draft, g.Twin t (parse r.output.toList) ∧
      (∀ o o', g.Cut o o' → r.plan.offset o = o') ∧
      parse r.output.toList =
        Scope.relabel (r.plan.nameAt source.toList) r.plan.offset .elsewhere t := by
  obtain ⟨g, hbefore, hafter, hdraws⟩ := exists_draft h hr hidentifier
  have hnames : ∀ c ∈ r.plan.changes, c.span ∈ Scope.argumentNames .elsewhere t := by
    intro c hc
    obtain ⟨_, -, -, -, hname, -⟩ := exists_name h hr hc
    exact hname
  obtain ⟨hplan, -⟩ := plan_of_ofSource h hr
  obtain ⟨hall, rfl⟩ := reads_of_parseChecked h
  have hlt := (fits_of_plan (twin_parse hall) hplan).lt
  rw [← hbefore] at hall hreads hnames ⊢
  rw [← hafter] at hreads ⊢
  have hmarked : ∀ s old new, g.Marked s old new →
      s ∈ Scope.argumentNames .elsewhere (parse (before g.parts)) := by
    intro s old new hs
    obtain ⟨c, hc, rfl⟩ := Plan.exists_of_marked hdraws hs
    exact hnames c hc
  have htwin : g.Twin (parse (before g.parts)) (parse (after g.parts)) := by
    rcases hreads with hasis | ⟨hregular, hreads⟩
    · exact ((parse_twin_of_readsAsIs hasis).resolve_left (not_stray hmarked)).2
    · exact parse_twin_of_regular (hregular.regular hdraws) hall hreads
  have hoffset : ∀ o o', g.Cut o o' → r.plan.offset o = o' :=
    fun o o' ho => Plan.offset_of_cut hdraws hlt ho
  exact ⟨g, htwin, hoffset, htwin.eq_relabel hoffset
    (fun s x x' hs => Plan.nameAt_of_spelled hdraws hnames hs) fun s old new hs _ =>
      hmarked s old new hs⟩

/-- An accepted text is rewritten, and what is replaced are names of keyword arguments.  Suppose
that the new names are identifiers.  If the text is read as it stands, the new text is accepted, and
its tree is the old one with these names in the places of the replaced ones and the offsets moved.
If line ends had to be supplied, this is the tree of the new text as soon as that is accepted. -/
theorem output_accepted (tracked : Tracked.Set) (h : parseChecked source.toList = .ok t) :
    ∃ r, ofSource tracked source = .ok r ∧
      (∀ c ∈ r.plan.changes, c.span ∈ Scope.argumentNames .elsewhere t) ∧
      ((∀ c ∈ r.plan.changes, Flag.isIdentifier c.rename.long = true) →
        (ReadsAsIs source.toList → parseChecked r.output.toList =
          .ok (Scope.relabel (r.plan.nameAt source.toList) r.plan.offset .elsewhere t)) ∧
        (r.plan.IsRegular → ∀ t', parseChecked r.output.toList = .ok t' →
          t' = Scope.relabel (r.plan.nameAt source.toList) r.plan.offset .elsewhere t)) := by
  obtain ⟨r, parts, hr, -⟩ := exists_drawn tracked h
  refine ⟨r, hr, fun c hc => ?_, fun hidentifier => ⟨fun hasis => ?_, fun hregular t' ht' => ?_⟩⟩
  · obtain ⟨_, -, -, -, hname, -⟩ := exists_name h hr hc
    exact hname
  · obtain ⟨-, -, -, houtput⟩ := exists_twin h hr hidentifier (.inl hasis)
    have hfault : t.firstFault? 0 = none := firstFault?_of_parseChecked h
    rw [← houtput]
    refine parseChecked_of_faultless ?_
    rw [houtput, ← Option.map_eq_none_iff (f := Prod.fst), Scope.firstFault?_relabel, hfault]
    rfl
  · obtain ⟨hreads, rfl⟩ := reads_of_parseChecked ht'
    obtain ⟨-, -, -, houtput⟩ := exists_twin h hr hidentifier (.inr ⟨hregular, hreads⟩)
    exact houtput

/-- A statement that runs into the next one. -/
def runOn : String :=
  "from maya import cmds\ncmds.ls(sl=[1, 2, 3]) otherwise_named\n"

/-- A call inside an argument of another one is rewritten into an accepted text, and so is a
statement that runs into the next one. -/
theorem output_accepted_of_nested :
    let tracked : Tracked.Set := ⟨[⟨⟨"maya", "cmds"⟩, none⟩], selectionFlags⟩
    (∃ t r, parseChecked callInCall.toList = .ok t ∧ ofSource tracked callInCall = .ok r ∧
      r.output = "from maya import cmds\ncmds.ls('é', dagObjects=cmds.ls(selection=1), selection=2)\n" ∧
      parseChecked r.output.toList =
        .ok (Scope.relabel (r.plan.nameAt callInCall.toList) r.plan.offset .elsewhere t)) ∧
    ∃ t r, parseChecked runOn.toList = .ok t ∧ ¬ ReadsAsIs runOn.toList ∧
      ofSource tracked runOn = .ok r ∧
      r.output = "from maya import cmds\ncmds.ls(selection=[1, 2, 3]) otherwise_named\n" ∧
      parseChecked r.output.toList =
        .ok (Scope.relabel (r.plan.nameAt runOn.toList) r.plan.offset .elsewhere t) := by
  intro tracked
  constructor
  · obtain ⟨hfaultless, hasis, hresult⟩ : (parse callInCall.toList).firstFault? 0 = none ∧
        ReadsAsIs callInCall.toList ∧ ∀ r ∈ (ofSource tracked callInCall).toOption, r.output =
          "from maya import cmds\ncmds.ls('é', dagObjects=cmds.ls(selection=1), selection=2)\n" ∧
          ∀ c ∈ r.plan.changes, Flag.isIdentifier c.rename.long = true := by
      decide +kernel
    have hparse := parseChecked_of_faultless hfaultless
    obtain ⟨r, hr, -, haccepted⟩ := output_accepted tracked hparse
    obtain ⟨houtput, hidentifier⟩ := hresult r (by rw [hr]; rfl)
    exact ⟨_, r, hparse, hr, houtput, (haccepted hidentifier).1 hasis⟩
  · obtain ⟨hfaultless, hasis, hresult⟩ : (parse runOn.toList).firstFault? 0 = none ∧
        ¬ ReadsAsIs runOn.toList ∧ ∀ r ∈ (ofSource tracked runOn).toOption, r.output =
          "from maya import cmds\ncmds.ls(selection=[1, 2, 3]) otherwise_named\n" ∧
          (∀ c ∈ r.plan.changes, Flag.isIdentifier c.rename.long = true) ∧ r.plan.IsRegular ∧
          (parse r.output.toList).firstFault? 0 = none := by
      decide +kernel
    have hparse := parseChecked_of_faultless hfaultless
    obtain ⟨r, hr, -, haccepted⟩ := output_accepted tracked hparse
    obtain ⟨houtput, hidentifier, hregular, hfaultless'⟩ := hresult r (by rw [hr]; rfl)
    have hparse' := parseChecked_of_faultless hfaultless'
    refine ⟨_, r, hparse, hasis, hr, houtput, ?_⟩
    rw [hparse', (haccepted hidentifier).2 hregular _ hparse']

/-- A flag with a character that no identifier of a parsed file has. -/
def squaredFlag : Flag.Table where
  commands := [("f", [("a", "a²")])]
  usable := by decide +kernel

/-- A flag that is longer than the name in its place. -/
def shortenedFlag : Flag.Table where
  commands := [("f", [("direction", "d")])]
  usable := by decide +kernel

/-- A text whose new text has a fault. -/
theorem exists_rejected {output : String}
    (h : (parse source.toList).firstFault? 0 = none ∧
      (format tracked source).toOption = some output ∧
      ((parse output.toList).firstFault? 0).isSome = true) :
    ∃ t r, parseChecked source.toList = .ok t ∧ ofSource tracked source = .ok r ∧
      r.output = output ∧ ∀ t', parseChecked r.output.toList ≠ .ok t' := by
  obtain ⟨hsource, houtput, hfault⟩ := h
  obtain ⟨r, parts, hr, -⟩ := exists_drawn tracked (parseChecked_of_faultless hsource)
  rw [format, hr] at houtput
  cases houtput
  refine ⟨_, r, parseChecked_of_faultless hsource, hr, rfl, fun t' ht' => ?_⟩
  have hnone := firstFault?_of_parseChecked ht'
  obtain ⟨-, rfl⟩ := reads_of_parseChecked ht'
  rw [hnone] at hfault
  cases hfault

/-- The new text may be rejected: for a flag that is no identifier, and for a text that is read with
a line end supplied behind a statement that the new name makes so short that it is rather left
out. -/
theorem output_rejected :
    (let tracked : Tracked.Set := ⟨[⟨⟨"m", "c"⟩, none⟩], squaredFlag⟩
      let source := "from m import c\nc.f(a=1)\n"
      ReadsAsIs source.toList ∧ ∃ t r, parseChecked source.toList = .ok t ∧
        ofSource tracked source = .ok r ∧ r.output = "from m import c\nc.f(a²=1)\n" ∧
        ∀ t', parseChecked r.output.toList ≠ .ok t') ∧
    let tracked : Tracked.Set := ⟨[⟨⟨"m", "c"⟩, none⟩], shortenedFlag⟩
    let source := "from m import c\nc.f(direction=1) otherwise_named\n"
    ∃ t r, parseChecked source.toList = .ok t ∧ ofSource tracked source = .ok r ∧
      r.output = "from m import c\nc.f(d=1) otherwise_named\n" ∧
      ∀ t', parseChecked r.output.toList ≠ .ok t' := by
  exact ⟨⟨by decide +kernel, exists_rejected (by decide +kernel)⟩,
    exists_rejected (by decide +kernel)⟩

end Rewrite

end Longhand
