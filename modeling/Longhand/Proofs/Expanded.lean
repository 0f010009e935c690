import Longhand.Proofs.Discovered

/-!
# What patterns lead to

The names on a path that a pattern leads to are, one after another, those that its parts spell or
match.  Whatever a wildcard matches is taken, a name with a dot in front as well; such names are
left out only below the directories that a source leads to.  A file that is named is collected,
unless its name is itself read as a pattern.
-/

namespace Longhand

namespace Text

variable {separator c : Char} {cs part : List Char}

/-- The parts of a text have only characters of it, and no separators. -/
theorem mem_of_mem_splitOn (hpart : part ∈ splitOn separator cs) (hc : c ∈ part) :
    c ∈ cs ∧ c ≠ separator := by
  induction cs generalizing part with
  | nil =>
      rw [splitOn, List.mem_singleton] at hpart
      simp [hpart] at hc
  | cons d rest ih =>
      obtain ⟨first, parts, hsplit⟩ := List.exists_cons_of_ne_nil (splitOn_ne_nil separator rest)
      rw [splitOn, hsplit] at hpart
      rw [hsplit] at ih
      have hlater : ∀ q ∈ first :: parts, c ∈ q → c ∈ d :: rest ∧ c ≠ separator :=
        fun q hq hcq => (ih hq hcq).imp_left (List.mem_cons_of_mem d)
      split at hpart
      · rcases List.mem_cons.1 hpart with rfl | hpart
        · cases hc
        · exact hlater part hpart hc
      · rename_i hd
        rcases List.mem_cons.1 hpart with rfl | hpart
        · rcases List.mem_cons.1 hc with rfl | hc
          · exact ⟨List.mem_cons_self, by simpa using hd⟩
          · exact hlater first List.mem_cons_self hc
        · exact hlater part (List.mem_cons_of_mem _ hpart) hc

end Text

namespace Files

variable {t : Tree} {x : Exclusions} {p path name source : String}
  {sources paths names : List String} {hidden : Bool}

/-! ### Reading patterns -/

theorem isGlob_cons {c : Char} {cs : List Char} :
    isGlob (c :: cs) = (c == '*' || c == '?' || c == '[' || isGlob cs) :=
  rfl

/-- The parts of a text without wildcards have none. -/
theorem isGlob_of_mem_splitOn {cs part : List Char} (h : isGlob cs = false)
    (hpart : part ∈ Text.splitOn '/' cs) : isGlob part = false := by
  rw [isGlob, List.any_eq_false] at h ⊢
  exact fun c hc => h c (Text.mem_of_mem_splitOn hpart hc).1

/-- A part in front of what is read of the rest. -/
theorem exists_of_map_cons {read : Except PatternError Pattern} {part : Glob} {pattern : Pattern}
    (h : read.map (part :: ·) = .ok pattern) :
    ∃ rest, read = .ok rest ∧ pattern = part :: rest := by
  cases read with
  | error => cases h
  | ok rest =>
      cases h
      exact ⟨rest, rfl, rfl⟩

/-- A class is no single character. -/
theorem class?_ne_char {rest after : List Char} {c : Char} :
    class? rest ≠ some (.char c, after) := by
  unfold class?
  split <;> simp

/-- A text without wildcards is read as the characters that it consists of, and one with wildcards
not. -/
theorem literal?_of_patternFrom {bound index : Nat} {fresh : Bool} {text : List Char}
    {pattern : Pattern} (hbound : text.length < bound)
    (h : patternFrom bound index fresh text = .ok pattern) :
    pattern.literal? = if isGlob text then none else some text := by
  induction bound generalizing index fresh text pattern with
  | zero => exact absurd hbound (Nat.not_lt_zero _)
  | succ bound ih =>
      cases text with
      | nil =>
          cases h
          rfl
      | cons c rest =>
          have hlength : rest.length < bound := by simpa using hbound
          -- Of the parts only a character leaves the pattern without wildcards.
          have hwild : ∀ {read : Except PatternError Pattern} {part : Glob},
              read.map (part :: ·) = .ok pattern → (∀ c, part ≠ .char c) →
                pattern.literal? = none := by
            intro read part hread hpart
            obtain ⟨parts, -, rfl⟩ := exists_of_map_cons hread
            cases part with
            | char c => exact absurd rfl (hpart c)
            | _ => rfl
          rw [isGlob_cons]
          simp only [patternFrom] at h
          split at h
          · simpa using hwild h (by simp)
          · split at h
            · cases h
            · split at h
              · cases h
              · split at h
                · simpa using hwild h (by simp)
                · simpa using hwild h (by simp)
                · cases h
            · simpa using hwild h (by simp)
          · split at h
            · rename_i part after hclass
              refine (hwild h ?_).trans (by simp)
              rintro c rfl
              exact class?_ne_char hclass
            · cases h
          · rename_i hquestion hstar hbracket
            obtain ⟨parts, hrest, rfl⟩ := exists_of_map_cons h
            have hc : (c == '*' || c == '?' || c == '[') = false := by
              simpa using ⟨⟨hstar, hquestion⟩, hbracket⟩
            rw [hc, Bool.false_or, Pattern.literal?, ih hlength hrest]
            split <;> rfl

theorem literal?_of_parse {text : List Char} {pattern : Pattern}
    (h : Pattern.parse text = .ok pattern) :
    pattern.literal? = if isGlob text then none else some text :=
  literal?_of_patternFrom (Nat.lt_succ_self _) h

/-- A part that spells a text is read from that text, which has no wildcards. -/
theorem literal?_eq_some {text cs : List Char} {part : Pattern}
    (hparse : Pattern.parse text = .ok part) (h : part.literal? = some cs) :
    isGlob text = false ∧ cs = text := by
  rw [literal?_of_parse hparse] at h
  split at h
  · cases h
  · rename_i hglob
    exact ⟨eq_false_of_ne_true hglob, (Option.some.inj h).symm⟩

theorem isGlob_of_literal? {text : List Char} {part : Pattern}
    (hparse : Pattern.parse text = .ok part) (h : part.literal? = none) : isGlob text = true := by
  rw [literal?_of_parse hparse] at h
  by_contra hglob
  rw [if_neg hglob] at h
  cases h

/-- A pattern without wildcards matches no other text. -/
theorem eq_of_matches_literal {pattern : Pattern} {cs text : List Char}
    (h : pattern.literal? = some cs) (hmatch : pattern.matches text = true) : text = cs := by
  rw [Pattern.matches, decide_eq_true_eq] at hmatch
  induction pattern generalizing cs text with
  | nil =>
      cases h
      cases text with
      | nil => rfl
      | cons => cases hmatch
  | cons g rest ih =>
      cases g with
      | char d =>
          obtain ⟨cs, hcs, rfl⟩ := Option.map_eq_some_iff.1 h
          cases text with
          | nil => cases hmatch
          | cons c text =>
              simp only [Pattern.run] at hmatch
              split at hmatch
              · rename_i hc
                rw [ih hcs hmatch, beq_iff_eq.1 hc]
              · cases hmatch
      | _ => cases h

/-- Any number of components is any text. -/
theorem anyDepth_matches (text : List Char) : anyDepth.matches text = true := by
  have hsome : ∀ text, afterSome (Pattern.run []) true text = .whole := by
    intro text
    induction text with
    | nil => rfl
    | cons c cs ih =>
        rw [afterSome]
        split
        · exact ih
        · cases cs with
          | nil => rfl
          | cons d rest => exact ih
  cases text with
  | nil => rfl
  | cons c cs => simp [anyDepth, Pattern.matches, Pattern.run, afterAny, hsome]

/-! ### The names on a path -/

/-- The names in a path, one after another. -/
def namesOf (path : String) : List String :=
  (steps path).filterMap Step.name?

theorem name_mem_components {n : String} : .name n ∈ components path ↔ n ∈ namesOf path := by
  have hfront : .name n ∉ front path := by
    rw [front]
    split
    · simp
    · split <;> simp
  have hstep (s : Step) : s.component? = some (.name n) ↔ s.name? = some n := by
    cases s <;> simp [Step.component?, Step.name?]
  simp [components_eq, hfront, hstep, namesOf]

theorem namesOf_of_notMem (hslash : '/' ∉ name.toList) :
    namesOf name = (stepOf name.toList).name?.toList := by
  rw [namesOf, steps_eq, splitOn_of_notMem hslash]
  cases hname : (stepOf name.toList).name? <;> simp [hname]

theorem namesOf_join (hslash : '/' ∉ name.toList) :
    namesOf (join path name) = namesOf path ++ (stepOf name.toList).name?.toList := by
  by_cases hpath : path = ""
  · subst hpath
    rw [join, if_pos (by simp), namesOf_of_notMem hslash]
    rfl
  · exact filterMap_steps_join _ rfl hpath hslash

theorem namesOf_childPath (hslash : '/' ∉ name.toList) :
    namesOf (childPath path name) = namesOf path ++ (stepOf name.toList).name?.toList := by
  rw [childPath]
  split
  · rename_i hhere
    have hpath : namesOf path = [] := by
      refine List.eq_nil_iff_forall_not_mem.2 fun n hn => ?_
      simpa [hhere] using name_mem_components.2 hn
    rw [hpath, namesOf_of_notMem hslash, List.nil_append]
  · exact namesOf_join hslash

theorem namesOf_foldl_join (hnames : ∀ n ∈ names, IsName n) :
    namesOf (names.foldl join path) = namesOf path ++ names := by
  induction names generalizing path with
  | nil => simp
  | cons n rest ih =>
      have hn := hnames n List.mem_cons_self
      rw [List.foldl_cons, ih fun m hm => hnames m (List.mem_cons_of_mem _ hm),
        namesOf_join hn.slash, hn.stepOf, List.append_assoc]
      rfl

theorem namesOf_belowPath (hnames : ∀ n ∈ names, IsName n) :
    namesOf (belowPath path names) = namesOf path ++ names := by
  cases names with
  | nil => simp [belowPath]
  | cons n rest =>
      have hn := hnames n List.mem_cons_self
      rw [belowPath, namesOf_foldl_join fun m hm => hnames m (List.mem_cons_of_mem _ hm),
        namesOf_childPath hn.slash, hn.stepOf, List.append_assoc]
      rfl

/-! ### The names that a pattern leads to -/

/-- Names that the parts of a source stand for, one part after another.  A part without wildcards
stands for the name that it is, unless it is empty or only dots; one with wildcards for a name that
it matches, or none, and two stars for any names. -/
inductive Spells : List (List Char) → List String → Prop
  | nil : Spells [] []
  | written {part : List Char} {parts : List (List Char)} {names : List String}
      (hpart : isGlob part = false) (h : Spells parts names) :
      Spells (part :: parts) ((stepOf part).name?.toList ++ names)
  | matched {part : List Char} {pattern : Pattern} {parts : List (List Char)}
      {found names : List String} (hpart : isGlob part = true)
      (hparse : Pattern.parse part = .ok pattern)
      (hmatch : ∀ n ∈ found, pattern.matches n.toList = true)
      (hcount : found.length ≤ 1 ∨ pattern = anyDepth) (h : Spells parts names) :
      Spells (part :: parts) (found ++ names)

theorem Spells.append {parts parts' : List (List Char)} {names' : List String}
    (h : Spells parts names) (h' : Spells parts' names') :
    Spells (parts ++ parts') (names ++ names') := by
  induction h with
  | nil => exact h'
  | written hpart _ ih =>
      rw [List.append_assoc]
      exact .written hpart ih
  | matched hpart hparse hmatch hcount _ ih =>
      rw [List.append_assoc]
      exact .matched hpart hparse hmatch hcount ih

/-- A name that a part matches stands in front of those of the later parts. -/
theorem Spells.cons {part : List Char} {parts : List (List Char)} {pattern : Pattern}
    (h : Spells parts names) (hparse : Pattern.parse part = .ok pattern)
    (hmatch : pattern.matches name.toList = true) (hname : IsName name) :
    Spells (part :: parts) (name :: names) := by
  cases hliteral : pattern.literal? with
  | none =>
      have hmatched : ∀ n ∈ [name], pattern.matches n.toList = true := by simpa using hmatch
      exact .matched (isGlob_of_literal? hparse hliteral) hparse hmatched (.inl (by simp)) h
  | some cs =>
      obtain ⟨hglob, rfl⟩ := literal?_eq_some hparse hliteral
      have hstep : stepOf cs = .name name := by
        rw [← eq_of_matches_literal hliteral hmatch, hname.stepOf]
      have hwritten := Spells.written hglob h
      rw [hstep] at hwritten
      exact hwritten

/-- Texts without wildcards spell the names that they are. -/
theorem Spells.of_plain {parts : List (List Char)} (h : ∀ part ∈ parts, isGlob part = false) :
    Spells parts ((parts.map stepOf).filterMap Step.name?) := by
  induction parts with
  | nil => exact .nil
  | cons part rest ih =>
      have hrest := ih fun q hq => h q (List.mem_cons_of_mem _ hq)
      have hpart := Spells.written (h part List.mem_cons_self) hrest
      rw [List.map_cons]
      cases hname : (stepOf part).name? with
      | none => simpa [hname] using hpart
      | some n => simpa [hname] using hpart

theorem eq_of_name?_stepOf {part : List Char} (h : (stepOf part).name? = some name) :
    name.toList = part := by
  rw [stepOf] at h
  split at h
  · cases h
  · cases h
  · cases h
  · cases h
    exact String.toList_ofList

/-- A name that some parts stand for is written there, or a wildcard matches it. -/
theorem Spells.written_or_matched {parts : List (List Char)} (h : Spells parts names)
    (hname : name ∈ names) : name.toList ∈ parts ∨
      ∃ part ∈ parts, isGlob part = true ∧
        ∃ pattern, Pattern.parse part = .ok pattern ∧ pattern.matches name.toList = true := by
  have hlater : ∀ {part : List Char} {parts : List (List Char)},
      (name.toList ∈ parts ∨ ∃ part ∈ parts, isGlob part = true ∧
        ∃ pattern, Pattern.parse part = .ok pattern ∧ pattern.matches name.toList = true) →
      (name.toList ∈ part :: parts ∨ ∃ q ∈ part :: parts, isGlob q = true ∧
        ∃ pattern, Pattern.parse q = .ok pattern ∧ pattern.matches name.toList = true) := by
    rintro part parts (hmem | ⟨q, hq, hmatched⟩)
    · exact .inl (List.mem_cons_of_mem _ hmem)
    · exact .inr ⟨q, List.mem_cons_of_mem _ hq, hmatched⟩
  induction h with
  | nil => cases hname
  | written hpart _ ih =>
      rcases List.mem_append.1 hname with hname | hname
      · rw [eq_of_name?_stepOf (Option.mem_toList.1 hname)]
        exact .inl List.mem_cons_self
      · exact hlater (ih hname)
  | matched hpart hparse hmatch _ _ ih =>
      rcases List.mem_append.1 hname with hname | hname
      · exact .inr ⟨_, List.mem_cons_self, hpart, _, hparse, hmatch _ hname⟩
      · exact hlater (ih hname)

theorem sound_of_list (ht : t.Sound) {entries : List (String × Entry)}
    (hlist : t.list path = .ok entries) : (Entry.directory entries).Sound := by
  rw [Tree.list] at hlist
  split at hlist
  · cases hlist
  · cases hlist
  · cases hlist
    exact ht.entry ‹_›

theorem isName_of_mem_descendants {e d : Entry} (h : e.Sound) (hmem : (names, d) ∈ e.descendants) :
    ∀ n ∈ names, IsName n :=
  h.isName ((Entry.mem_descendants_iff h).1 hmem).2

theorem literalPath?_eq_some {next : String} (h : literalPath? t path name = some next) :
    next = childPath path name := by
  simp only [literalPath?, Option.ite_none_right_eq_some, Option.some.injEq] at h
  exact h.2.symm

/-- The names of the working and the upper directory are none. -/
theorem namesOf_join_dots {pattern : Pattern} (hname : name ∈ dotNames pattern) :
    namesOf (join path name) = namesOf path := by
  have hdots : name = ".." ∨ name = "." := by
    rw [dotNames] at hname
    split at hname
    · simpa using List.mem_of_mem_filter hname
    · cases hname
  rcases hdots with rfl | rfl
  · exact (namesOf_join (by decide)).trans (List.append_nil _)
  · exact (namesOf_join (by decide)).trans (List.append_nil _)

/-- The names that a pattern adds to a path are those that its parts stand for. -/
theorem spells_of_mem_pathsBelow (ht : t.Sound) {directories : Bool} {texts : List (List Char)}
    {parts : List Pattern}
    (hread : List.Forall₂ (fun text part => Pattern.parse text = .ok part) texts parts)
    (hslash : ∀ text ∈ texts, '/' ∉ text) :
    ∀ p ∈ pathsBelow t directories parts path,
      ∃ names, namesOf p = namesOf path ++ names ∧ Spells texts names := by
  -- The cases are those of the next part: a name, stars for any depth, or another wildcard.
  fun_induction pathsBelow t directories parts path generalizing texts with
  | case1 => simp
  | case2 path =>
      cases hread
      intro p hp
      rw [List.mem_singleton.1 hp]
      exact ⟨[], by simp, .nil⟩
  | case3 part rest path cs hliteral next hnext ih =>
      obtain _ | ⟨hparse, hrest⟩ := hread
      rename_i text texts
      intro p hp
      obtain ⟨hglob, rfl⟩ := literal?_eq_some hparse hliteral
      obtain ⟨htext, hlater⟩ := List.forall_mem_cons.1 hslash
      obtain ⟨names, hnames, hspells⟩ := ih hrest hlater p hp
      refine ⟨_, ?_, .written hglob hspells⟩
      rw [hnames, literalPath?_eq_some hnext, namesOf_childPath (by simpa using htext),
        String.toList_ofList, List.append_assoc]
  | case4 => simp
  | case5 => simp
  | case6 path entries hlist =>
      obtain _ | ⟨hparse, hrest⟩ := hread
      cases hrest
      intro p hp
      obtain ⟨⟨place, e⟩, hmem, rfl⟩ := List.mem_map.1 hp
      have hplace :=
        isName_of_mem_descendants (sound_of_list ht hlist) (List.mem_of_mem_filter hmem)
      refine ⟨place ++ [], ?_, .matched (isGlob_of_literal? hparse rfl) hparse
        (fun n _ => anyDepth_matches _) (.inr rfl) .nil⟩
      rw [namesOf_belowPath hplace, List.append_nil]
  | case7 path entries hlist further hliteral ih =>
      obtain _ | ⟨hparse, hrest⟩ := hread
      intro p hp
      obtain ⟨names, hnames, hspells⟩ := ih hrest (List.forall_mem_cons.1 hslash).2 p hp
      -- Stars in front of stars add no names of their own.
      exact ⟨[] ++ names, hnames, .matched (isGlob_of_literal? hparse hliteral) hparse
        (by simp) (.inr rfl) hspells⟩
  | case8 path entries hlist all q further hq =>
      rename_i ih
      obtain _ | ⟨hparse, hrest⟩ := hread
      obtain _ | ⟨hparse', hrest'⟩ := hrest
      intro p hp
      obtain ⟨⟨place, e⟩, hmem, hp⟩ := List.mem_flatMap.1 hp
      obtain ⟨hmem, hmatch⟩ := List.mem_filter.1 hmem
      have hne := ((Entry.mem_descendants_iff (sound_of_list ht hlist)).1 hmem).1
      have hplace := isName_of_mem_descendants (sound_of_list ht hlist) hmem
      obtain ⟨names, hnames, hspells⟩ := ih place hrest'
        (List.forall_mem_cons.1 (List.forall_mem_cons.1 hslash).2).2 p hp
      -- The part behind the stars stands for the last name, and they for those in front of it.
      obtain ⟨before, last, rfl⟩ := (List.eq_nil_or_concat place).resolve_left hne
      rw [List.concat_eq_append] at *
      have hlast := hspells.cons hparse' (by simpa using hmatch) (hplace last (by simp))
      refine ⟨before ++ (last :: names), ?_, .matched (isGlob_of_literal? hparse rfl) hparse
        (fun n _ => anyDepth_matches _) (.inr rfl) hlast⟩
      rw [hnames, namesOf_belowPath hplace]
      simp
  | case9 part rest path hliteral entries hlist hpart ihdot ih =>
      obtain _ | ⟨hparse, hrest⟩ := hread
      have hglob := isGlob_of_literal? hparse hliteral
      have hlater := (List.forall_mem_cons.1 hslash).2
      intro p hp
      rcases List.mem_append.1 hp with hp | hp
      · -- The part is matched by dots, which are no names.
        obtain ⟨name, hname, hp⟩ := List.mem_flatMap.1 hp
        obtain ⟨names, hnames, hspells⟩ := ihdot name hrest hlater p hp
        refine ⟨[] ++ names, ?_, .matched hglob hparse (by simp) (.inl (by simp)) hspells⟩
        rw [hnames, namesOf_join_dots hname, List.nil_append]
      · obtain ⟨⟨name, e⟩, hmem, hp⟩ := List.mem_flatMap.1 hp
        obtain ⟨hmem, hmatch⟩ := List.mem_filter.1 hmem
        obtain ⟨names, hnames, hspells⟩ := ih name hrest hlater p hp
        have hname : IsName name :=
          (sound_of_list ht hlist [] entries rfl).2 name (List.mem_map_of_mem hmem)
        refine ⟨name :: names, ?_, hspells.cons hparse hmatch hname⟩
        rw [hnames, namesOf_childPath hname.slash, hname.stepOf, List.append_assoc]
        rfl

/-- A slash at the end of a pattern, and one at its beginning, spell no names. -/
theorem Spells.of_patternParts {text : List Char} (h : Spells (patternParts text) names) :
    Spells (Text.splitOn '/' text) names := by
  rw [patternParts] at h
  split at h
  · rename_i hlast
    obtain ⟨before, hbefore⟩ := List.getLast?_eq_some_iff.1 hlast
    rw [hbefore, List.dropLast_concat] at h
    have hend : Spells [[]] [] := .written rfl .nil
    rw [hbefore]
    simpa using h.append hend
  · exact h

theorem spells_of_mem_parts (ht : t.Sound) {directories : Bool} {text : List Char}
    {parts : List Pattern} (hread : (patternParts text).mapM Pattern.parse = .ok parts)
    (hpath : namesOf path = []) (hp : p ∈ pathsBelow t directories parts path) :
    Spells (Text.splitOn '/' text) (namesOf p) := by
  have hslash : ∀ part ∈ patternParts text, '/' ∉ part := by
    intro part hpart hmem
    have hsplit : part ∈ Text.splitOn '/' text := by
      rw [patternParts] at hpart
      split at hpart
      · exact List.mem_of_mem_dropLast hpart
      · exact hpart
    exact (Text.mem_of_mem_splitOn hsplit hmem).2 rfl
  obtain ⟨names, hnames, hspells⟩ :=
    spells_of_mem_pathsBelow ht (Tracked.Spec.mapM_eq_ok_iff.1 hread) hslash p hp
  rw [hnames, hpath]
  exact hspells.of_patternParts

/-- The names on a path that a pattern leads to are those that its parts stand for. -/
theorem spells_of_mem_expand (ht : t.Sound) {text : List Char} (h : expand t text = .ok paths)
    (hp : p ∈ paths) : Spells (Text.splitOn '/' text) (namesOf p) := by
  rw [expand] at h
  split at h
  · cases h
  · simp only at h
    split at h
    · cases h
    · rename_i parts hread
      cases h
      by_cases habsolute : (text.head? == some '/') = true
      · rw [if_pos habsolute] at hread hp
        obtain ⟨rest, rfl⟩ := List.head?_eq_some_iff.1 (beq_iff_eq.1 habsolute)
        rw [Text.splitOn_cons_self]
        exact .written rfl (spells_of_mem_parts ht hread rfl hp)
      · rw [if_neg habsolute] at hread hp
        exact spells_of_mem_parts ht hread rfl hp

/-! ### What a source leads to -/

/-- The files below a directory have its names and behind them further ones, none of them hidden. -/
theorem exists_of_mem_walk (ht : t.Sound) (hp : p ∈ walk t false path) :
    ∃ below, namesOf p = namesOf path ++ below ∧ ∀ n ∈ below, isHidden n = false := by
  obtain ⟨hdirectory, hfile, hvisible, -⟩ := (mem_walk_iff ht).1 hp
  exact ⟨_, namesOf_foldl_join ((ht.entry hdirectory).isName hfile), by simpa using hvisible⟩

/-- What a pattern leads to are the files among its paths that have the right extension, and the
files below the others. -/
theorem filesOf_of_glob (hidden : Bool) (hglob : isGlob source.toList = true)
    (hexpand : expand t source.toList = .ok paths) :
    ∃ found, filesOf t hidden source = .ok found ∧
      ∀ p, p ∈ found ↔ p ∈ paths ∧ t.isFile p = true ∧ isSource p = true ∨
        ∃ q ∈ paths, ¬(t.isFile q = true ∧ isSource q = true) ∧ p ∈ walk t hidden q := by
  refine ⟨_, by rw [filesOf, if_pos hglob, hexpand], fun p => ?_⟩
  rw [List.mem_flatMap]
  constructor
  · rintro ⟨q, hq, hp⟩
    by_cases htaken : t.isFile q = true ∧ isSource q = true
    · rw [if_pos (by simpa using htaken), List.mem_singleton] at hp
      rw [hp]
      exact .inl ⟨hq, htaken⟩
    · rw [if_neg (by simpa using htaken)] at hp
      exact .inr ⟨q, hq, htaken, hp⟩
  · rintro (⟨hp, htaken⟩ | ⟨q, hq, htaken, hp⟩)
    · refine ⟨p, hp, ?_⟩
      rw [if_pos (by simpa using htaken)]
      exact List.mem_singleton_self p
    · refine ⟨q, hq, ?_⟩
      rwa [if_neg (by simpa using htaken)]

/-- The files that a source leads to have names that its parts stand for, and behind them further
ones, none of them hidden. -/
theorem exists_spells_of_mem_filesOf (ht : t.Sound) {found : List String}
    (h : filesOf t false source = .ok found) (hp : p ∈ found) :
    ∃ given below, namesOf p = given ++ below ∧ Spells (Text.splitOn '/' source.toList) given ∧
      ∀ n ∈ below, isHidden n = false := by
  by_cases hglob : isGlob source.toList = true
  · -- A path of the pattern is taken as it is or searched; it is never asked whether it is hidden.
    cases hexpand : expand t source.toList with
    | error e => simp [filesOf, hglob, hexpand] at h
    | ok paths =>
        obtain ⟨found', hfound', hmem⟩ := filesOf_of_glob false hglob hexpand
        rw [hfound'] at h
        cases h
        rcases (hmem p).1 hp with ⟨hpath, -, -⟩ | ⟨q, hq, -, hbelow⟩
        · exact ⟨namesOf p, [], by simp, spells_of_mem_expand ht hexpand hpath, by simp⟩
        · obtain ⟨below, hnames, hvisible⟩ := exists_of_mem_walk ht hbelow
          exact ⟨namesOf q, below, hnames, spells_of_mem_expand ht hexpand hq, hvisible⟩
  · have hplain : Spells (Text.splitOn '/' source.toList) (namesOf source) :=
      .of_plain fun part => isGlob_of_mem_splitOn (eq_false_of_ne_true hglob)
    rw [filesOf, if_neg hglob] at h
    split at h
    · cases h
      rw [List.mem_singleton.1 hp]
      exact ⟨namesOf source, [], by simp, hplain, by simp⟩
    · cases h
      obtain ⟨below, hnames, hvisible⟩ := exists_of_mem_walk ht hp
      exact ⟨namesOf source, below, hnames, hplain, hvisible⟩

/-! ### What is collected -/

/-- What is collected is found from one of the sources. -/
theorem exists_of_collect (h : collect t sources x = .ok paths) (hp : p ∈ paths) :
    ∃ s ∈ sources, ∃ found, filesOf t x.includeHidden s = .ok found ∧ p ∈ found := by
  simp only [collect, bind, Except.bind, pure, Except.pure] at h
  split at h
  · cases h
  · rename_i found hfound
    split at h
    · cases h
    · cases h
      obtain ⟨l, hl, hp⟩ := List.mem_flatten.1 (mem_of_mem_inOrder (List.mem_of_mem_filter hp))
      obtain ⟨s, hs, hl⟩ := (mem_iff_of_mapM hfound).1 hl
      exact ⟨s, hs, l, mapError_eq_ok_iff.1 hl, hp⟩

theorem exists_of_mapM_error {α β ε : Type} {f : α → Except ε β} {l : List α} {e : ε}
    (h : l.mapM f = .error e) : ∃ a ∈ l, f a = .error e := by
  induction l with
  | nil => cases h
  | cons a rest ih =>
      rw [List.mapM_cons] at h
      cases hfirst : f a with
      | error e' =>
          rw [hfirst] at h
          cases h
          exact ⟨a, List.mem_cons_self, hfirst⟩
      | ok b =>
          rw [hfirst] at h
          cases hrest : rest.mapM f with
          | error e' =>
              rw [hrest] at h ih
              cases h
              obtain ⟨a', ha', hfault⟩ := ih rfl
              exact ⟨a', List.mem_cons_of_mem _ ha', hfault⟩
          | ok bs =>
              rw [hrest] at h
              cases h

/-- A source can only fail to be read as a pattern. -/
theorem filesOf_eq_error_iff {e : PatternError} :
    filesOf t hidden source = .error e ↔
      isGlob source.toList = true ∧ expand t source.toList = .error e := by
  rw [filesOf]
  by_cases hglob : isGlob source.toList = true
  · rw [if_pos hglob]
    cases expand t source.toList <;> simp [hglob]
  · rw [if_neg hglob]
    split <;> simp [hglob]

/-- If nothing is excluded, all that is found is collected, unless a source cannot be read. -/
theorem collect_unexcluded (t : Tree) (sources : List String) (hpatterns : x.patterns = [])
    (hfiles : x.files = []) :
    (∃ s ∈ sources, ∃ e, filesOf t x.includeHidden s = .error e ∧
        collect t sources x = .error (.source s e)) ∨
      ∃ found, collect t sources x = .ok (inOrder found) ∧ ∀ s ∈ sources, ∃ l,
        filesOf t x.includeHidden s = .ok l ∧ ∀ p ∈ l, p ∈ found := by
  cases hread : sources.mapM
      (fun s => (filesOf t x.includeHidden s).mapError (CollectError.source s)) with
  | error e =>
      obtain ⟨s, hs, hfault⟩ := exists_of_mapM_error hread
      cases hsource : filesOf t x.includeHidden s with
      | ok l => simp [hsource, Except.mapError] at hfault
      | error e' =>
          rw [hsource] at hfault
          cases hfault
          refine .inl ⟨s, hs, e', hsource, ?_⟩
          simp [collect, hread, bind, Except.bind]
  | ok found =>
      refine .inr ⟨found.flatten, ?_, fun s hs => ?_⟩
      · have hkept : ∀ p, isExcluded t [] [] [] p = false := by
          intro p
          rw [isExcluded]
          cases t.resolve p <;> rfl
        simp [collect, hread, hpatterns, hfiles, hkept, bind, Except.bind, pure, Except.pure]
      · obtain ⟨l, hl⟩ := exists_mapM_iff.1 ⟨found, hread⟩ s hs
        have hmem : l ∈ found := (mem_iff_of_mapM hread).2 ⟨s, hs, hl⟩
        exact ⟨l, mapError_eq_ok_iff.1 hl, fun p hp => List.mem_flatten.2 ⟨l, hmem, hp⟩⟩

/-- A file that is named is collected if nothing is excluded and all sources can be read, unless its
name is a pattern.  Such a file is collected too if it has the right extension and its name, as a
pattern, matches itself. -/
theorem named_file_collected (hnamed : path ∈ sources) (hfile : t.isFile path = true)
    (hpatterns : x.patterns = []) (hfiles : x.files = []) :
    (∃ s ∈ sources, ∃ e, isGlob s.toList = true ∧ expand t s.toList = .error e ∧
        collect t sources x = .error (.source s e)) ∨
      ∃ paths, collect t sources x = .ok paths ∧
        ((∃ q ∈ paths, components q = components path) ∨
          isGlob path.toList = true ∧ ∃ matched, expand t path.toList = .ok matched ∧
            ¬(path ∈ matched ∧ isSource path = true)) := by
  rcases collect_unexcluded t sources hpatterns hfiles with
    ⟨s, hs, e, hfault, hcollect⟩ | ⟨found, hcollect, hall⟩
  · obtain ⟨hglob, hexpand⟩ := filesOf_eq_error_iff.1 hfault
    exact .inl ⟨s, hs, e, hglob, hexpand, hcollect⟩
  · obtain ⟨l, hl, hfound⟩ := hall path hnamed
    refine .inr ⟨inOrder found, hcollect, ?_⟩
    by_cases hglob : isGlob path.toList = true
    · cases hexpand : expand t path.toList with
      | error e =>
          rw [filesOf_eq_error_iff.2 ⟨hglob, hexpand⟩] at hl
          cases hl
      | ok matched =>
          by_cases htaken : path ∈ matched ∧ isSource path = true
          · obtain ⟨l', hl', hmem⟩ := filesOf_of_glob x.includeHidden hglob hexpand
            rw [hl'] at hl
            cases hl
            have hpath := (hmem path).2 (.inl ⟨htaken.1, hfile, htaken.2⟩)
            exact .inl (exists_mem_inOrder (hfound path hpath))
          · exact .inr ⟨hglob, matched, rfl, htaken⟩
    · rw [filesOf, if_neg hglob, if_pos hfile] at hl
      cases hl
      exact .inl (exists_mem_inOrder (hfound path List.mem_cons_self))

/-- Files with names of several kinds. -/
def oddTree : Tree :=
  ⟨.directory [("notes.txt", .file ⟨[], true, true⟩), ("a[1].py", .file ⟨[], true, true⟩),
    ("what?.txt", .file ⟨[], true, true⟩), ("x[.py", .file ⟨[], true, true⟩)], []⟩

/-- A file without the usual extension is collected, though a later source is a pattern. -/
theorem named_file_collected_notes :
    oddTree.isFile "notes.txt" = true ∧
      ∃ paths, collect oddTree ["notes.txt", "*.py"] {} = .ok paths ∧
        ∃ q ∈ paths, components q = components "notes.txt" := by
  have hfile : oddTree.isFile "notes.txt" = true := by decide +kernel
  refine ⟨hfile, ?_⟩
  have hnamed : "notes.txt" ∈ ["notes.txt", "*.py"] := List.mem_cons_self
  obtain ⟨s, hs, e, hglob, hexpand, -⟩ | ⟨paths, hcollect, hpath | ⟨hglob, -⟩⟩ :=
    named_file_collected (x := {}) hnamed hfile rfl rfl
  · have hread : expand oddTree "*.py".toList = .ok ["a[1].py", "x[.py"] := by decide +kernel
    rcases List.mem_pair.1 hs with rfl | rfl
    · cases hglob
    · rw [hread] at hexpand
      cases hexpand
  · exact ⟨paths, hcollect, hpath⟩
  · cases hglob

/-- Three named files that are not collected.  As patterns, the name of the first has another
extension, that of the second does not match itself, and that of the third cannot be read. -/
theorem named_file_dropped :
    (∀ path ∈ ["what?.txt", "a[1].py", "x[.py"], oddTree.isFile path = true) ∧
      collect oddTree ["what?.txt"] {} = .ok [] ∧ collect oddTree ["a[1].py"] {} = .ok [] ∧
      collect oddTree ["x[.py"] {} = .error (.source "x[.py" ⟨1, .range⟩) := by
  refine ⟨?_, ?_, ?_, ?_⟩ <;> decide +kernel

/-- If hidden names do not count, each collected path has names that the parts of one source stand
for, and behind them further ones that are not hidden.  So a hidden name on it is written in the
source, or a wildcard there matches it. -/
theorem hidden_written_or_matched (ht : t.Sound) (hx : x.includeHidden = false)
    (h : collect t sources x = .ok paths) (hp : p ∈ paths) :
    ∃ s ∈ sources,
      (∃ given below, namesOf p = given ++ below ∧ Spells (Text.splitOn '/' s.toList) given ∧
        ∀ n ∈ below, isHidden n = false) ∧
      ∀ n ∈ namesOf p, isHidden n = true → n.toList ∈ Text.splitOn '/' s.toList ∨
        ∃ part ∈ Text.splitOn '/' s.toList, isGlob part = true ∧
          ∃ pattern, Pattern.parse part = .ok pattern ∧ pattern.matches n.toList = true := by
  obtain ⟨s, hs, found, hfound, hp⟩ := exists_of_collect h hp
  rw [hx] at hfound
  obtain ⟨given, below, hnames, hspells, hvisible⟩ := exists_spells_of_mem_filesOf ht hfound hp
  refine ⟨s, hs, ⟨given, below, hnames, hspells, hvisible⟩, fun n hn hhidden => ?_⟩
  rw [hnames] at hn
  rcases List.mem_append.1 hn with hn | hn
  · exact hspells.written_or_matched hn
  · rw [hvisible n hn] at hhidden
    cases hhidden

/-- What is hidden in the working directory is found only because its name is written. -/
theorem hidden_written_or_matched_searched :
    collect workTree [".", ".venv/*.py"] {} =
        .ok ["./a.py", "./sub/b.py", "./sub/d.py", "./sub/gen_c.py", ".venv/e.py"] ∧
      ∃ s ∈ [".", ".venv/*.py"], ∃ given below, [".venv", "e.py"] = given ++ below ∧
        Spells (Text.splitOn '/' s.toList) given ∧ ∀ n ∈ below, isHidden n = false := by
  have h : collect workTree [".", ".venv/*.py"] {} =
      .ok ["./a.py", "./sub/b.py", "./sub/d.py", "./sub/gen_c.py", ".venv/e.py"] := by
    decide +kernel
  obtain ⟨s, hs, hspells, -⟩ :=
    hidden_written_or_matched sound_workTree rfl h (p := ".venv/e.py") (by simp)
  exact ⟨h, s, hs, hspells⟩

/-- A star matches the name of a hidden directory, and leads to what is in it. -/
theorem hidden_matched :
    collect workTree ["*/e.py"] {} = .ok [".venv/e.py"] ∧
      collect workTree ["*"] {} =
        .ok [".venv/e.py", "a.py", "sub/b.py", "sub/d.py", "sub/gen_c.py"] ∧
      isHidden ".venv" = true ∧ ".venv" ∈ namesOf ".venv/e.py" ∧ ".venv" ∉ namesOf "*/e.py" := by
  refine ⟨?_, ?_, ?_, ?_, ?_⟩ <;> decide +kernel

end Files

end Longhand
