import Longhand.Proofs.Line
import Longhand.Proofs.TrackedPath

/-!
# The two spellings of a module spec

A spec is read if and only if it is written with a colon or with a dot in front of its entry, blanks
around it apart, and is made of flag names.  No such name contains a dot, a colon, a comma or a blank,
so that neither spelling can be taken for another spec, a list of specs in either spelling is read back,
and modules with one path are the same.
-/

namespace Longhand

/-! ## Cutting a text -/

namespace Text

variable {separator : Char} {cs a b : List Char}

theorem cutFirst?_eq_some_iff :
    cutFirst? separator cs = some (a, b) ↔ cs = a ++ separator :: b ∧ separator ∉ a := by
  induction cs generalizing a with
  | nil => simp [cutFirst?]
  | cons c rest ih =>
      rw [cutFirst?]
      by_cases hc : c = separator
      · subst hc
        cases a with
        | nil => simp [eq_comm]
        | cons d a =>
            rw [if_pos (beq_self_eq_true c)]
            constructor
            · intro h
              cases h
            · rintro ⟨h, hnot⟩
              rw [(List.cons.inj h).1] at hnot
              exact absurd List.mem_cons_self hnot
      · rw [if_neg (by simpa using hc), Option.map_eq_some_iff]
        constructor
        · rintro ⟨⟨before, after⟩, hrest, heq⟩
          cases heq
          obtain ⟨rfl, hnot⟩ := ih.1 hrest
          exact ⟨rfl, by simp [hnot, Ne.symm hc]⟩
        · rintro ⟨h, hnot⟩
          cases a with
          | nil => exact absurd (List.cons.inj h).1 hc
          | cons d a =>
              obtain ⟨rfl, hrest⟩ := List.cons.inj h
              exact ⟨(a, b), ih.2 ⟨hrest, fun hmem => hnot (List.mem_cons_of_mem _ hmem)⟩, rfl⟩

theorem cutFirst?_eq_none_iff : cutFirst? separator cs = none ↔ separator ∉ cs := by
  induction cs with
  | nil => simp [cutFirst?]
  | cons c rest ih =>
      rw [cutFirst?]
      by_cases hc : c = separator
      · simp [hc]
      · simp [hc, ih, Ne.symm hc]

theorem cutLast?_eq_none_iff : cutLast? separator cs = none ↔ separator ∉ cs := by
  induction cs with
  | nil => simp [cutLast?]
  | cons c rest ih =>
      rw [cutLast?]
      cases hrest : cutLast? separator rest with
      | none =>
          have hnot := ih.1 hrest
          by_cases hc : c = separator
          · simp [hc]
          · simp [hc, hnot, Ne.symm hc]
      | some cut =>
          have hmem : separator ∈ rest := by
            by_contra hnot
            rw [ih.2 hnot] at hrest
            cases hrest
          simp [hmem]

theorem cutLast?_eq_some_iff :
    cutLast? separator cs = some (a, b) ↔ cs = a ++ separator :: b ∧ separator ∉ b := by
  induction cs generalizing a b with
  | nil => simp [cutLast?]
  | cons c rest ih =>
      rw [cutLast?]
      cases hrest : cutLast? separator rest with
      | some cut =>
          obtain ⟨before, after⟩ := cut
          obtain ⟨hcut, hafter⟩ := ih.1 hrest
          constructor
          · intro h
            cases h
            exact ⟨by rw [hcut]; rfl, hafter⟩
          · rintro ⟨h, hnot⟩
            cases a with
            | nil =>
                -- The first character would be the last separator, but there is one behind it.
                obtain ⟨-, rfl⟩ := List.cons.inj h
                rw [hcut] at hnot
                simp at hnot
            | cons d a =>
                obtain ⟨rfl, hsplit⟩ := List.cons.inj h
                have heq := ih.2 ⟨hsplit, hnot⟩
                rw [hrest] at heq
                cases heq
                rfl
      | none =>
          have hnot := cutLast?_eq_none_iff.1 hrest
          dsimp only
          constructor
          · intro h
            split at h
            · rename_i hc
              cases h
              exact ⟨by rw [beq_iff_eq.1 hc]; rfl, hnot⟩
            · cases h
          · rintro ⟨h, -⟩
            cases a with
            | nil =>
                obtain ⟨rfl, rfl⟩ := List.cons.inj h
                rw [if_pos (beq_self_eq_true c)]
            | cons d a =>
                obtain ⟨-, rfl⟩ := List.cons.inj h
                simp at hnot

/-- Each character of a text is a separator or stands in one of the parts between them. -/
theorem mem_parts {c : Char} (hc : c ∈ cs) :
    c = separator ∨ ∃ part ∈ splitOn separator cs, c ∈ part := by
  induction cs with
  | nil => cases hc
  | cons d rest ih =>
      obtain ⟨part, parts, hsplit⟩ := List.exists_cons_of_ne_nil (splitOn_ne_nil separator rest)
      rw [splitOn, hsplit]
      rw [hsplit] at ih
      by_cases hd : d = separator
      · rw [if_pos (by simpa using hd)]
        rcases List.mem_cons.1 hc with rfl | hc
        · exact .inl hd
        · rcases ih hc with heq | ⟨p, hp, hmem⟩
          · exact .inl heq
          · exact .inr ⟨p, List.mem_cons_of_mem _ hp, hmem⟩
      · rw [if_neg (by simpa using hd)]
        rcases List.mem_cons.1 hc with rfl | hc
        · exact .inr ⟨c :: part, List.mem_cons_self, List.mem_cons_self⟩
        · rcases ih hc with heq | ⟨p, hp, hmem⟩
          · exact .inl heq
          · rcases List.mem_cons.1 hp with rfl | hp
            · exact .inr ⟨d :: p, List.mem_cons_self, List.mem_cons_of_mem _ hmem⟩
            · exact .inr ⟨p, List.mem_cons_of_mem _ hp, hmem⟩

/-- Parts without separators are got back from the text that they are joined to. -/
theorem splitOn_joinWith {parts : List (List Char)} (hne : parts ≠ [])
    (h : ∀ part ∈ parts, separator ∉ part) :
    splitOn separator (joinWith [separator] parts) = parts := by
  induction parts with
  | nil => exact absurd rfl hne
  | cons part rest ih =>
      have hpart := h part List.mem_cons_self
      have hrest := fun q hq => h q (List.mem_cons_of_mem _ hq)
      have hsingle : splitOn separator part = [part] := by
        have hsplit : splitOn separator (part ++ []) = [part ++ []] :=
          splitOn_append_of_notMem hpart rfl
        simpa using hsplit
      cases rest with
      | nil => simpa [joinWith, List.intercalate] using hsingle
      | cons q rest =>
          rw [joinWith, List.intercalate_cons_cons, List.append_assoc, List.singleton_append,
            splitOn_append, hsingle]
          exact congrArg (part :: ·) (ih (List.cons_ne_nil _ _) hrest)

/-- A text without blanks has none at its ends. -/
theorem trim_of_unblank (h : ∀ c ∈ cs, isBlank c = false) : trim cs = cs := by
  have drop : ∀ l : List Char, (∀ c ∈ l, isBlank c = false) → l.dropWhile isBlank = l := by
    intro l hl
    cases l with
    | nil => rfl
    | cons c rest => rw [List.dropWhile_cons_of_neg (by simp [hl c List.mem_cons_self])]
  rw [trim, drop cs h, drop _ fun c hc => h c (List.mem_reverse.1 hc), List.reverse_reverse]

end Text

/-! ## Characters of names -/

namespace Flag

/-- The separators of specs, of their lists and of their tables occur in no flag. -/
theorem isFlagChar_of_mem_separators : ∀ c ∈ ['.', ':', ',', '='], isFlagChar c = false :=
  Draft.forall_mem_of_all (by decide +kernel)

/-- No blank occurs in a flag. -/
theorem isBlank_of_isFlagChar {c : Char} (h : isFlagChar c = true) : Text.isBlank c = false := by
  have hblanks : ∀ r ∈ Text.CharTable.blank, ∀ n ∈ List.range' r.1 (r.2 + 1 - r.1),
      (Text.CharTable.contains Text.CharTable.alphabetic n ||
        Text.CharTable.contains Text.CharTable.numeric n || n == '_'.toNat) = false := by
    decide +kernel
  rw [Bool.eq_false_iff]
  intro hblank
  obtain ⟨r, hr, hlow, hhigh⟩ := Text.CharTable.exists_of_contains hblank
  have hnone := hblanks r hr c.toNat (List.mem_range'_1.2 ⟨hlow, by omega⟩)
  have hname : c = '_' → c.toNat = '_'.toNat := congrArg Char.toNat
  simp only [isFlagChar, Text.isAlphanumeric, Text.isAlphabetic, Text.isNumeric, Bool.or_eq_true,
    beq_iff_eq] at h
  simp only [Bool.or_eq_false_iff, beq_eq_false_iff_ne] at hnone
  rcases h with (h | h) | h
  · rw [hnone.1.1] at h
    cases h
  · rw [hnone.1.2] at h
    cases h
  · exact hnone.2 (hname h)

end Flag

namespace Tracked.Spec

open Text

variable {s s' : Spec} {cs : List Char} {c : Char}

/-- Whether a spec is made of flag names: its package of names between dots, its entry of one. -/
structure Sound (s : Spec) : Prop where
  package : ∀ part ∈ splitOn '.' s.package.toList, Flag.isUsable (String.ofList part) = true
  entry : Flag.isUsable s.entry = true

namespace Sound

theorem isFlagChar_of_mem_entry (h : s.Sound) (hc : c ∈ s.entry.toList) :
    Flag.isFlagChar c = true :=
  (Flag.isWord_of_isUsable h.entry).2 c hc

theorem isFlagChar_of_mem_package (h : s.Sound) (hc : c ∈ s.package.toList) :
    c = '.' ∨ Flag.isFlagChar c = true := by
  have hparts : c = '.' ∨ ∃ part ∈ splitOn '.' s.package.toList, c ∈ part := mem_parts hc
  rcases hparts with heq | ⟨part, hpart, hmem⟩
  · exact .inl heq
  · have hword := Flag.isWord_of_isUsable (h.package part hpart)
    rw [String.toList_ofList] at hword
    exact .inr (hword.2 c hmem)

theorem entry_ne_nil (h : s.Sound) : s.entry.toList ≠ [] :=
  (Flag.isWord_of_isUsable h.entry).1

theorem package_ne_nil (h : s.Sound) : s.package.toList ≠ [] := by
  intro hnil
  have husable := h.package [] (by rw [hnil]; exact List.mem_singleton.2 rfl)
  cases husable

/-- The package has no separators but dots, and the entry has none. -/
theorem notMem (h : s.Sound) {d : Char} (hd : d ∈ ['.', ':', ',', '=']) :
    d ∉ s.entry.toList ∧ (d ≠ '.' → d ∉ s.package.toList) := by
  have hnone := Flag.isFlagChar_of_mem_separators d hd
  constructor
  · intro hmem
    rw [h.isFlagChar_of_mem_entry hmem] at hnone
    cases hnone
  · intro hne hmem
    rw [(h.isFlagChar_of_mem_package hmem).resolve_left hne] at hnone
    cases hnone

end Sound

theorem toList_text (s : Spec) : s.text.toList = s.package.toList ++ ':' :: s.entry.toList := by
  simp [text]

theorem toList_path (s : Spec) : s.path.toList = s.package.toList ++ '.' :: s.entry.toList := by
  simp [path]

/-! ## One spec -/

/-- A spec is read where it is cut, if it is made of flag names. -/
theorem parse_eq_ok_iff_cut : parse cs = .ok s ↔ s.Sound ∧
    (cutFirst? ':' (trim cs)).or (cutLast? '.' (trim cs)) =
      some (s.package.toList, s.entry.toList) := by
  unfold parse
  dsimp only
  cases hcut : (cutFirst? ':' (trim cs)).or (cutLast? '.' (trim cs)) with
  | none => simp
  | some cut =>
      obtain ⟨package, entry⟩ := cut
      dsimp only
      constructor
      · intro h
        split at h
        · cases h
        split at h
        · cases h
        rename_i hpackage
        split at h
        · cases h
        rename_i hentry
        cases h
        refine ⟨⟨?_, ?_⟩, by simp⟩
        · rw [String.toList_ofList]
          simpa using hpackage
        · simpa using hentry
      · rintro ⟨hsound, heq⟩
        cases heq
        have hpackage := hsound.package
        have hentry := hsound.entry
        rw [if_neg (by simp [hsound.package_ne_nil, hsound.entry_ne_nil]),
          if_neg (by simpa using hpackage), if_neg (by simpa using hentry)]
        simp

/-- The cut of a text gives a sound spec if and only if the text is one of its two spellings. -/
theorem Sound.cut_iff (h : s.Sound) : (cutFirst? ':' cs).or (cutLast? '.' cs) =
    some (s.package.toList, s.entry.toList) ↔ cs = s.text.toList ∨ cs = s.path.toList := by
  obtain ⟨hentry, hpackage⟩ := h.notMem (d := ':') (by simp)
  have hdot := (h.notMem (d := '.') (by simp)).1
  rw [toList_text, toList_path, Option.or_eq_some_iff, cutFirst?_eq_some_iff,
    cutFirst?_eq_none_iff, cutLast?_eq_some_iff]
  constructor
  · rintro (⟨htext, -⟩ | ⟨-, hpath, -⟩)
    · exact .inl htext
    · exact .inr hpath
  · rintro (rfl | rfl)
    · exact .inl ⟨rfl, hpackage (by decide)⟩
    · exact .inr ⟨by simp [hpackage, hentry], rfl, hdot⟩

/-- A text is read as a spec if and only if the spec is made of flag names and the text is one of its
spellings, blanks around it apart. -/
theorem parse_eq_ok_iff :
    parse cs = .ok s ↔ s.Sound ∧ (trim cs = s.text.toList ∨ trim cs = s.path.toList) := by
  rw [parse_eq_ok_iff_cut]
  exact and_congr_right fun h => h.cut_iff

/-- Specs with one path are the same: the entry is what follows the last dot. -/
theorem Sound.eq_of_path (h : s.Sound) (h' : s'.Sound) (heq : s.path = s'.path) : s = s' := by
  have hcut : cutLast? '.' s.path.toList = some (s.package.toList, s.entry.toList) :=
    cutLast?_eq_some_iff.2 ⟨toList_path s, (h.notMem (by simp)).1⟩
  have hcut' : cutLast? '.' s'.path.toList = some (s'.package.toList, s'.entry.toList) :=
    cutLast?_eq_some_iff.2 ⟨toList_path s', (h'.notMem (by simp)).1⟩
  rw [heq, hcut', Option.some.injEq, Prod.mk.injEq, String.toList_inj, String.toList_inj] at hcut
  obtain ⟨package, entry⟩ := s
  obtain ⟨package', entry'⟩ := s'
  obtain ⟨rfl, rfl⟩ := hcut
  rfl

/-- The two spellings of a spec. -/
def IsSpelling (s : Spec) (written : String) : Prop :=
  written = s.text ∨ written = s.path

/-- A spelling of a sound spec contains no comma and no blank, and is not empty. -/
theorem Sound.spelling (h : s.Sound) {written : String} (hwritten : s.IsSpelling written) :
    ',' ∉ written.toList ∧ trim written.toList = written.toList ∧ written.toList ≠ [] := by
  obtain ⟨separator, hseparator, hlist⟩ : ∃ separator ∈ [':', '.'],
      written.toList = s.package.toList ++ separator :: s.entry.toList := by
    rcases hwritten with rfl | rfl
    · exact ⟨':', by simp, toList_text s⟩
    · exact ⟨'.', by simp, toList_path s⟩
  obtain ⟨hentry, hpackage⟩ := h.notMem (d := ',') (by simp)
  have hother : ∀ d ∈ [':', '.'], d ≠ ',' ∧ isBlank d = false :=
    Draft.forall_mem_of_all (by decide +kernel)
  obtain ⟨hne, hblank⟩ := hother separator hseparator
  rw [hlist]
  refine ⟨by simp [hpackage, hentry, Ne.symm hne], trim_of_unblank fun c hc => ?_, by simp⟩
  rcases List.mem_append.1 hc with hc | hc
  · rcases h.isFlagChar_of_mem_package hc with rfl | hflag
    · exact (hother '.' (by simp)).2
    · exact Flag.isBlank_of_isFlagChar hflag
  · rcases List.mem_cons.1 hc with rfl | hc
    · exact hblank
    · exact Flag.isBlank_of_isFlagChar (h.isFlagChar_of_mem_entry hc)

theorem Sound.parse_spelling (h : s.Sound) {written : String} (hwritten : s.IsSpelling written) :
    parse written.toList = .ok s := by
  rw [parse_eq_ok_iff, (h.spelling hwritten).2.1]
  refine ⟨h, ?_⟩
  rcases hwritten with rfl | rfl
  · exact .inl rfl
  · exact .inr rfl

/-! ## Lists of specs -/

/-- A list is mapped if and only if each of its members is. -/
theorem mapM_eq_ok_iff {α β ε : Type} {f : α → Except ε β} {l : List α} {ys : List β} :
    l.mapM f = .ok ys ↔ List.Forall₂ (fun x y => f x = .ok y) l ys := by
  induction l generalizing ys with
  | nil => simp [pure, Except.pure, eq_comm]
  | cons x rest ih =>
      rw [List.mapM_cons]
      cases hx : f x with
      | error e => simp [bind, Except.bind, List.forall₂_cons_left_iff, hx]
      | ok y =>
          cases hrest : rest.mapM f with
          | error e => simp [bind, Except.bind, List.forall₂_cons_left_iff, hx, ← ih, hrest]
          | ok zs =>
              simp only [bind, Except.bind, pure, Except.pure, List.forall₂_cons_left_iff, hx, ← ih,
                hrest, Except.ok.injEq]
              constructor
              · rintro rfl
                exact ⟨y, zs, rfl, rfl, rfl⟩
              · rintro ⟨_, _, rfl, rfl, rfl⟩
                rfl

/-- The items of a list of specs that are not blank. -/
def items (written : String) : List (List Char) :=
  (splitOn ',' written.toList).filter fun part => !(trim part).isEmpty

/-- All specs of a list that is read are made of flag names. -/
theorem sound_of_parseList {written : String} {specs : List Spec}
    (h : parseList written = .ok specs) : ∀ s ∈ specs, s.Sound := by
  have hread : List.Forall₂ (fun part s => parse part = .ok s) (items written) specs :=
    mapM_eq_ok_iff.1 h
  intro s hs
  obtain ⟨i, hi, rfl⟩ := List.getElem_of_mem hs
  have hparse := (List.forall₂_iff_get.1 hread).2 i (by rw [hread.length_eq]; exact hi) hi
  exact (parse_eq_ok_iff.1 hparse).1

/-- Spellings of sound specs with commas between them are read as these specs. -/
theorem parseList_spellings {specs : List Spec} {spellings : List String}
    (hsound : ∀ s ∈ specs, s.Sound) (h : List.Forall₂ IsSpelling specs spellings) :
    parseList (",".intercalate spellings) = .ok specs := by
  have hfacts : ∀ written ∈ spellings,
      ',' ∉ written.toList ∧ trim written.toList = written.toList ∧ written.toList ≠ [] := by
    intro written hwritten
    obtain ⟨i, hi, rfl⟩ := List.getElem_of_mem hwritten
    have hi' : i < specs.length := by rw [h.length_eq]; exact hi
    have hspelling := (List.forall₂_iff_get.1 h).2 i hi' hi
    exact (hsound _ (List.getElem_mem hi')).spelling hspelling
  have hitems : items (",".intercalate spellings) = spellings.map String.toList := by
    rw [items, String.toList_intercalate]
    by_cases hnil : spellings = []
    · rw [hnil]
      rfl
    · have hsplit : splitOn ',' (joinWith [','] (spellings.map String.toList)) =
          spellings.map String.toList := by
        refine splitOn_joinWith (by simpa using hnil) fun part hpart => ?_
        obtain ⟨written, hwritten, rfl⟩ := List.mem_map.1 hpart
        exact (hfacts written hwritten).1
      refine Eq.trans (congrArg _ hsplit) (List.filter_eq_self.2 fun part hpart => ?_)
      obtain ⟨written, hwritten, rfl⟩ := List.mem_map.1 hpart
      obtain ⟨-, htrim, hne⟩ := hfacts written hwritten
      simp [htrim, hne]
  have hread : List.Forall₂ (fun part s => parse part = .ok s) (spellings.map String.toList)
      specs := by
    rw [List.forall₂_map_left_iff]
    clear hfacts hitems
    induction h with
    | nil => exact .nil
    | @cons s written specs spellings hspelling _ ih =>
        refine .cons ?_ (ih fun s hs => hsound s (List.mem_cons_of_mem _ hs))
        exact (hsound s List.mem_cons_self).parse_spelling hspelling
  have hlist : (items (",".intercalate spellings)).mapM parse = .ok specs := by
    rw [hitems]
    exact mapM_eq_ok_iff.2 hread
  exact hlist

/-- The specs of a list that is read, spelled with colons and joined by commas, are read again, and so
are their dotted paths.  Modules of lists that are read have one path only if they are the same. -/
theorem parseList_respelled {written : String} {specs : List Spec}
    (h : parseList written = .ok specs) :
    parseList (",".intercalate (specs.map text)) = .ok specs ∧
      parseList (",".intercalate (specs.map path)) = .ok specs ∧
      ∀ written' specs', parseList written' = .ok specs' →
        ∀ a ∈ specs, ∀ b ∈ specs', a.path = b.path → a = b := by
  have hsound := sound_of_parseList h
  have respelled : ∀ f : Spec → String, (∀ s : Spec, s.IsSpelling (f s)) →
      parseList (",".intercalate (specs.map f)) = .ok specs := by
    intro f hf
    refine parseList_spellings hsound ?_
    rw [List.forall₂_map_right_iff]
    exact List.forall₂_same.2 fun s _ => hf s
  refine ⟨respelled text fun s => .inl rfl, respelled path fun s => .inr rfl, ?_⟩
  intro written' specs' h' a ha b hb heq
  exact (hsound a ha).eq_of_path (sound_of_parseList h' b hb) heq

/-- Both spellings, with blanks, empty items and a letter of two bytes. -/
theorem parseList_respelled_mixed :
    parseList " studio.tools:é_1,, \u00a0maya.cmds ," =
        .ok [⟨"studio.tools", "é_1"⟩, ⟨"maya", "cmds"⟩] ∧
      parseList "studio.tools:é_1,maya:cmds" =
        .ok [⟨"studio.tools", "é_1"⟩, ⟨"maya", "cmds"⟩] ∧
      parseList "studio.tools.é_1,maya.cmds" =
        .ok [⟨"studio.tools", "é_1"⟩, ⟨"maya", "cmds"⟩] := by
  have hread : parseList " studio.tools:é_1,, \u00a0maya.cmds ," =
      .ok [⟨"studio.tools", "é_1"⟩, ⟨"maya", "cmds"⟩] := by
    decide +kernel
  obtain ⟨htext, hpath, -⟩ := parseList_respelled hread
  exact ⟨hread, htext, hpath⟩

end Tracked.Spec

end Longhand
