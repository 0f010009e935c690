import Longhand.Files.Tree

/-!
# One file overwritten

A file of a tree is overwritten and everything else is as before.  All paths lead where they led,
the other files are read and written as before, and two files may be overwritten in either order.
-/

namespace Longhand.Files

namespace Entry

variable {name n : String} {f g : Entry → Entry} {entries : List (String × Entry)}

theorem lookup_adjust_self :
    (adjust name f entries).lookup name = (entries.lookup name).map f := by
  induction entries with
  | nil => rfl
  | cons head rest ih =>
      obtain ⟨m, e⟩ := head
      by_cases h : m = name
      · subst h; simp [adjust]
      · have h' : (name == m) = false := by simpa using fun hm => h hm.symm
        simp [adjust, h, List.lookup_cons, h', ih]

theorem lookup_adjust_ne (h : n ≠ name) :
    (adjust name f entries).lookup n = entries.lookup n := by
  induction entries with
  | nil => rfl
  | cons head rest ih =>
      obtain ⟨m, e⟩ := head
      by_cases hm : m = name
      · subst hm
        have h' : (n == m) = false := by simpa using h
        simp [adjust, List.lookup_cons, h']
      · simp [adjust, hm, List.lookup_cons, ih]

/-- What is done to an entry counts at that entry only. -/
theorem adjust_congr (h : ∀ e, entries.lookup name = some e → f e = g e) :
    adjust name f entries = adjust name g entries := by
  induction entries with
  | nil => rfl
  | cons head rest ih =>
      obtain ⟨m, e⟩ := head
      by_cases hm : m = name
      · subst hm
        simp [adjust, h e (by simp)]
      · have h' : (name == m) = false := by simpa using fun hn => hm hn.symm
        simp only [adjust, beq_iff_eq, hm, if_false]
        rw [ih fun e he => h e (by simpa [List.lookup_cons, h'] using he)]

theorem adjust_adjust_self :
    adjust name f (adjust name g entries) = adjust name (f ∘ g) entries := by
  induction entries with
  | nil => rfl
  | cons head rest ih =>
      obtain ⟨m, e⟩ := head
      by_cases hm : m = name <;> simp [adjust, hm, ih]

theorem adjust_adjust_comm (h : n ≠ name) :
    adjust n f (adjust name g entries) = adjust name g (adjust n f entries) := by
  induction entries with
  | nil => rfl
  | cons head rest ih =>
      obtain ⟨m, e⟩ := head
      by_cases hm : m = name
      · subst hm; simp [adjust, h.symm]
      · by_cases hn : m = n
        · subst hn; simp [adjust, hm]
        · simp [adjust, hm, hn, ih]

/-- The file that some names lead to. -/
def file? (e : Entry) (place : List String) : Option File :=
  match e.find? place with
  | some (.file f) => some f
  | _ => none

/-- What some names lead to: a directory, a file, or nothing. -/
def kind? (e : Entry) (place : List String) : Option Bool :=
  (e.find? place).map isDirectory

@[simp] theorem find?_file_cons (x : File) (names : List String) :
    (Entry.file x).find? (name :: names) = none := rfl

@[simp] theorem find?_directory_cons (names : List String) :
    (Entry.directory entries).find? (name :: names)
      = (entries.lookup name).bind (·.find? names) := by
  rw [find?]
  cases entries.lookup name <;> rfl

/-- Names that lead on lead through a directory. -/
theorem exists_inner {e found : Entry} {names : List String}
    (h : e.find? (name :: names) = some found) : ∃ entries inner, e = .directory entries ∧
      entries.lookup name = some inner ∧ inner.find? names = some found := by
  cases e with
  | file x => cases h
  | directory entries =>
      rw [find?_directory_cons] at h
      obtain ⟨inner, hinner, hfound⟩ := Option.bind_eq_some_iff.mp h
      exact ⟨entries, inner, rfl, hinner, hfound⟩

theorem find?_append (e : Entry) (names names' : List String) :
    e.find? (names ++ names') = (e.find? names).bind (·.find? names') := by
  induction names generalizing e with
  | nil => rfl
  | cons head rest ih =>
      cases e with
      | file x => rfl
      | directory entries =>
          simp only [List.cons_append, find?_directory_cons, Option.bind_assoc, ih]

/-- A file in place of a file is found there. -/
theorem find?_replaceWith_self {place : List String} {e : Entry} {x : File}
    (hfile : e.find? place = some (.file x)) (y : File) :
    (replaceWith (.file y) place e).find? place = some (.file y) := by
  induction place generalizing e with
  | nil => rfl
  | cons head names ih =>
      obtain ⟨entries, inner, rfl, hinner, hin⟩ := exists_inner hfile
      simp only [replaceWith, find?_directory_cons, lookup_adjust_self, hinner, Option.map_some,
        Option.bind_some]
      exact ih hin

/-- A file in place of a file leaves files and directories where they were. -/
theorem kind?_replaceWith {place : List String} {e : Entry} {x : File}
    (hfile : e.find? place = some (.file x)) (y : File) (other : List String) :
    (replaceWith (.file y) place e).kind? other = e.kind? other := by
  induction place generalizing e other with
  | nil =>
      cases hfile
      cases other <;> rfl
  | cons head names ih =>
      obtain ⟨entries, inner, rfl, hinner, hin⟩ := exists_inner hfile
      cases other with
      | nil => rfl
      | cons head' names' =>
          simp only [kind?, replaceWith, find?_directory_cons]
          by_cases hne : head' = head
          · subst hne
            rw [lookup_adjust_self, hinner]
            exact ih hin names'
          · rw [lookup_adjust_ne hne]

/-- A file in place of a file leaves the files at all other places as they were. -/
theorem file?_replaceWith_ne {place other : List String} {e : Entry} {x : File}
    (hfile : e.find? place = some (.file x)) (y : File) (hne : other ≠ place) :
    (replaceWith (.file y) place e).file? other = e.file? other := by
  induction place generalizing e other with
  | nil =>
      cases hfile
      cases other with
      | nil => exact absurd rfl hne
      | cons head' names' => rfl
  | cons head names ih =>
      obtain ⟨entries, inner, rfl, hinner, hin⟩ := exists_inner hfile
      cases other with
      | nil => rfl
      | cons head' names' =>
          simp only [file?, replaceWith, find?_directory_cons]
          by_cases hhead : head' = head
          · subst hhead
            rw [lookup_adjust_self, hinner]
            exact ih hin fun h => hne (by rw [h])
          · rw [lookup_adjust_ne hhead]

/-- Files at two places are replaced in either order. -/
theorem replaceWith_comm {place other : List String} {e : Entry} {x x' : File}
    (hfile : e.find? place = some (.file x)) (hother : e.find? other = some (.file x'))
    (hne : other ≠ place) (y y' : Entry) :
    replaceWith y place (replaceWith y' other e) = replaceWith y' other (replaceWith y place e) := by
  induction place generalizing e other with
  | nil =>
      cases hfile
      cases other with
      | nil => exact absurd rfl hne
      | cons head' names' => cases hother
  | cons head names ih =>
      obtain ⟨entries, -, rfl, -, -⟩ := exists_inner hfile
      cases other with
      | nil => cases hother
      | cons head' names' =>
          simp only [replaceWith]
          by_cases hhead : head' = head
          · subst hhead
            rw [adjust_adjust_self, adjust_adjust_self]
            congr 1
            refine adjust_congr fun inner hinner => ?_
            simp only [find?_directory_cons, hinner, Option.bind_some] at hfile hother
            exact ih hfile hother fun h => hne (by rw [h])
          · rw [adjust_adjust_comm hhead]

end Entry

namespace Tree

/-- Two trees with files and directories at the same places. -/
structure Alike (t u : Tree) : Prop where
  working : u.working = t.working
  kind : ∀ place, u.root.kind? place = t.root.kind? place

/-- The file that may be read or written at a path, and its place. -/
def target (t : Tree) (path : String) : Except AccessError (List String × File) :=
  match t.resolve path with
  | .error e => .error e
  | .ok place =>
      match t.root.find? place with
      | none => .error .notFound
      | some (.directory _) => .error .isDirectory
      | some (.file f) => .ok (place, f)

/-- The tree with another file at a place. -/
def overwrite (t : Tree) (place : List String) (f : File) : Tree :=
  { t with root := Entry.replaceWith (.file f) place t.root }

variable {t u : Tree} {path other : String}

theorem read_eq (t : Tree) (path : String) :
    t.read path = (t.target path).bind fun found =>
      if found.2.readable then .ok found.2.contents else .error .denied := by
  rw [read, entry, target]
  cases t.resolve path with
  | error e => rfl
  | ok place =>
      cases h : t.root.find? place with
      | none => simp [h, Except.bind]
      | some e => cases e <;> simp [h, Except.bind]

theorem write_eq (t : Tree) (path : String) (contents : List UInt8) :
    t.write path contents = (t.target path).bind fun found =>
      if found.2.writable then .ok (t.overwrite found.1 { found.2 with contents })
      else .error .denied := by
  rw [write, target]
  cases t.resolve path with
  | error e => rfl
  | ok place =>
      cases h : t.root.find? place with
      | none => simp [h, Except.bind]
      | some e => cases e <;> simp [h, Except.bind, overwrite]

theorem target_eq_ok_iff {place : List String} {f : File} :
    t.target path = .ok (place, f) ↔
      t.resolve path = .ok place ∧ t.root.find? place = some (.file f) := by
  rw [target]
  cases t.resolve path with
  | error e => simp
  | ok found =>
      simp only [Except.ok.injEq]
      constructor
      · intro h
        split at h <;> cases h
        exact ⟨rfl, ‹_›⟩
      · rintro ⟨rfl, hfile⟩
        rw [hfile]

/-- A step needs to know of a tree only where its files and directories are. -/
theorem follow_cons (t : Tree) (place : List String) (s : Step) (rest : List Step) :
    t.follow place (s :: rest) =
      match t.root.kind? place with
      | none => .error .notFound
      | some false => .error .notDirectory
      | some true =>
          match s with
          | .here => t.follow place rest
          | .up => t.follow place.dropLast rest
          | .name n =>
              if (t.root.kind? (place ++ [n])).isSome then t.follow (place ++ [n]) rest
              else .error .notFound := by
  rw [follow, Entry.kind?]
  cases hfound : t.root.find? place with
  | none => rfl
  | some e =>
      cases e with
      | file f => rfl
      | directory entries =>
          cases s with
          | here => rfl
          | up => rfl
          | name n =>
              have hlookup : (entries.lookup n).isSome
                  = (t.root.kind? (place ++ [n])).isSome := by
                rw [Entry.kind?, Entry.find?_append, hfound]
                cases hn : entries.lookup n <;> simp [hn, Entry.find?]
              simp [hlookup, Entry.isDirectory]

namespace Alike

theorem refl (t : Tree) : t.Alike t := ⟨rfl, fun _ => rfl⟩

theorem trans {v : Tree} (h : t.Alike u) (h' : u.Alike v) : t.Alike v :=
  ⟨h'.working.trans h.working, fun place => (h'.kind place).trans (h.kind place)⟩

theorem follow (h : t.Alike u) (place : List String) (steps : List Step) :
    u.follow place steps = t.follow place steps := by
  induction steps generalizing place with
  | nil => rfl
  | cons s rest ih => simp only [follow_cons, h.kind, ih]

/-- All paths lead to the same places in both trees. -/
theorem resolve (h : t.Alike u) (path : String) : u.resolve path = t.resolve path := by
  simp only [Tree.resolve, h.working, h.follow]

/-- A file that is the same in both trees is read and written as one. -/
theorem target (h : t.Alike u)
    (hfile : ∀ place, t.resolve path = .ok place → u.root.file? place = t.root.file? place) :
    u.target path = t.target path := by
  rw [Tree.target, Tree.target, h.resolve]
  cases hplace : t.resolve path with
  | error e => rfl
  | ok place =>
      have hkind := h.kind place
      have hfile := hfile place hplace
      simp only [Entry.kind?, Entry.file?] at hkind hfile
      cases hu : u.root.find? place with
      | none => cases ht : t.root.find? place <;> simp_all
      | some e =>
          cases ht : t.root.find? place with
          | none => simp_all
          | some e' => cases e <;> cases e' <;> simp_all [Entry.isDirectory]

end Alike

/-- Two paths that do not lead to one place. -/
def Apart (t : Tree) (path other : String) : Prop :=
  ∀ place, t.resolve path = .ok place → t.resolve other ≠ .ok place

theorem Apart.symm (h : t.Apart path other) : t.Apart other path :=
  fun place hother hpath => h place hpath hother

theorem Alike.apart (h : t.Alike u) (hapart : t.Apart path other) : u.Apart path other := by
  intro place
  rw [h.resolve, h.resolve]
  exact hapart place

/-- A tree after at most the file at a path was overwritten. -/
inductive Touches (t : Tree) (path : String) : Tree → Prop
  | none : Touches t path t
  | file {place : List String} {f : File} (hfile : t.target path = .ok (place, f)) (g : File) :
      Touches t path (t.overwrite place g)

namespace Touches

theorem alike (h : t.Touches path u) : t.Alike u := by
  cases h with
  | none => exact .refl t
  | file hfile g =>
      exact ⟨rfl, Entry.kind?_replaceWith (target_eq_ok_iff.mp hfile).2 g⟩

/-- The files that other paths lead to are not touched. -/
theorem target (h : t.Touches path u) (hapart : t.Apart path other) :
    u.target other = t.target other := by
  refine h.alike.target fun place hplace => ?_
  cases h with
  | none => rfl
  | file hfile g =>
      obtain ⟨hpath, hfound⟩ := target_eq_ok_iff.mp hfile
      refine Entry.file?_replaceWith_ne hfound g ?_
      rintro rfl
      exact hapart _ hpath hplace

theorem read (h : t.Touches path u) (hapart : t.Apart path other) :
    u.read other = t.read other := by
  rw [read_eq, read_eq, h.target hapart]

end Touches

/-- Two files are overwritten in either order. -/
theorem overwrite_comm {place place' : List String} {f f' : File}
    (hfile : t.target path = .ok (place, f)) (hother : t.target other = .ok (place', f'))
    (hapart : t.Apart path other) (g g' : File) :
    (t.overwrite place g).overwrite place' g' = (t.overwrite place' g').overwrite place g := by
  obtain ⟨hplace, hfound⟩ := target_eq_ok_iff.mp hfile
  obtain ⟨hplace', hfound'⟩ := target_eq_ok_iff.mp hother
  have hne : place ≠ place' := by
    rintro rfl
    exact hapart _ hplace hplace'
  simp only [overwrite, Entry.replaceWith_comm hfound' hfound hne]

end Tree

end Longhand.Files
