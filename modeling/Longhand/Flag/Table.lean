import Longhand.Flag.Name

/-!
# Flag tables

A table gives, for each command, the long name of each short flag.  Every flag of a table is usable
as a keyword argument; a table is built only from entries that pass this test.
-/

namespace Longhand.Flag

/-- The two sides of a flag mapping. -/
inductive Form where
  | short
  | long
  deriving Repr, DecidableEq

/-- A flag that cannot be written as a keyword argument. -/
structure Unusable where
  command : String
  form : Form
  flag : String
  deriving Repr, DecidableEq

/-- The entries of a table as they are written: commands, and for each its short and long flags. -/
abbrev Entries := List (String × List (String × String))

/-- Keep the last of the pairs of each key. -/
def lastOfEach {β : Type} : List (String × β) → List (String × β)
  | [] => []
  | p :: rest => if rest.any (·.1 == p.1) then lastOfEach rest else p :: lastOfEach rest

/-- The first flag of a mapping that is not usable; the short one is looked at before the long. -/
def unusableIn (command : String) : List (String × String) → Option Unusable
  | [] => none
  | (short, long) :: rest =>
      if !isUsable short then some ⟨command, .short, short⟩
      else if !isUsable long then some ⟨command, .long, long⟩
      else unusableIn command rest

/-- The first flag of some entries that is not usable. -/
def unusable? : Entries → Option Unusable
  | [] => none
  | (command, flags) :: rest => (unusableIn command flags).or (unusable? rest)

/-- A map from commands to maps from short to long flags, all of them usable. -/
structure Table where
  commands : Entries
  usable : unusable? commands = none := by rfl

instance : Inhabited Table := ⟨{ commands := [] }⟩

namespace Table

/-- The table without commands. -/
def empty : Table := { commands := [] }

/-- The table of some entries, the last one of each command and of each flag counting, or a flag of
them that is not usable. -/
def ofEntries (entries : Entries) : Except Unusable Table :=
  let commands := (lastOfEach entries).map fun (command, flags) => (command, lastOfEach flags)
  match h : unusable? commands with
  | none => .ok { commands, usable := h }
  | some fault => .error fault

/-- The long name of a flag of a command. -/
def lookup (t : Table) (command flag : String) : Option String :=
  match t.commands.lookup command with
  | none => none
  | some flags => flags.lookup flag

/-- Whether the table has flags for a command. -/
def hasFlags (t : Table) (command : String) : Bool :=
  match t.commands.lookup command with
  | none => false
  | some flags => !flags.isEmpty

/-- The commands of the table. -/
def names (t : Table) : List String :=
  t.commands.map Prod.fst

/-- The number of commands. -/
def size (t : Table) : Nat :=
  t.commands.length

end Table

theorem usable_of_unusableIn {command : String} {flags : List (String × String)}
    (h : unusableIn command flags = none) : ∀ f ∈ flags, isUsable f.1 ∧ isUsable f.2 := by
  induction flags with
  | nil => simp
  | cons f rest ih =>
      obtain ⟨short, long⟩ := f
      unfold unusableIn at h
      split at h
      · simp at h
      · split at h
        · simp at h
        · rename_i hshort hlong
          intro f hf
          rcases List.mem_cons.1 hf with rfl | hf
          · exact ⟨by simpa using hshort, by simpa using hlong⟩
          · exact ih h f hf

theorem mem_of_lookup {β : Type} {key : String} {value : β} {l : List (String × β)}
    (h : l.lookup key = some value) : (key, value) ∈ l := by
  induction l with
  | nil => simp at h
  | cons p rest ih =>
      obtain ⟨k, v⟩ := p
      rw [List.lookup_cons] at h
      split at h
      · rename_i hk
        simp only [beq_iff_eq] at hk
        simp only [Option.some.injEq] at h
        simp [hk, h]
      · exact List.mem_cons_of_mem _ (ih h)

/-- Both names of every flag that a table knows are usable. -/
theorem Table.isUsable_of_lookup {t : Table} {command flag long : String}
    (h : t.lookup command flag = some long) : isUsable flag ∧ isUsable long := by
  have key : ∀ entries : Entries, unusable? entries = none →
      ∀ c ∈ entries, ∀ f ∈ c.2, isUsable f.1 ∧ isUsable f.2 := by
    intro entries
    induction entries with
    | nil => simp
    | cons c rest ih =>
        intro hnone
        simp only [unusable?, Option.or_eq_none_iff] at hnone
        intro d hd
        rcases List.mem_cons.1 hd with rfl | hd
        · exact usable_of_unusableIn hnone.1
        · exact ih hnone.2 d hd
  unfold Table.lookup at h
  split at h
  · simp at h
  · rename_i flags hflags
    exact key t.commands t.usable _ (mem_of_lookup hflags) _ (mem_of_lookup h)

end Longhand.Flag
