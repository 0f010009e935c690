import Longhand.Files.Path
import Longhand.Text.Utf8

/-!
# Files and directories

A tree of named entries, and the place in it from which relative paths lead.  There are no links, so
each entry is known by the names on the way to it.
-/

namespace Longhand.Files

/-- The bytes of a file and what may be done with them. -/
structure File where
  contents : List UInt8
  readable : Bool := true
  writable : Bool := true
  deriving Repr, DecidableEq

/-- What a name in a directory stands for. -/
inductive Entry where
  | file (f : File)
  | directory (entries : List (String × Entry))

instance : Inhabited Entry := ⟨.directory []⟩

/-- Why an entry cannot be reached, read or written. -/
inductive AccessError where
  | notFound
  | notDirectory
  | isDirectory
  | denied
  /-- Bytes that are no text. -/
  | encoding (fault : Option Text.EncodingFault)
  deriving Repr, DecidableEq

def AccessError.message : AccessError → String
  | .notFound => "No such file or directory (os error 2)"
  | .notDirectory => "Not a directory (os error 20)"
  | .isDirectory => "Is a directory (os error 21)"
  | .denied => "Permission denied (os error 13)"
  | .encoding none => "stream did not contain valid UTF-8"
  | .encoding (some fault) => fault.message

namespace Entry

def isDirectory : Entry → Bool
  | .directory _ => true
  | .file _ => false

/-- What some names lead to. -/
def find? : Entry → List String → Option Entry
  | e, [] => some e
  | .file _, _ :: _ => none
  | .directory entries, name :: rest =>
      match entries.lookup name with
      | some e => e.find? rest
      | none => none

/-- Change what a name stands for, if it is there. -/
def adjust (name : String) (f : Entry → Entry) : List (String × Entry) → List (String × Entry)
  | [] => []
  | (n, e) :: rest => if n == name then (n, f e) :: rest else (n, e) :: adjust name f rest

/-- Replace what some names lead to, if it is there. -/
def replaceWith (new : Entry) : List String → Entry → Entry
  | [], _ => new
  | _ :: _, .file f => .file f
  | name :: rest, .directory entries => .directory (adjust name (replaceWith new rest) entries)

/-- Put an entry where some names lead to.  Directories on the way are made if they are not there.
-/
def put (new : Entry) : List String → Entry → Entry
  | [], _ => new
  | name :: rest, e =>
      let entries := match e with
        | .directory entries => entries
        | .file _ => []
      if (entries.lookup name).isSome then .directory (adjust name (put new rest) entries)
      else .directory (entries ++ [(name, put new rest (.directory []))])

mutual

/-- All entries below an entry, each directory before what is in it, with the names that lead to
them. -/
def descendants : Entry → List (List String × Entry)
  | .file _ => []
  | .directory entries => descendantsIn entries

/-- Some entries and all below them. -/
def descendantsIn : List (String × Entry) → List (List String × Entry)
  | [] => []
  | (name, e) :: rest =>
      ([name], e) :: (descendants e).map (fun (names, e) => (name :: names, e)) ++
        descendantsIn rest

end

end Entry

/-- The entries that a program can reach, and the place where it runs. -/
structure Tree where
  root : Entry
  working : List String

instance : Inhabited Tree := ⟨⟨default, []⟩⟩

namespace Tree

/-- Follow some steps from a place.  Each step needs a directory. -/
def follow (t : Tree) (place : List String) : List Step → Except AccessError (List String)
  | [] => .ok place
  | s :: rest =>
      match t.root.find? place with
      | none => .error .notFound
      | some (.file _) => .error .notDirectory
      | some (.directory entries) =>
          match s with
          | .here => t.follow place rest
          | .up => t.follow place.dropLast rest
          | .name n =>
              if (entries.lookup n).isSome then t.follow (place ++ [n]) rest else .error .notFound

/-- The place that a path leads to.  It is the same for all spellings of the path. -/
def resolve (t : Tree) (path : String) : Except AccessError (List String) :=
  if path.isEmpty then .error .notFound
  else t.follow (if isAbsolute path then [] else t.working) (steps path)

/-- The entry that a path leads to. -/
def entry (t : Tree) (path : String) : Except AccessError Entry :=
  match t.resolve path with
  | .error e => .error e
  | .ok place =>
      match t.root.find? place with
      | some e => .ok e
      | none => .error .notFound

def exists? (t : Tree) (path : String) : Bool :=
  match t.entry path with
  | .ok _ => true
  | .error _ => false

def isFile (t : Tree) (path : String) : Bool :=
  match t.entry path with
  | .ok (.file _) => true
  | _ => false

def isDirectory (t : Tree) (path : String) : Bool :=
  match t.entry path with
  | .ok (.directory _) => true
  | _ => false

/-- The bytes of the file at a path. -/
def read (t : Tree) (path : String) : Except AccessError (List UInt8) :=
  match t.entry path with
  | .error e => .error e
  | .ok (.directory _) => .error .isDirectory
  | .ok (.file f) => if f.readable then .ok f.contents else .error .denied

/-- The text of the file at a path. -/
def readText (t : Tree) (path : String) : Except AccessError String :=
  match t.read path with
  | .error e => .error e
  | .ok bytes => (Text.ofBytes bytes).mapError fun _ => .encoding none

/-- The entries of the directory at a path, in the order they are kept in. -/
def list (t : Tree) (path : String) : Except AccessError (List (String × Entry)) :=
  match t.entry path with
  | .error e => .error e
  | .ok (.file _) => .error .notDirectory
  | .ok (.directory entries) => .ok entries

/-- Replace the bytes of the file at a path. -/
def write (t : Tree) (path : String) (contents : List UInt8) : Except AccessError Tree :=
  match t.resolve path with
  | .error e => .error e
  | .ok place =>
      match t.root.find? place with
      | none => .error .notFound
      | some (.directory _) => .error .isDirectory
      | some (.file f) =>
          if f.writable then
            .ok { t with root := Entry.replaceWith (.file { f with contents }) place t.root }
          else .error .denied

end Tree

end Longhand.Files
