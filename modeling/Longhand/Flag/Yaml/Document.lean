import Longhand.Flag.Yaml.Scan

/-!
# Tables in YAML

A table is written as a map of maps of scalars.  Every key and every name is read as the text that
it is written as, whatever it looks like.  A map with nothing written is empty, and so is a
document.

Nodes may carry an anchor, and an alias stands for the node with its anchor.  Anchors are numbered
by how many different names are known, so a name that is given twice frees its old number for
another anchor; an alias keeps the number that it was read with.
-/

namespace Longhand.Flag.Yaml

/-- A node that is no map. -/
inductive Leaf where
  | absent
  | text (s : String)
  | alias (number : Nat)
  deriving DecidableEq, Repr

/-- A node.  The outermost map is never of use where an alias stands, so its members are left out.
-/
inductive Node where
  | leaf (l : Leaf)
  | flags (entries : List (Leaf × Leaf))
  | outermost
  deriving Repr

/-- The outermost node. -/
inductive Root where
  | leaf (l : Leaf)
  | commands (entries : List (Leaf × Node))
  deriving Repr

/-- The tokens ahead and the anchors behind.  `numbers` gives the number of each name, `places` the
anchor that each number was last given to, and `nodes` the node at each anchor. -/
structure Reader where
  tokens : List Token
  handles : List String
  numbers : List (String × Nat)
  places : List (Nat × Nat)
  nodes : List (Nat × Node)
  deriving Repr

namespace Reader

def skip (r : Reader) (n : Nat) : Reader :=
  { r with tokens := r.tokens.drop n }

/-- Note an anchor; the new state and the place of the anchor. -/
def anchor (r : Reader) (name : String) : Reader × Nat :=
  let number := ((r.numbers.map Prod.fst).eraseDups).length
  let place := r.places.length
  ({ r with numbers := (name, number) :: r.numbers, places := (number, place) :: r.places }, place)

/-- Pass the anchor and the tag in front of a node.  Yields the place of the anchor, and whether
there is one of them.  The handle of a tag has to be known. -/
def properties? (r : Reader) : Option (Reader × Option Nat × Bool) :=
  let known := fun handle => r.handles.contains handle
  match r.tokens with
  | .anchor name :: .tag handle :: _ | .tag handle :: .anchor name :: _ =>
      if known handle then
        let (r, place) := (r.skip 2).anchor name
        some (r, some place, true)
      else none
  | .anchor name :: _ =>
      let (r, place) := (r.skip 1).anchor name
      some (r, some place, true)
  | .tag handle :: _ => if known handle then some (r.skip 1, none, true) else none
  | _ => some (r, none, false)

/-- Note what stands at an anchor. -/
def record (r : Reader) (place : Option Nat) (node : Node) : Reader :=
  match place with
  | some place => { r with nodes := (place, node) :: r.nodes }
  | none => r

/-- A node without its properties. -/
abbrev Content (α : Type) := Reader → (hasProperties : Bool) → Option (Reader × α)

/-- A node: an alias, or properties and a content. -/
def node? {α : Type} (content : Content α) (toNode : α → Node) (ofLeaf : Leaf → α) (r : Reader) :
    Option (Reader × α) :=
  match r.tokens with
  | .alias name :: _ =>
      match r.numbers.lookup name with
      | some number => some (r.skip 1, ofLeaf (.alias number))
      | none => none
  | _ =>
      match r.properties? with
      | none => none
      | some (r, place, hasProperties) =>
          match content r hasProperties with
          | none => none
          | some (r, a) => some (r.record place (toNode a), a)

/-- A scalar, or nothing behind some properties. -/
def leafContent? : Content Leaf := fun r hasProperties =>
  match r.tokens with
  | .scalar text :: _ => some (r.skip 1, .text text)
  | .flowStart :: _ => none
  | .blockStart :: _ => none
  | _ => if hasProperties then some (r, .absent) else none

def leaf? : Reader → Option (Reader × Leaf) :=
  node? leafContent? .leaf id

/-! ## Maps -/

/-- Whether the part of a member in a block is left out. -/
def leftOutInBlock (r : Reader) : Bool :=
  match r.tokens with
  | .key :: _ | .value :: _ | .blockEnd :: _ => true
  | _ => false

/-- The members of a map in a block, up to its end. -/
def blockMembers? {α : Type} (value? : Reader → Option (Reader × α)) (absent : α) :
    Nat → Reader → Option (Reader × List (Leaf × α))
  | 0, _ => none
  | bound + 1, r =>
      match r.tokens with
      | .blockEnd :: _ => some (r.skip 1, [])
      | .key :: _ =>
          let r := r.skip 1
          match if r.leftOutInBlock then some (r, .absent) else leaf? r with
          | none => none
          | some (r, name) =>
              let value :=
                if r.tokens.head? = some .value then
                  let r := r.skip 1
                  if r.leftOutInBlock then some (r, absent) else value? r
                else some (r, absent)
              match value with
              | none => none
              | some (r, value) =>
                  (blockMembers? value? absent bound r).map fun (r, more) =>
                    (r, (name, value) :: more)
      | _ => none

/-- Whether the part of a member inside brackets is left out. -/
def leftOutInFlow (r : Reader) : Bool :=
  match r.tokens with
  | .flowEntry :: _ | .flowEnd :: _ => true
  | _ => false

/-- A member of a map inside brackets. -/
def flowMember? {α : Type} (value? : Reader → Option (Reader × α)) (absent : α) (r : Reader) :
    Option (Reader × Leaf × α) :=
  match r.tokens with
  | .key :: _ =>
      let r := r.skip 1
      let nameLeftOut := r.leftOutInFlow || r.tokens.head? = some .value
      match if nameLeftOut then some (r, .absent) else leaf? r with
      | none => none
      | some (r, name) =>
          if r.tokens.head? = some .value then
            let r := r.skip 1
            if r.leftOutInFlow then some (r, name, absent)
            else (value? r).map fun (r, value) => (r, name, value)
          else some (r, name, absent)
  | _ => (leaf? r).map fun (r, name) => (r, name, absent)

/-- The members of a map inside brackets, up to its end. -/
def flowMembers? {α : Type} (value? : Reader → Option (Reader × α)) (absent : α) :
    Nat → (first : Bool) → Reader → Option (Reader × List (Leaf × α))
  | 0, _, _ => none
  | bound + 1, first, r =>
      match r.tokens with
      | .flowEnd :: _ => some (r.skip 1, [])
      | t :: _ =>
          if !first && t ≠ .flowEntry then none
          else
            let r := if first then r else r.skip 1
            match r.tokens with
            | .flowEnd :: _ => some (r.skip 1, [])
            | _ =>
                match flowMember? value? absent r with
                | none => none
                | some (r, name, value) =>
                    (flowMembers? value? absent bound false r).map fun (r, more) =>
                      (r, (name, value) :: more)
      | [] => none

/-- A map of members that are read in some way, or a leaf. -/
def mapContent? {α β : Type} (value? : Reader → Option (Reader × α)) (absent : α)
    (ofMembers : List (Leaf × α) → β) (ofLeaf : Leaf → β) : Content β := fun r hasProperties =>
  match r.tokens with
  | .blockStart :: _ =>
      (blockMembers? value? absent r.tokens.length (r.skip 1)).map fun (r, m) => (r, ofMembers m)
  | .flowStart :: _ =>
      (flowMembers? value? absent r.tokens.length true (r.skip 1)).map fun (r, m) =>
        (r, ofMembers m)
  | _ => (leafContent? r hasProperties).map fun (r, l) => (r, ofLeaf l)

/-- The flags of a command. -/
def flags? : Reader → Option (Reader × Node) :=
  node? (mapContent? leaf? .absent .flags .leaf) id .leaf

/-- The outermost node. -/
def root? : Reader → Option (Reader × Root) :=
  node? (mapContent? flags? (.leaf .absent) .commands .leaf) (fun _ => .outermost) .leaf

/-! ## Documents -/

/-- Whether the directives in front of a document are fit: one version at most, and no handle
twice. -/
def fit (directives : List Token) : Bool :=
  let versions := directives.filterMap fun
    | .version major minor => some (major, minor)
    | _ => none
  let handles := directives.filterMap fun
    | .handle name => some name
    | _ => none
  versions.length ≤ 1 && versions.all (fun v => v.1 == 1 && (v.2 == 1 || v.2 == 2)) &&
    handles.eraseDups.length == handles.length

/-- The only document of some tokens. -/
def document? (tokens : List Token) : Option (Reader × Root) :=
  let directives := tokens.takeWhile fun
    | .version .. | .handle .. => true
    | _ => false
  let handles := directives.filterMap fun
    | .handle name => some name
    | _ => none
  let reader (tokens : List Token) : Reader :=
    { tokens, handles := "" :: "!" :: "!!" :: handles, numbers := [], places := [], nodes := [] }
  let content? : Option (Reader × Root) :=
    match tokens.drop directives.length with
    | .documentStart :: rest =>
        match rest with
        | [] | .documentEnd :: _ => some (reader rest, .leaf .absent)
        | _ => root? (reader rest)
    | [] => if directives.isEmpty then some (reader [], .leaf .absent) else none
    | rest => if directives.isEmpty then root? (reader rest) else none
  if !fit directives then none
  else
    match content? with
    | none => none
    | some (r, root) =>
        if r.tokens.all fun t => t = .documentEnd then some (r, root) else none

/-! ## Entries -/

/-- What an alias stands for. -/
def target? (r : Reader) (number : Nat) : Option Node :=
  match r.places.lookup number with
  | some place => r.nodes.lookup place
  | none => none

/-- A leaf as a text. -/
def text? (r : Reader) : Leaf → Option String
  | .absent => some ""
  | .text s => some s
  | .alias number =>
      match r.target? number with
      | some (.leaf .absent) => some ""
      | some (.leaf (.text s)) => some s
      | _ => none

def textPairs? (r : Reader) (entries : List (Leaf × Leaf)) : Option (List (String × String)) :=
  entries.mapM fun (short, long) =>
    match r.text? short, r.text? long with
    | some short, some long => some (short, long)
    | _, _ => none

/-- A node as the flags of a command. -/
def flagsOf? (r : Reader) : Node → Option (List (String × String))
  | .flags entries => r.textPairs? entries
  | .leaf .absent => some []
  | .leaf (.text _) => none
  | .outermost => none
  | .leaf (.alias number) =>
      match r.target? number with
      | some (.flags entries) => r.textPairs? entries
      | some (.leaf .absent) => some []
      | _ => none

end Reader

/-- The entries of a table in YAML. -/
def read? (text : String) : Option Entries :=
  match tokens? text.toList with
  | none => none
  | some tokens =>
      match Reader.document? tokens with
      | none => none
      | some (_, .leaf .absent) => some []
      | some (_, .leaf _) => none
      | some (r, .commands entries) =>
          entries.mapM fun (command, flags) =>
            match r.text? command, r.flagsOf? flags with
            | some command, some flags => some (command, flags)
            | _, _ => none

end Longhand.Flag.Yaml
