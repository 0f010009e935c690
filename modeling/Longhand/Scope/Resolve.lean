import Longhand.Scope.Binding
import Longhand.Syntax.Tree

/-!
# From a tree to its scopes

One walk over the tree collects the scopes and the bindings made in them.  Functions, classes and
comprehensions have scopes; the defaults, annotations and decorators of a function stay outside of
its scope, and the iterable of a comprehension is inside.
-/

namespace Longhand.Scope

open Syntax (Tree Kind Role)

/-- What a walk over a part of a tree finds. -/
structure Findings where
  frames : List Frame := []
  events : List Event := []
  /-- The number of branching statements. -/
  statements : Nat := 0
  deriving Inhabited

/-- The numbers that the next scope and the next branching statement get. -/
structure Numbering where
  scope : Nat
  statement : Nat

/-- The numbering behind some findings. -/
def Numbering.after (n : Numbering) (f : Findings) : Numbering :=
  ⟨n.scope + f.frames.length, n.statement + f.statements⟩

/-- Findings followed by others. -/
def Findings.append (f g : Findings) : Findings :=
  ⟨f.frames ++ g.frames, f.events ++ g.events, f.statements + g.statements⟩

instance : Append Findings := ⟨Findings.append⟩

/-- Where in the nesting of scopes and arms a part of a tree stands. -/
structure Place where
  scope : Nat
  depth : Nat
  arms : List Arm

/-- One level further down. -/
def Place.below (p : Place) : Place :=
  { p with depth := p.depth + 1 }

/-- The binding of a name at a place. -/
def Place.event (p : Place) (name : String) (offset : Nat) (binding : Binding) : Event :=
  ⟨p.scope, name, offset, binding, p.arms⟩

mutual

/-- The names that a target binds.  Attributes and subscripts bind none. -/
def targetNames : Tree → List String
  | .node kind _ _ text children =>
      match kind with
      | .identifier => [text]
      | .patternList | .tuplePattern | .listPattern | .expressionList | .tuple | .list
      | .parenthesizedExpression | .listSplatPattern | .listSplat | .asPatternTarget =>
          targetNamesIn children
      | _ => []

def targetNamesIn : List Tree → List String
  | [] => []
  | t :: rest => targetNames t ++ targetNamesIn rest

end

/-- The names among the children of a starred parameter. -/
def splatNames (t : Tree) : List String :=
  (t.children.filter fun c => c.kind = .identifier).map Tree.text

/-- The names that a parameter binds. -/
def parameterNames (t : Tree) : List String :=
  match t.kind with
  | .identifier => [t.text]
  | .defaultParameter | .typedDefaultParameter =>
      match t.child? .name with
      | some name => targetNames name
      | none => []
  | .typedParameter =>
      (t.children.filter fun c => c.role ≠ some .type).flatMap fun c =>
        match c.kind with
        | .identifier => [c.text]
        | .listSplatPattern | .dictionarySplatPattern => splatNames c
        | _ => []
  | .listSplatPattern | .dictionarySplatPattern => splatNames t
  | .tuplePattern => targetNames t
  | _ => []

/-- What a path stands for when it is imported under another name. -/
def pathBinding (tracked : Tracked.Set) (path : String) : Binding :=
  match tracked.find? path with
  | some place => .module place
  | none => if tracked.hasPackage path then .package path else .untracked

/-- What a name stands for that is imported from a module. -/
def memberBinding (tracked : Tracked.Set) (origin imported : String) : Binding :=
  let path := origin ++ "." ++ imported
  match tracked.find? path with
  | some place => .module place
  | none =>
      match tracked.find? origin with
      | some place => .command place imported
      | none => if tracked.hasPackage path then .package path else .untracked

/-- The names joined by dots. -/
def dotted (names : List String) : String :=
  ".".intercalate names

/-- The binding of one name of an import statement.  Without another name for it, a dotted path
binds its first name. -/
def importEvents (tracked : Tracked.Set) (p : Place) (offset : Nat) (t : Tree) : List Event :=
  match t.kind with
  | .dottedName =>
      match Syntax.segments? t with
      | some (head :: _) =>
          let binding := if tracked.hasPackage head then .package head else .untracked
          [p.event head offset binding]
      | _ => []
  | .aliasedImport =>
      match t.child? .name, t.child? .alias with
      | some path, some other =>
          match Syntax.segments? path with
          | some names => [p.event other.text offset (pathBinding tracked (dotted names))]
          | none => []
      | _, _ => []
  | _ => []

/-- The binding of one name that is imported from a module.  A relative module is never tracked. -/
def importFromEvents (tracked : Tracked.Set) (p : Place) (offset : Nat) (origin : Option String)
    (t : Tree) : List Event :=
  let names : Option (Tree × Tree) :=
    match t.kind with
    | .dottedName => some (t, t)
    | .aliasedImport =>
        match t.child? .name, t.child? .alias with
        | some imported, some other => some (imported, other)
        | _, _ => none
    | _ => none
  match names with
  | none => []
  | some (imported, localName) =>
      let binding :=
        match origin with
        | some origin => memberBinding tracked origin imported.text
        | none => .untracked
      [p.event localName.text offset binding]

/-- The path of the module that is imported from, unless it is relative. -/
def originPath? (t : Tree) : Option String :=
  match t.child? .moduleName with
  | none => none
  | some origin =>
      if origin.kind = .dottedName then (Syntax.segments? origin).map dotted else none

/-- The untracked bindings of some names. -/
def Place.untracked (p : Place) (offset : Nat) (names : List String) : List Event :=
  names.map fun n => p.event n offset .untracked

/-- The bindings that a node makes by itself, when its children are walked in the scope that it
stands in. -/
def ownEvents (p : Place) (t : Tree) : List Event :=
  match t.kind with
  | .assignment | .augmentedAssignment =>
      match t.child? .left with
      | some left => p.untracked t.span.stop (targetNames left)
      | none => []
  | .forStatement =>
      match t.child? .left with
      | some left =>
          let offset := ((t.child? .right).getD left).span.stop
          p.untracked offset (targetNames left)
      | none => []
  | .asPattern =>
      match t.child? .alias with
      | some other => p.untracked t.span.stop (targetNames other)
      | none => []
  | .exceptClause =>
      match t.child? .alias with
      | some other => p.untracked other.span.stop (targetNames other)
      | none => []
  | .namedExpression =>
      match t.child? .name with
      | some name => p.untracked t.span.stop (targetNames name)
      | none => []
  | .functionDefinition | .classDefinition =>
      match t.child? .name with
      | some name => [p.event name.text t.span.stop .untracked]
      | none => []
  | _ => []

/-- The bindings of the targets of a comprehension, made at its start in its own scope. -/
def clauseEvents (p : Place) (t : Tree) : List Event :=
  (t.children.filter fun c => c.kind = .forInClause).flatMap fun c =>
    match c.child? .left with
    | some left => p.untracked t.span.start (targetNames left)
    | none => []

/-- The children of a node that a walk looks at. -/
inductive Selection where
  | all
  | allButBody

def Selection.holds (s : Selection) (t : Tree) : Bool :=
  match s with
  | .all => true
  | .allButBody => t.role ≠ some .body

/-- The number of the arm that a child of a branching statement is, given the number of the next
handler, alternative or case.  What always runs is no arm. -/
def armOf? (statement : Kind) (next : Nat) (t : Tree) : Option Nat :=
  match statement with
  | .ifStatement =>
      if t.role = some .consequence then some 0
      else if t.kind = .elifClause || t.kind = .elseClause then some next
      else none
  | .tryStatement =>
      if t.role = some .body || t.kind = .elseClause then some 0
      else if t.kind = .exceptClause then some next
      else none
  | _ => if t.kind = .caseClause then some next else none

mutual

/-- The findings of a walk over a tree. -/
def walk (tracked : Tracked.Set) (p : Place) (n : Numbering) : Tree → Findings
  | .node kind role span text children =>
      let t := Syntax.Tree.node kind role span text children
      if Syntax.depthLimit < p.depth then {}
      else
        let own : Findings := { events := ownEvents p t }
        match kind with
        | .importStatement =>
            { events := (t.childrenIn .name).flatMap (importEvents tracked p span.stop) }
        | .importFromStatement =>
            { events := (t.childrenIn .name).flatMap
                (importFromEvents tracked p span.stop (originPath? t)) }
        | .functionDefinition | .lambda =>
            let outer := own ++ walkAll tracked .allButBody p.below n children
            match t.child? .body with
            | none => outer
            | some body =>
                let n := n.after outer
                let inner : Place := { p with scope := n.scope }
                let names := ((t.child? .parameters).map fun ps =>
                  ps.children.flatMap parameterNames).getD []
                let frame : Findings :=
                  { frames := [⟨.function, some p.scope, body.span⟩]
                    events := inner.untracked body.span.start names }
                outer ++ frame ++ walkBody tracked inner.below (n.after frame) children
        | .classDefinition =>
            let outer := own ++ walkAll tracked .allButBody p.below n children
            match t.child? .body with
            | none => outer
            | some body =>
                let n := n.after outer
                let inner : Place := { p with scope := n.scope }
                let frame : Findings := { frames := [⟨.classBody, some p.scope, body.span⟩] }
                outer ++ frame ++ walkBody tracked inner.below (n.after frame) children
        | .listComprehension | .setComprehension | .dictionaryComprehension
        | .generatorExpression =>
            let inner : Place := { p with scope := n.scope }
            let frame : Findings :=
              { frames := [⟨.comprehension, some p.scope, span⟩], events := clauseEvents inner t }
            frame ++ walkAll tracked .all inner.below (n.after frame) children
        | .ifStatement | .tryStatement | .matchStatement =>
            let counted : Findings := { statements := 1 }
            counted ++ walkArms tracked kind n.statement p.below (n.after counted)
              1 children
        | _ => own ++ walkAll tracked .all p.below n children

/-- The findings of walks over the selected ones of some trees. -/
def walkAll (tracked : Tracked.Set) (selection : Selection) (p : Place) (n : Numbering) :
    List Tree → Findings
  | [] => {}
  | t :: rest =>
      if selection.holds t then
        let first := walk tracked p n t
        first ++ walkAll tracked selection p (n.after first) rest
      else walkAll tracked selection p n rest

/-- The findings of a walk over the first of some trees that is a body. -/
def walkBody (tracked : Tracked.Set) (p : Place) (n : Numbering) : List Tree → Findings
  | [] => {}
  | t :: rest => if t.role = some .body then walk tracked p n t else walkBody tracked p n rest

/-- The findings of walks over the parts of a branching statement, given the number of its next arm.
The cases of a match statement are the parts of its block. -/
def walkArms (tracked : Tracked.Set) (kind : Kind) (statement : Nat) (p : Place) (n : Numbering)
    (next : Nat) : List Tree → Findings
  | [] => {}
  | .node k role span text children :: rest =>
      let t := Syntax.Tree.node k role span text children
      let first :=
        if kind = .matchStatement && role = some .body then
          walkCases tracked statement p n 1 children
        else
          match armOf? kind next t with
          | some number =>
              walk tracked { p with arms := p.arms ++ [⟨statement, number, span⟩] } n t
          | none => walk tracked p n t
      let next := if (armOf? kind next t).any (· = next) then next + 1 else next
      first ++ walkArms tracked kind statement p (n.after first) next rest

/-- The findings of walks over the cases of a match statement, given the number of the next one. -/
def walkCases (tracked : Tracked.Set) (statement : Nat) (p : Place) (n : Numbering) (next : Nat) :
    List Tree → Findings
  | [] => {}
  | .node k role span text children :: rest =>
      let t := Syntax.Tree.node k role span text children
      let isCase := k = .caseClause
      let p' := if isCase then { p with arms := p.arms ++ [⟨statement, next, span⟩] } else p
      let first := walk tracked p' n t
      first ++
        walkCases tracked statement p (n.after first) (if isCase then next + 1 else next) rest

end

/-- The scopes of a tree. -/
def resolve (tracked : Tracked.Set) (t : Tree) : Scopes :=
  let root : Findings := { frames := [⟨.module, none, ⟨0, t.span.stop⟩⟩] }
  let found := root ++ walk tracked ⟨0, 0, []⟩ ⟨1, 0⟩ t
  let scopes := found.frames.zipIdx.map fun (frame, id) =>
    (⟨frame, stableSort (fun a b => a.offset ≤ b.offset)
      (found.events.filter fun e => e.scope = id)⟩ : Scope)
  { tracked, scopes }

end Longhand.Scope
