import Longhand.Tracked.Set
import Longhand.Text.Span

/-!
# Bindings and scopes

What a name stands for at a place of a text.  A binding holds from a byte offset on in the scope
that it was made in.  Bindings made in different arms of one branching statement do not replace each
other: an untracked one leaves a tracked one of another arm in force outside of its own arm.
-/

namespace Longhand

namespace Scope

/-- What a name stands for. -/
inductive Binding where
  /-- A tracked module, by its place in the set. -/
  | module (place : Nat)
  /-- A dotted path on the way to tracked modules. -/
  | package (path : String)
  /-- A command of a tracked module. -/
  | command (place : Nat) (name : String)
  /-- Anything else. -/
  | untracked
  deriving Repr, DecidableEq, Inhabited

def Binding.isTracked : Binding → Bool
  | .untracked => false
  | _ => true

/-- An arm of a branching statement.  Arms of one statement with different numbers never both run;
the body of a `try` and its `else` have one number. -/
structure Arm where
  statement : Nat
  number : Nat
  region : Text.Span
  deriving Repr, DecidableEq, Inhabited

/-- A name that is bound. -/
structure Event where
  scope : Nat
  name : String
  /-- The byte offset from which the binding holds. -/
  offset : Nat
  binding : Binding
  /-- The arms around the place of the binding, from the outermost on. -/
  arms : List Arm
  deriving Repr, DecidableEq, Inhabited

/-- The first of some arms that differs from its counterpart in a second list while both belong to
one statement, provided that all before it are the same. -/
def divergingArm? : List Arm → List Arm → Option Arm
  | mine :: rest, other :: others =>
      if mine.statement ≠ other.statement then none
      else if mine.number ≠ other.number then some mine
      else divergingArm? rest others
  | _, _ => none

inductive ScopeKind where
  | module
  | function
  | classBody
  | comprehension
  deriving Repr, DecidableEq, Inhabited

/-- A region of the text with names of its own. -/
structure Frame where
  kind : ScopeKind
  parent : Option Nat
  region : Text.Span
  deriving Repr, DecidableEq, Inhabited

end Scope

/-- A scope with its bindings in the order of their offsets. -/
structure Scope where
  frame : Scope.Frame
  events : List Scope.Event
  deriving Repr, Inhabited

namespace Scope

/-- The scopes of a text in the order in which they begin, that of the whole text first. -/
structure Scopes where
  tracked : Tracked.Set
  scopes : List Scope

/-- The tracked binding of another arm that outlasts an untracked one, among the earlier bindings of
the name from the latest on. -/
def surviving? (latest : Event) (offset : Nat) : List Event → Option Binding
  | [] => none
  | e :: rest =>
      match divergingArm? latest.arms e.arms with
      | none => none
      | some arm =>
          if arm.region.contains offset then none
          else if e.binding.isTracked then some e.binding
          else surviving? latest offset rest

/-- The binding of a name that holds at an offset, by the bindings of one scope. -/
def visible? (events : List Event) (name : String) (offset : Nat) : Option Binding :=
  match events.reverse.filter fun e => e.name == name && e.offset ≤ offset with
  | [] => none
  | latest :: earlier =>
      if latest.binding.isTracked then some latest.binding
      else some ((surviving? latest offset earlier).getD latest.binding)

namespace Scopes

/-- Whether some name stands for something tracked. -/
def hasTracked (s : Scopes) : Bool :=
  s.scopes.any fun scope => scope.events.any fun e => e.binding.isTracked

/-- The innermost scope at an offset: the last one whose region holds it. -/
def scopeAt (s : Scopes) (offset : Nat) : Nat :=
  (s.scopes.length - 1) -
    ((s.scopes.reverse.findIdx? fun scope => scope.frame.region.contains offset).getD
      (s.scopes.length - 1))

/-- The binding of a name at an offset, looked for from a scope outwards through at most some number
of scopes.  The names of a class do not reach into the scopes inside it. -/
def lookupFrom (s : Scopes) (name : String) (offset : Nat) : Nat → Bool → Nat → Option Binding
  | 0, _, _ => none
  | steps + 1, innermost, id =>
      match s.scopes[id]? with
      | none => none
      | some scope =>
          let here :=
            if innermost || scope.frame.kind ≠ .classBody then visible? scope.events name offset
            else none
          match here, scope.frame.parent with
          | some b, _ => some b
          | none, some parent => lookupFrom s name offset steps false parent
          | none, none => none

/-- The binding of a name at an offset. -/
def lookup (s : Scopes) (name : String) (offset : Nat) : Option Binding :=
  s.lookupFrom name offset s.scopes.length true (s.scopeAt offset)

/-- The module and the command that a dotted name stands for at an offset. -/
def resolveDotted (s : Scopes) (segments : List String) (offset : Nat) : Option (Nat × String) :=
  match segments with
  | [] | [_] => none
  | head :: rest =>
      let base? : Option String :=
        match s.lookup head offset with
        | some (.module place) => s.tracked.path? place
        | some (.package path) => some path
        | _ => none
      match base?, rest.getLast? with
      | some base, some command =>
          (s.tracked.find? (".".intercalate (base :: rest.dropLast))).map fun place =>
            (place, command)
      | _, _ => none

/-- The module and the command that a plain name stands for at an offset. -/
def resolveBare (s : Scopes) (name : String) (offset : Nat) : Option (Nat × String) :=
  match s.lookup name offset with
  | some (.command place command) => some (place, command)
  | _ => none

end Scopes

end Scope

end Longhand
