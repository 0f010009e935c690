import Longhand.Text.Span

/-!
# Syntax trees

A node has a kind, the part that it plays in its parent, the span that it covers, its text if it is
a leaf or a dotted name, and its children in order.  Punctuation and keywords have no nodes, save
the comma of an `except` clause, which tells an old form of the clause from the new one.
-/

namespace Longhand.Syntax

/-- What a node is. -/
inductive Kind where
  -- statements
  | module
  | expressionStatement
  | importStatement
  | importFromStatement
  | futureImportStatement
  | printStatement
  | execStatement
  | assertStatement
  | returnStatement
  | deleteStatement
  | raiseStatement
  | passStatement
  | breakStatement
  | continueStatement
  | globalStatement
  | nonlocalStatement
  | typeAliasStatement
  | ifStatement
  | elifClause
  | elseClause
  | whileStatement
  | forStatement
  | tryStatement
  | exceptClause
  | finallyClause
  | withStatement
  | withClause
  | withItem
  | functionDefinition
  | classDefinition
  | decoratedDefinition
  | decorator
  | matchStatement
  | caseClause
  | block
  -- parts of imports
  | dottedName
  | aliasedImport
  | relativeImport
  | importPrefix
  | wildcardImport
  -- parameters
  | parameters
  | lambdaParameters
  | typedParameter
  | defaultParameter
  | typedDefaultParameter
  | dictionarySplatPattern
  | keywordSeparator
  | positionalSeparator
  | typeParameter
  -- types
  | type
  | splatType
  | genericType
  | unionType
  | constrainedType
  | memberType
  -- targets
  | listSplatPattern
  | tuplePattern
  | listPattern
  | patternList
  | assignment
  | augmentedAssignment
  -- expressions
  | expressionList
  | yield
  | lambda
  | conditionalExpression
  | namedExpression
  | asPattern
  | asPatternTarget
  | notOperator
  | booleanOperator
  | comparisonOperator
  | binaryOperator
  | unaryOperator
  | await
  | attribute
  | subscript
  | slice
  | call
  | argumentList
  | keywordArgument
  | listSplat
  | dictionarySplat
  | list
  | set
  | tuple
  | dictionary
  | pair
  | parenthesizedExpression
  | generatorExpression
  | listComprehension
  | setComprehension
  | dictionaryComprehension
  | forInClause
  | ifClause
  | identifier
  | integer
  | float
  | true
  | false
  | none
  | ellipsis
  -- strings
  | string
  | concatenatedString
  | stringStart
  | interpolation
  | formatSpecifier
  -- case patterns
  | casePattern
  | keywordPattern
  | classPattern
  | splatPattern
  | unionPattern
  | dictPattern
  | complexPattern
  -- others
  | comma
  | chevron
  | error
  | missing
  deriving DecidableEq, Repr, Inhabited

/-- The part that a node plays in its parent, where there are several. -/
inductive Role where
  | name
  | alias
  | moduleName
  | left
  | right
  | body
  | consequence
  | parameters
  | type
  | value
  | object
  | attribute
  | callee
  | arguments
  deriving DecidableEq, Repr, Inhabited

/-- A syntax tree. -/
inductive Tree where
  | node (kind : Kind) (role : Option Role) (span : Text.Span) (text : String)
      (children : List Tree)
  deriving Inhabited

namespace Tree

def kind : Tree → Kind
  | node k _ _ _ _ => k

def role : Tree → Option Role
  | node _ r _ _ _ => r

def span : Tree → Text.Span
  | node _ _ s _ _ => s

def text : Tree → String
  | node _ _ _ t _ => t

def children : Tree → List Tree
  | node _ _ _ _ cs => cs

/-- The same tree in another part. -/
def withRole (r : Role) : Tree → Tree
  | node k _ s t cs => node k (some r) s t cs

/-- The same tree as another kind of node. -/
def withKind (k : Kind) : Tree → Tree
  | node _ r s t cs => node k r s t cs

/-- The first child in a part. -/
def child? (r : Role) (t : Tree) : Option Tree :=
  t.children.find? fun c => c.role = some r

/-- All children in a part. -/
def childrenIn (r : Role) (t : Tree) : List Tree :=
  t.children.filter fun c => c.role = some r

end Tree

/-- The names that a plain dotted expression or a dotted name is made of.  Any other expression has
none. -/
def segments? : Tree → Option (List String)
  | .node kind _ _ text children =>
      match kind with
      | .identifier => some [text]
      | .attribute =>
          match children with
          | [object, name] =>
              match segments? object with
              | none => none
              | some names => some (names ++ [name.text])
          | _ => none
      | .dottedName =>
          let names := (children.filter fun c => c.kind = .identifier).map Tree.text
          if names.isEmpty then none else some names
      | _ => none

/-- How deep into a tree the searches go.  Nodes further down are not looked at. -/
def depthLimit : Nat := 1024

end Longhand.Syntax
