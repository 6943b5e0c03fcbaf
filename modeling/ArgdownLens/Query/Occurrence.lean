import ArgdownLens.Model.Response
import ArgdownLens.Query.Locate

/-!
# Occurrences of symbols

A symbol is a statement, an argument or a tag, and a node that names one is an occurrence of it. Two
occurrences are of the same symbol if their families and their keys agree.
-/

namespace ArgdownLens

/-- The families of symbols. Each has titles of its own. -/
inductive SymbolFamily where
  | statement | argument | tag
  deriving DecidableEq, Repr, Inhabited

/-- The ways in which a document names a symbol. -/
inductive OccurrenceKind where
  | statementReference | statementDefinition | statementMention
  | argumentReference | argumentDefinition | argumentMention
  | tag
  deriving DecidableEq, Repr, Inhabited

namespace OccurrenceKind

/-- All kinds of occurrences. -/
def all : List OccurrenceKind :=
  [.statementReference, .statementDefinition, .statementMention,
    .argumentReference, .argumentDefinition, .argumentMention, .tag]

/-- The family of the symbol named. -/
def family : OccurrenceKind → SymbolFamily
  | .statementReference | .statementDefinition | .statementMention => .statement
  | .argumentReference | .argumentDefinition | .argumentMention => .argument
  | .tag => .tag

/-- Whether the occurrence defines its symbol. -/
def isDefinition : OccurrenceKind → Bool
  | .statementDefinition | .argumentDefinition => true
  | _ => false

/-- How Argdown writes an occurrence of this kind under a name. -/
def render (kind : OccurrenceKind) (name : String) : String :=
  match kind with
  | .argumentReference => "<" ++ name ++ ">"
  | .argumentDefinition => "<" ++ name ++ ">:"
  | .argumentMention => "@<" ++ name ++ ">"
  | .statementReference => "[" ++ name ++ "]"
  | .statementDefinition => "[" ++ name ++ "]:"
  | .statementMention => "@[" ++ name ++ "]"
  | .tag => "#(" ++ name ++ ")"

/-- The kind of a statement token. -/
def ofStatementRole : Role → OccurrenceKind
  | .reference => .statementReference
  | .definition => .statementDefinition
  | .mention => .statementMention

/-- The kind of an argument token. -/
def ofArgumentRole : Role → OccurrenceKind
  | .reference => .argumentReference
  | .definition => .argumentDefinition
  | .mention => .argumentMention

end OccurrenceKind

/-- A node that names a symbol, with the key of the symbol. -/
structure Occurrence where
  kind : OccurrenceKind
  key : String
  node : Node
  deriving Repr, Inhabited

namespace Occurrence

/-- The family of the symbol. -/
def family (o : Occurrence) : SymbolFamily :=
  o.kind.family

/-- Whether the occurrence defines its symbol. -/
def isDefinition (o : Occurrence) : Bool :=
  o.kind.isDefinition

/-- Where the occurrence stands. -/
def range (o : Occurrence) : Range :=
  o.node.span.toRange

/-- Whether two occurrences are of the same symbol. -/
def sameSymbol (o other : Occurrence) : Bool :=
  o.family = other.family ∧ o.key = other.key

end Occurrence

/-- The key that a token gives: its own title, else the title of its owner. -/
def SymbolToken.key? (t : SymbolToken) : Option String :=
  t.title.or t.owner

/-- The kind of symbol that a node names, and its key, if it names one. -/
def NodeKind.symbol? : NodeKind → Option (OccurrenceKind × String)
  | .statement t => t.key?.map (.ofStatementRole t.role, ·)
  | .argument t => t.key?.map (.ofArgumentRole t.role, ·)
  | .tag name => name.map (.tag, ·)
  | _ => none

/-- The occurrence that a node is, if it names a symbol. -/
def Node.occurrence? (n : Node) : Option Occurrence :=
  n.kind.symbol?.map fun (kind, key) => ⟨kind, key, n⟩

/-- The innermost occurrence at a place given in the engine's coordinates. -/
def Response.occurrenceAt? (r : Response) (line character : Nat) : Option Occurrence :=
  (locate r.ast.children line character).reverse.findSome? Node.occurrence?

/-- The innermost occurrence at an editor's position. -/
def Response.occurrenceAtPosition? (r : Response) (p : Position) : Option Occurrence :=
  r.occurrenceAt? p.toOneBased.1 p.toOneBased.2

end ArgdownLens
