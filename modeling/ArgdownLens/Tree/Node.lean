import ArgdownLens.Span

/-!
# Syntax trees

The engine answers with a concrete tree. Its nodes are grammar rules and tokens. Some tokens name a
statement, an argument or a tag; indentation tokens have spans without meaning.
-/

namespace ArgdownLens

/-- What a token does with the statement or argument that it names. -/
inductive Role where
  | reference | definition | mention
  deriving DecidableEq, Repr, Inhabited

/-- A token that names a statement or an argument, by its own title or by that of its owner. -/
structure SymbolToken where
  role : Role
  title : Option String
  owner : Option String
  deriving DecidableEq, Repr, Inhabited

/-- What a node of the tree is. -/
inductive NodeKind where
  /-- A grammar rule. -/
  | rule (name : String)
  /-- A token without a meaning of its own here. -/
  | token (name image : String)
  | indent
  | dedent
  | statement (token : SymbolToken)
  | argument (token : SymbolToken)
  | tag (tag : Option String)
  | heading (text : String) (sectionId : Option String)
  /-- The rule around the premises and conclusions of an argument. -/
  | argumentBlock (argument : String)
  deriving DecidableEq, Repr, Inhabited

/-- A node of the tree with everything below it. -/
structure Node where
  kind : NodeKind
  span : Span
  children : List Node := []
  deriving Repr, Inhabited

namespace Node

/-- Whether the node is an indentation token. -/
def isStructural (n : Node) : Bool :=
  n.kind = .indent ∨ n.kind = .dedent

end Node

/-- The token name of a role in a family of symbols. -/
def Role.tokenName (family : String) : Role → String
  | .reference => family ++ "Reference"
  | .definition => family ++ "Definition"
  | .mention => family ++ "Mention"

/-- The name under which the engine sends the token; rules have none. -/
def NodeKind.tokenName? : NodeKind → Option String
  | .rule _ | .heading _ _ | .argumentBlock _ => none
  | .token name _ => some name
  | .indent => some "Indent"
  | .dedent => some "Dedent"
  | .statement t => some (t.role.tokenName "Statement")
  | .argument t => some (t.role.tokenName "Argument")
  | .tag _ => some "Tag"

/-- The source text of a token, as far as the tree keeps it. -/
def NodeKind.image? : NodeKind → Option String
  | .token _ image => some image
  | _ => none

mutual

/-- The node and everything below it, each node before its children. -/
def Node.preorder : Node → List Node
  | ⟨kind, span, children⟩ => ⟨kind, span, children⟩ :: Node.preorderAll children

/-- The nodes of a forest, each node before its children. -/
def Node.preorderAll : List Node → List Node
  | [] => []
  | n :: ns => n.preorder ++ Node.preorderAll ns

end

end ArgdownLens
