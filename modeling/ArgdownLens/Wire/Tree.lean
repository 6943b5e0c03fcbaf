import ArgdownLens.Tree.Node
import ArgdownLens.Wire.Entity

/-!
# Trees on the wire

The engine sends every node as an object whose meaning depends on which of its members are there. A
text is decoded into such loose nodes first (`LooseNode`). Closing them (`LooseNode.close`) gives
the nodes of the tree; it fails at the first node, in the order of the document, that has neither a
token type nor a rule name.
-/

namespace ArgdownLens.Wire

open Json

/-- A node as it is sent. -/
structure LooseNode where
  tokenName : Option String := none
  name : Option String := none
  span : Span := spanRecord.blank
  image : Option String := none
  title : Option String := none
  tag : Option String := none
  text : Option String := none
  statement : Option String := none
  argument : Option String := none
  sectionId : Option String := none
  children : List LooseNode := []
  deriving Repr, Inhabited

/-! ## Decoding -/

/-- A record of one text. -/
def soleText (title field : String) : Decoder String :=
  Record.decoder ⟨title, "", [.mandatory field string fun s _ => s]⟩

/-- The fields of a node, all of which may be left out, with a decoder for its children. -/
def nodeRecord (children : Decoder (List LooseNode)) : Record LooseNode where
  title := "struct WireNode"
  blank := {}
  fields := [
    .standard "tokenType" (optional (soleText "struct WireTokenType" "tokenName"))
      fun s n => { n with tokenName := s },
    .standard "name" (optional string) fun s n => { n with name := s },
    .standard "startLine" coordinate fun c n => { n with span.startLine := c },
    .standard "startColumn" coordinate fun c n => { n with span.startColumn := c },
    .standard "endLine" coordinate fun c n => { n with span.endLine := c },
    .standard "endColumn" coordinate fun c n => { n with span.endColumn := c },
    .standard "image" (optional string) fun s n => { n with image := s },
    .standard "title" (optional string) fun s n => { n with title := s },
    .standard "tag" (optional string) fun s n => { n with tag := s },
    .standard "text" (optional string) fun s n => { n with text := s },
    .standard "statement" (optional (soleText "struct WireTitled" "title"))
      fun s n => { n with statement := s },
    .standard "argument" (optional (soleText "struct WireTitled" "title"))
      fun s n => { n with argument := s },
    .standard "section" (optional (soleText "struct WireSection" "id"))
      fun s n => { n with sectionId := s },
    .standard "children" children fun ns n => { n with children := ns }]

/-- A node with everything below it. A node and the list of its children are a bracket each, so the
children of a node have room for two brackets less. -/
def node : Decoder LooseNode
  | 0, v => (nodeRecord (list fun _ _ => .error .malformed)).decoder 0 v
  | 1, v => (nodeRecord (list fun _ _ => .error .malformed)).decoder 1 v
  | room + 2, v => (nodeRecord (list fun _ child => node room child)).decoder (room + 2) v

/-! ## Closing -/

/-- A node that has neither a token type nor a rule name, by where it starts. -/
structure Unnamed where
  line : Nat
  column : Nat
  deriving DecidableEq, Repr

namespace LooseNode

/-- The symbol token of a node. -/
def symbolToken (n : LooseNode) (role : Role) (owner : Option String) : SymbolToken :=
  ⟨role, n.title, owner⟩

/-- The kind of a node with a token type. -/
def tokenKind (n : LooseNode) (tokenName : String) : NodeKind :=
  match tokenName with
  | "StatementReference" => .statement (n.symbolToken .reference n.statement)
  | "StatementDefinition" => .statement (n.symbolToken .definition n.statement)
  | "StatementMention" => .statement (n.symbolToken .mention n.statement)
  | "ArgumentReference" => .argument (n.symbolToken .reference n.argument)
  | "ArgumentDefinition" => .argument (n.symbolToken .definition n.argument)
  | "ArgumentMention" => .argument (n.symbolToken .mention n.argument)
  | "Tag" => .tag n.tag
  | "Indent" => .indent
  | "Dedent" => .dedent
  | other => .token other (n.image.getD "")

/-- The kind of a node with a rule name. -/
def ruleKind (n : LooseNode) (name : String) : NodeKind :=
  match name, n.argument with
  | "heading", _ => .heading (n.text.getD "") n.sectionId
  | "argument", some argument => .argumentBlock argument
  | name, _ => .rule name

/-- The kind of a node. A token type counts before a rule name. -/
def kind (n : LooseNode) : Except Unnamed NodeKind :=
  match n.tokenName, n.name with
  | some tokenName, _ => .ok (n.tokenKind tokenName)
  | none, some name => .ok (n.ruleKind name)
  | none, none => .error ⟨n.span.startLine, n.span.startColumn⟩

mutual

/-- The tree of a node. -/
def close : LooseNode → Except Unnamed Node
  | ⟨tokenName, name, span, image, title, tag, text, statement, argument, sectionId, children⟩ => do
    let kind ← kind
      ⟨tokenName, name, span, image, title, tag, text, statement, argument, sectionId, []⟩
    let children ← closeAll children
    return ⟨kind, span, children⟩

/-- The trees of some nodes. -/
def closeAll : List LooseNode → Except Unnamed (List Node)
  | [] => .ok []
  | n :: ns => do
    let tree ← n.close
    return tree :: (← closeAll ns)

end

end LooseNode

end ArgdownLens.Wire
