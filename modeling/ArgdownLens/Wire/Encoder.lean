import ArgdownLens.Json.Writer
import ArgdownLens.Wire.Response

/-!
# Writing answers

The answer as the engine sends it. Members without a value are left out, every node has its list of
children, and the entries of maps keep their order. `LooseNode.ofNode` says what is sent of a node;
closing undoes it, unless a token or a rule is named like a special one.
-/

namespace ArgdownLens.Wire

open Json

/-- The object of those members that have a value. -/
def objectOf (members : List (String × Option Value)) : Value :=
  .object (members.filterMap fun (name, v) => v.map (name, ·))

/-- A number. -/
def ofNat (n : Nat) : Value :=
  .number (.natural n)

/-- The members of a span. -/
def spanMembers (s : Span) : List (String × Option Value) :=
  [("startLine", ofNat s.startLine), ("startColumn", ofNat s.startColumn),
    ("endLine", ofNat s.endLine), ("endColumn", ofNat s.endColumn)]

/-- A list of texts. -/
def ofStrings (texts : List String) : Value :=
  .array (texts.map .string)

/-- An object with one text. -/
def ofSoleText (field text : String) : Value :=
  .object [(field, .string text)]

/-- A map from names. -/
def ofMap {α : Type} (write : α → Value) (m : OrderedMap α) : Value :=
  .object (m.entries.map fun (name, a) => (name, write a))

/-! ## Trees -/

namespace LooseNode

/-- What is sent of a node with the children given. -/
def ofKind (kind : NodeKind) (span : Span) (children : List LooseNode) : LooseNode :=
  let bare : LooseNode := { tokenName := kind.tokenName?, span := span, children := children }
  match kind with
  | .rule name => { bare with name := some name }
  | .token _ image => { bare with image := some image }
  | .indent | .dedent => bare
  | .statement t => { bare with title := t.title, statement := t.owner }
  | .argument t => { bare with title := t.title, argument := t.owner }
  | .tag tag => { bare with tag := tag }
  | .heading text sectionId =>
    { bare with name := some "heading", text := some text, sectionId := sectionId }
  | .argumentBlock argument => { bare with name := some "argument", argument := some argument }

mutual

/-- What is sent of a tree. -/
def ofNode : Node → LooseNode
  | ⟨kind, span, children⟩ => ofKind kind span (ofNodes children)

/-- What is sent of some trees. -/
def ofNodes : List Node → List LooseNode
  | [] => []
  | n :: ns => ofNode n :: ofNodes ns

end

mutual

/-- A node on the wire. -/
def toJson : LooseNode → Value
  | ⟨tokenName, name, span, image, title, tag, text, statement, argument, sectionId, children⟩ =>
    objectOf ([
      ("tokenType", tokenName.map (ofSoleText "tokenName")),
      ("name", name.map .string)] ++ spanMembers span ++ [
      ("image", image.map .string),
      ("title", title.map .string),
      ("tag", tag.map .string),
      ("text", text.map .string),
      ("statement", statement.map (ofSoleText "title")),
      ("argument", argument.map (ofSoleText "title")),
      ("section", sectionId.map (ofSoleText "id")),
      ("children", some (.array (toJsonAll children)))])

/-- Some nodes on the wire. -/
def toJsonAll : List LooseNode → List Value
  | [] => []
  | n :: ns => n.toJson :: toJsonAll ns

end

end LooseNode

/-! ## Statements, arguments and errors -/

/-- The name of a type of relations. -/
def relationName : RelationType → String
  | .support => "support"
  | .attack => "attack"
  | .undercut => "undercut"
  | .entails => "entails"
  | .contrary => "contrary"
  | .contradictory => "contradictory"

/-- A reference to an entity. -/
def ofEntityRef : EntityRef → Value
  | .statement title => .object [("kind", .string "statement"), ("title", .string title)]
  | .argument title => .object [("kind", .string "argument"), ("title", .string title)]

/-- A relation. -/
def ofRelation (r : Relation) : Value :=
  .object [("type", .string (relationName r.type)), ("from", ofEntityRef r.source),
    ("to", ofEntityRef r.target)]

/-- A member. -/
def ofMember (m : Member) : Value :=
  objectOf (("text", some (.string m.text)) :: spanMembers m.span ++
    [("isCanonical", some (.bool m.isCanonical))])

/-- A premise-conclusion structure. -/
def ofReconstruction (r : Reconstruction) : Value :=
  objectOf (spanMembers r.span ++ [("statements", some (ofStrings r.statements))])

/-- A class of statements. -/
def ofEquivalenceClass (c : EquivalenceClass) : Value :=
  .object [("title", .string c.title), ("members", .array (c.members.map ofMember)),
    ("relations", .array (c.relations.map ofRelation)), ("tags", ofStrings c.tags)]

/-- An argument. -/
def ofArgument (a : Argument) : Value :=
  objectOf [("title", some (.string a.title)),
    ("descriptions", some (.array (a.descriptions.map ofMember))),
    ("pcs", a.reconstruction.map ofReconstruction),
    ("relations", some (.array (a.relations.map ofRelation))),
    ("tags", some (ofStrings a.tags))]

/-- A parser error. -/
def ofParserError (e : ParserError) : Value :=
  .object [("message", .string e.message), ("token", objectOf (spanMembers e.token))]

/-! ## Answers -/

/-- An answer on the wire. The tags are the names of a dictionary whose values do not matter. -/
def ofResponse (r : Response) : Value :=
  objectOf [("ast", some (LooseNode.ofNode r.ast).toJson),
    ("statements", some (ofMap ofEquivalenceClass r.statements)),
    ("arguments", some (ofMap ofArgument r.arguments)),
    ("tagsDictionary", r.tags.map (ofMap fun _ => .null)),
    ("parserErrors", some (.array (r.parserErrors.map ofParserError)))]

/-- The text that an engine sends for an answer. -/
def encode (r : Response) : String :=
  (ofResponse r).text

end ArgdownLens.Wire
