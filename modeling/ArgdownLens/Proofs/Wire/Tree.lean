import ArgdownLens.Proofs.Tree.Preorder
import ArgdownLens.Proofs.Wire.Entity

/-!
# Trees are read back, up to a depth

A node on the wire is read back with what its children are read as (`decoder_toJson`). A level of a
tree takes two brackets, the object of a node and the list of its children, so a tree is read back
exactly if there is room for twice as many brackets as it has levels (`node_ofNode`); the induction
goes over the tree, and the room shrinks with it. Closing what was read gives the tree
(`close_ofNode`), as long as no token and no rule is named like a special one (`Expressible`).
-/

namespace ArgdownLens

mutual

/-- How many nodes stand above each other in the tree, at most. -/
def Node.levels : Node → Nat
  | ⟨_, _, children⟩ => Node.levelsAll children + 1

/-- How many nodes stand above each other in some trees, at most. -/
def Node.levelsAll : List Node → Nat
  | [] => 0
  | n :: ns => max n.levels (Node.levelsAll ns)

end

namespace Wire

open Json Record

/-! ## One node -/

/-- The record of one text. -/
def soleTextRecord (title field : String) : Record String :=
  ⟨title, "", [.mandatory field string fun s _ => s]⟩

/-- The text of an object with one text is read back. -/
theorem soleText_ofSoleText (title field : String) (room : Nat) (text : String) :
    soleText title field (room + 1) (ofSoleText field text).raw = .ok text := by
  have hdecoder : soleText title field = (soleTextRecord title field).decoder := rfl
  have hobject : ofSoleText field text = objectOf [(field, some (.string text))] := rfl
  have haligned : Aligned (soleTextRecord title field).fields [(field, some (.string text))] :=
    ⟨rfl, fun _ => rfl, trivial⟩
  have hnodup : ((soleTextRecord title field).fields.map Field.name).Nodup :=
    List.pairwise_singleton _ field
  rw [hdecoder, hobject, decoder_objectOf _ room haligned hnodup]
  unfold soleTextRecord
  rw [readFields_some (Field.read_mandatory (string_string room text) _ _)]
  rfl

/-- The members of a node. -/
def nodeMembers (n : LooseNode) : List (String × Option Value) :=
  [("tokenType", n.tokenName.map (ofSoleText "tokenName")), ("name", n.name.map .string)] ++
    spanMembers n.span ++ [("image", n.image.map .string), ("title", n.title.map .string),
    ("tag", n.tag.map .string), ("text", n.text.map .string),
    ("statement", n.statement.map (ofSoleText "title")),
    ("argument", n.argument.map (ofSoleText "title")),
    ("section", n.sectionId.map (ofSoleText "id")),
    ("children", some (.array (LooseNode.toJsonAll n.children)))]

/-- A node is written as the object of its members. -/
theorem toJson_eq (n : LooseNode) : n.toJson = objectOf (nodeMembers n) := by
  cases n
  rw [LooseNode.toJson]
  rfl

/-- The members of a node are those of its record. -/
theorem aligned_nodeMembers (children : Decoder (List LooseNode)) (n : LooseNode) :
    Aligned (nodeRecord children).fields (nodeMembers n) :=
  ⟨rfl, nofun, rfl, nofun, rfl, nofun, rfl, nofun, rfl, nofun, rfl, nofun, rfl, nofun, rfl, nofun,
    rfl, nofun, rfl, nofun, rfl, nofun, rfl, nofun, rfl, nofun, rfl, nofun, trivial⟩

/-- The fields of a node are named differently. -/
theorem nodup_nodeRecord (children : Decoder (List LooseNode)) :
    ((nodeRecord children).fields.map Field.name).Nodup := by
  have hnames : (nodeRecord children).fields.map Field.name = ["tokenType", "name", "startLine",
    "startColumn", "endLine", "endColumn", "image", "title", "tag", "text", "statement", "argument",
    "section", "children"] := rfl
  rw [hnames]
  decide

section

variable {α : Type} {room : Nat} {fs : List (Field α)} {ms : List (String × Option Value)} {a : α}

/-- A blank field is given the text that there is. -/
theorem readFields_text {set : Option String → α → α} (hblank : set none a = a)
    (field name : String) (text : Option String) :
    readFields room (.standard field (optional string) set :: fs)
        ((name, text.map .string) :: ms) a =
      readFields room fs ms (set text a) :=
  readFields_optional (fun s _ => string_string room s) nofun field name set fs ms hblank

/-- A blank field is given the text of the object that there is. -/
theorem readFields_soleText {set : Option String → α → α} (hblank : set none a = a)
    (title key field name : String) (text : Option String) :
    readFields (room + 1) (.standard field (optional (soleText title key)) set :: fs)
        ((name, text.map (ofSoleText key)) :: ms) a =
      readFields (room + 1) fs ms (set text a) :=
  readFields_optional (fun s _ => soleText_ofSoleText title key room s) nofun field name set fs ms
    hblank

/-- A field is given its coordinate. -/
theorem readFields_coordinate {set : Nat → α → α} {n : Nat} (h : n ≤ maxCoordinate)
    (field name : String) :
    readFields room (.standard field coordinate set :: fs) ((name, some (ofNat n)) :: ms) a =
      readFields room fs ms (set n a) :=
  readFields_some (Field.read_standard (coordinate_ofNat room h) field set) name fs ms a

end

/-- A node is read back with what its children are read as. -/
theorem decoder_toJson (children : Decoder (List LooseNode)) (room : Nat) {n : LooseNode}
    (h : Fits n.span) :
    (nodeRecord children).decoder (room + 2) n.toJson.raw =
      (children (room + 1) (Value.array (LooseNode.toJsonAll n.children)).raw).map fun cs =>
        { n with children := cs } := by
  rw [toJson_eq, decoder_objectOf _ (room + 1) (aligned_nodeMembers children n)
    (nodup_nodeRecord children)]
  unfold nodeRecord nodeMembers spanMembers
  -- Every field but the last one is read back whatever the children are.
  simp only [List.cons_append, List.nil_append, readFields_text, readFields_soleText,
    readFields_coordinate, h.startLine, h.startColumn, h.endLine, h.endColumn]
  rw [readFields]
  unfold Field.standard
  dsimp only
  cases children (room + 1) (Value.array (LooseNode.toJsonAll n.children)).raw with
  | error fault => rfl
  | ok cs => rfl

/-! ## All nodes of a tree -/

/-- What is sent of a node has the span of the node. -/
theorem span_ofKind (kind : NodeKind) (span : Span) (children : List LooseNode) :
    (LooseNode.ofKind kind span children).span = span := by
  cases kind <;> rfl

/-- What is sent of a node has the children that are sent. -/
theorem children_ofKind (kind : NodeKind) (span : Span) (children : List LooseNode) :
    (LooseNode.ofKind kind span children).children = children := by
  cases kind <;> rfl

/-- What is sent of a node depends on the children only in that they are sent with it. -/
theorem ofKind_with_children (kind : NodeKind) (span : Span) (children others : List LooseNode) :
    { LooseNode.ofKind kind span children with children := others } =
      LooseNode.ofKind kind span others := by
  cases kind <;> rfl

/-- The children of a node have room for two brackets less. -/
theorem node_succ (k : Nat) (v : Raw) :
    node (2 * (k + 1)) v =
      (nodeRecord (list fun _ child => node (2 * k) child)).decoder (2 * k + 2) v := by
  rw [Nat.mul_add, Nat.mul_one, node]

mutual

/-- With room for two brackets a level, a tree is read back if it has no more levels. -/
theorem node_ofNode (t : Node) (h : ∀ n ∈ t.preorder, Fits n.span) (k : Nat) :
    node (2 * k) (LooseNode.ofNode t).toJson.raw =
      if t.levels ≤ k then .ok (LooseNode.ofNode t) else .error .malformed := by
  match t, k with
  | ⟨kind, span, children⟩, 0 =>
    -- A tree has a level, and there is no room for its first bracket.
    rw [Node.levels, if_neg (by omega), toJson_eq]
    rfl
  | ⟨kind, span, children⟩, k + 1 =>
    obtain ⟨hspan, hbelow⟩ := Node.forall_mem_preorder.mp h
    have hsent : Fits (LooseNode.ofKind kind span (LooseNode.ofNodes children)).span := by
      rw [span_ofKind]
      exact hspan
    have hchildren := items_ofNodes children hbelow k
    rw [node_succ, LooseNode.ofNode, decoder_toJson _ (2 * k) hsent, children_ofKind, list_array,
      hchildren, Node.levels]
    -- The tree has one level more than its children, and they have one level less of room.
    by_cases hlevels : Node.levelsAll children ≤ k
    · rw [if_pos hlevels, if_pos (Nat.succ_le_succ hlevels)]
      exact congrArg Except.ok (ofKind_with_children kind span _ _)
    · rw [if_neg hlevels, if_neg (by omega)]
      rfl

/-- With room for two brackets a level, trees are read back if none has more levels. -/
theorem items_ofNodes (ts : List Node) (h : ∀ n ∈ Node.preorderAll ts, Fits n.span) (k : Nat) :
    items (fun _ child => node (2 * k) child) (2 * k)
        (Value.rawItems (LooseNode.toJsonAll (LooseNode.ofNodes ts))) =
      if Node.levelsAll ts ≤ k then .ok (LooseNode.ofNodes ts) else .error .malformed := by
  match ts with
  | [] => exact (if_pos (Nat.zero_le k)).symm
  | t :: ts =>
    obtain ⟨htree, hothers⟩ := Node.forall_mem_preorderAll_cons.mp h
    have hfirst := node_ofNode t htree k
    have hrest := items_ofNodes ts hothers k
    rw [LooseNode.ofNodes, LooseNode.toJsonAll, Value.rawItems, items, hfirst, Node.levelsAll]
    -- The first tree that is too deep makes the list malformed.
    by_cases ht : t.levels ≤ k
    · rw [if_pos ht, ok_bind, hrest]
      by_cases hts : Node.levelsAll ts ≤ k
      · rw [if_pos hts, if_pos (Nat.max_le.mpr ⟨ht, hts⟩)]
        rfl
      · rw [if_neg hts, if_neg fun hmax => hts (Nat.max_le.mp hmax).2]
        rfl
    · rw [if_neg ht, if_neg fun hmax => ht (Nat.max_le.mp hmax).1]
      rfl

end

/-! ## Closing -/

/-- The names of the tokens that have a meaning of their own. -/
def specialTokens : List String :=
  ["StatementReference", "StatementDefinition", "StatementMention", "ArgumentReference",
    "ArgumentDefinition", "ArgumentMention", "Tag", "Indent", "Dedent"]

/-- The kind of a node can be told from what is sent of it: no other token is named like a special
one, and no other rule is named like a heading. -/
def Expressible : NodeKind → Prop
  | .token name _ => name ∉ specialTokens
  | .rule name => name ≠ "heading"
  | _ => True

instance : DecidablePred Expressible
  | .token name _ => inferInstanceAs (Decidable (name ∉ specialTokens))
  | .rule name => inferInstanceAs (Decidable (name ≠ "heading"))
  | .indent | .dedent | .statement _ | .argument _ | .tag _ | .heading _ _ | .argumentBlock _ =>
    inferInstanceAs (Decidable True)

/-- The kind of a node is told from what is sent of it. -/
theorem kind_ofKind {kind : NodeKind} (h : Expressible kind) (span : Span) :
    (LooseNode.ofKind kind span []).kind = .ok kind := by
  cases kind with
  | rule name =>
    -- A rule is sent without an argument, so it is not taken for an argument block.
    have hrule : (LooseNode.ofKind (.rule name) span []).ruleKind name = .rule name := by
      unfold LooseNode.ruleKind
      split
      · contradiction
      · contradiction
      · rfl
    exact congrArg Except.ok hrule
  | token name image =>
    -- Only the last of the ten cases is left by the hypothesis.
    have htoken : (LooseNode.ofKind (.token name image) span []).tokenKind name =
        .token name image := by
      unfold LooseNode.tokenKind
      split
      case h_10 => rfl
      all_goals exact absurd (by decide) h
    exact congrArg Except.ok htoken
  | statement t =>
    obtain ⟨role, title, owner⟩ := t
    cases role <;> rfl
  | argument t =>
    obtain ⟨role, title, owner⟩ := t
    cases role <;> rfl
  | _ => rfl

/-- A node is closed with its kind, which does not depend on its children. -/
theorem close_eq (n : LooseNode) :
    n.close = (do
      let kind ← { n with children := [] }.kind
      let children ← LooseNode.closeAll n.children
      return ⟨kind, n.span, children⟩) := by
  cases n
  rw [LooseNode.close]

mutual

/-- Closing gives the tree back. -/
theorem close_ofNode (t : Node) (h : ∀ n ∈ t.preorder, Expressible n.kind) :
    (LooseNode.ofNode t).close = .ok t := by
  match t with
  | ⟨kind, span, children⟩ =>
    obtain ⟨hkind, hbelow⟩ := Node.forall_mem_preorder.mp h
    have hchildren := closeAll_ofNodes children hbelow
    rw [LooseNode.ofNode, close_eq, ofKind_with_children, kind_ofKind hkind, ok_bind,
      children_ofKind, hchildren, ok_bind, span_ofKind]
    rfl

/-- Closing gives the trees back. -/
theorem closeAll_ofNodes (ts : List Node) (h : ∀ n ∈ Node.preorderAll ts, Expressible n.kind) :
    LooseNode.closeAll (LooseNode.ofNodes ts) = .ok ts := by
  match ts with
  | [] => rfl
  | t :: ts =>
    obtain ⟨htree, hothers⟩ := Node.forall_mem_preorderAll_cons.mp h
    have hfirst := close_ofNode t htree
    have hrest := closeAll_ofNodes ts hothers
    rw [LooseNode.ofNodes, LooseNode.closeAll, hfirst, ok_bind, hrest, ok_bind]
    rfl

end

end Wire

end ArgdownLens
