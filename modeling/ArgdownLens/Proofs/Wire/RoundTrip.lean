import ArgdownLens.Proofs.Json.Grammar
import ArgdownLens.Proofs.Wire.Tree

/-!
# Answers are read back, up to a depth

The text of an answer is decoded to the answer if its tree has at most 63 levels, and is no JSON to
the decoder if the tree is deeper (`decode_encode`). The answer must be one that can be sent
(`Response.Expressible`). The writers write no broken value, so that the decoder walks the tree of
what they write, field by field (`decoder_answer`). What is read of the maps is left open
(`decode_answer`), since they can be written in other ways, too.
-/

namespace ArgdownLens

/-- An answer that can be sent: the kinds of all nodes can be told from what is sent of them, and
all coordinates fit into 32 bits. -/
structure Response.Expressible (r : Response) : Prop where
  kinds : ∀ n ∈ r.ast.preorder, Wire.Expressible n.kind
  spans : ∀ n ∈ r.ast.preorder, Wire.Fits n.span
  members : ∀ e ∈ r.statements.entries, ∀ m ∈ e.2.members, Wire.Fits m.span
  descriptions : ∀ e ∈ r.arguments.entries, ∀ m ∈ e.2.descriptions, Wire.Fits m.span
  reconstructions : ∀ e ∈ r.arguments.entries, ∀ p ∈ e.2.reconstruction, Wire.Fits p.span
  parserErrors : ∀ e ∈ r.parserErrors, Wire.Fits e.token

namespace Wire

open Json Record

/-! ## Written answers are unbroken -/

/-- The tree of an object is unbroken if those of the members that have values are. -/
theorem unbroken_objectOf {ms : List (String × Option Value)}
    (h : ∀ m ∈ ms, ∀ v, m.2 = some v → v.raw.Unbroken) : (objectOf ms).raw.Unbroken := by
  apply Value.unbroken_object
  intro m hm
  obtain ⟨⟨name, v⟩, hmem, hv⟩ := List.mem_filterMap.mp hm
  obtain ⟨w, rfl, rfl⟩ := Option.map_eq_some_iff.mp hv
  exact h (name, some w) hmem w rfl

/-- The tree of a list is unbroken if those of its items are. -/
theorem unbroken_map {α : Type} {write : α → Value} (h : ∀ a, (write a).raw.Unbroken)
    (as : List α) : (Value.array (as.map write)).raw.Unbroken :=
  Value.unbroken_array (List.forall_mem_map.mpr fun a _ => h a)

/-- The tree of a map is unbroken if those of its values are. -/
theorem unbroken_ofMap {α : Type} {write : α → Value} (h : ∀ a, (write a).raw.Unbroken)
    (m : OrderedMap α) : (ofMap write m).raw.Unbroken :=
  Value.unbroken_object (List.forall_mem_map.mpr fun e _ => h e.2)

/-- The tree of a text is unbroken. -/
@[simp] theorem unbroken_string (s : String) : (Value.string s).raw.Unbroken := trivial

/-- The tree of a natural number is unbroken. -/
@[simp] theorem unbroken_ofNat (n : Nat) : (ofNat n).raw.Unbroken := trivial

/-- The tree of a truth value is unbroken. -/
@[simp] theorem unbroken_bool (b : Bool) : (Value.bool b).raw.Unbroken := trivial

/-- The tree of a list of texts is unbroken. -/
@[simp] theorem unbroken_ofStrings (texts : List String) : (ofStrings texts).raw.Unbroken :=
  unbroken_map unbroken_string texts

/-- The tree of an object with one text is unbroken. -/
@[simp] theorem unbroken_ofSoleText (field text : String) :
    (ofSoleText field text).raw.Unbroken :=
  Value.unbroken_object (by simp)

/-- The tree of a member is unbroken. -/
theorem unbroken_ofMember (m : Member) : (ofMember m).raw.Unbroken := by
  apply unbroken_objectOf
  simp [spanMembers]

/-- The tree of a premise-conclusion structure is unbroken. -/
theorem unbroken_ofReconstruction (r : Reconstruction) : (ofReconstruction r).raw.Unbroken := by
  apply unbroken_objectOf
  simp [spanMembers]

/-- The tree of a reference to an entity is unbroken. -/
theorem unbroken_ofEntityRef (e : EntityRef) : (ofEntityRef e).raw.Unbroken := by
  cases e with
  | _ title => exact Value.unbroken_object (by simp)

/-- The tree of a relation is unbroken. -/
theorem unbroken_ofRelation (r : Relation) : (ofRelation r).raw.Unbroken :=
  Value.unbroken_object (by simp [unbroken_ofEntityRef])

/-- The tree of a class of statements is unbroken. -/
theorem unbroken_ofEquivalenceClass (c : EquivalenceClass) :
    (ofEquivalenceClass c).raw.Unbroken :=
  Value.unbroken_object
    (by simp [unbroken_map unbroken_ofMember, unbroken_map unbroken_ofRelation])

/-- The tree of an argument is unbroken. -/
theorem unbroken_ofArgument (a : Argument) : (ofArgument a).raw.Unbroken := by
  apply unbroken_objectOf
  simp [unbroken_map unbroken_ofMember, unbroken_map unbroken_ofRelation, unbroken_ofReconstruction]

/-- The tree of a parser error is unbroken. -/
theorem unbroken_ofParserError (e : ParserError) : (ofParserError e).raw.Unbroken := by
  have htoken : (objectOf (spanMembers e.token)).raw.Unbroken := by
    apply unbroken_objectOf
    simp [spanMembers]
  exact Value.unbroken_object (by simp [htoken])

mutual

/-- The tree of a node is unbroken. -/
theorem unbroken_toJson (n : LooseNode) : n.toJson.raw.Unbroken := by
  match n with
  | ⟨tokenName, name, span, image, title, tag, text, statement, argument, sectionId, children⟩ =>
    have hchildren := unbroken_toJsonAll children
    rw [LooseNode.toJson]
    apply unbroken_objectOf
    simp [spanMembers, hchildren]

/-- The tree of a list of nodes is unbroken. -/
theorem unbroken_toJsonAll (ns : List LooseNode) :
    (Value.array (LooseNode.toJsonAll ns)).raw.Unbroken := by
  match ns with
  | [] => exact ⟨rfl, trivial⟩
  | n :: ns => exact ⟨rfl, unbroken_toJson n, (unbroken_toJsonAll ns).2⟩

end

/-! ## Answers -/

/-- The text of a value can be read, and a decoder reads `a` from it, with room for that many
brackets. -/
structure Reads {α : Type} (d : Decoder α) (room : Nat) (v : Value) (a : α) : Prop where
  unbroken : v.raw.Unbroken
  read : d room v.raw = .ok a

/-- The members of an answer, the tree first. -/
def answerMembers (ast : Node) (statements arguments : Value) (dictionary : Option Value)
    (errors : List ParserError) : List (String × Option Value) :=
  [("ast", some (LooseNode.ofNode ast).toJson), ("statements", some statements),
    ("arguments", some arguments), ("tagsDictionary", dictionary),
    ("parserErrors", some (.array (errors.map ofParserError)))]

section

variable {ast : Node} {statements arguments : Value} {dictionary : Option Value}
  {errors : List ParserError} {classes : OrderedMap EquivalenceClass} {found : OrderedMap Argument}
  {tags : Option OrderedSet}
  (hspans : ∀ n ∈ ast.preorder, Fits n.span)
  (hstatements : Reads (map equivalenceClass) 126 statements classes)
  (harguments : Reads (map argument) 126 arguments found)
  (htags : Option.Rel (Reads (map ignored) 126) dictionary tags)
  (herrors : ∀ e ∈ errors, Fits e.token)

include hstatements harguments htags

/-- The tree of an answer is unbroken. -/
theorem unbroken_answer :
    (objectOf (answerMembers ast statements arguments dictionary errors)).raw.Unbroken := by
  have hdictionary : ∀ v, dictionary = some v → v.raw.Unbroken := by
    rintro v rfl
    cases htags with
    | some h => exact h.unbroken
  apply unbroken_objectOf
  simpa [answerMembers, unbroken_toJson, hstatements.unbroken, harguments.unbroken,
    unbroken_map unbroken_ofParserError] using hdictionary

include hspans herrors

/-- Written answers are decoded as they are sent, if their trees have at most 63 levels. The tree
comes first, so that its fault is the fault of the text. -/
theorem decoder_answer :
    responseRecord.decoder maxDepth
        (objectOf (answerMembers ast statements arguments dictionary errors)).raw =
      if ast.levels ≤ 63 then .ok ⟨LooseNode.ofNode ast, classes, found, tags, errors⟩
      else .error .malformed := by
  have haligned : Aligned responseRecord.fields
      (answerMembers ast statements arguments dictionary errors) :=
    ⟨rfl, fun _ => rfl, rfl, fun _ => rfl, rfl, fun _ => rfl, rfl, nofun, rfl, fun _ => rfl,
      trivial⟩
  -- The answer is a bracket itself, so that 126 are left for two brackets a level.
  have hast : node 126 (LooseNode.ofNode ast).toJson.raw = _ := node_ofNode ast hspans 63
  have hread : list parserErrorRecord.decoder 126
      (Value.array (errors.map ofParserError)).raw = .ok errors :=
    list_map fun e he => parserErrorRecord_ofParserError 123 (herrors e he)
  -- The tree decides: either all fields are read back, or its fault ends the reading.
  rw [maxDepth, decoder_objectOf _ 126 haligned (by decide)]
  unfold responseRecord answerMembers
  by_cases hlevels : ast.levels ≤ 63
  · rw [if_pos hlevels] at hast ⊢
    rw [readFields_some (Field.read_mandatory hast _ _),
      readFields_some (Field.read_standard hstatements.read _ _),
      readFields_some (Field.read_standard harguments.read _ _)]
    cases htags with
    | none =>
      rw [readFields, readFields_some (Field.read_standard hread _ _)]
      rfl
    | @some v names h =>
      -- A dictionary is no missing value.
      have hnull : v ≠ .null := by
        rintro rfl
        cases h.read
      have hoptional : optional (map ignored) 126 v.raw = .ok (some names) := by
        rw [optional_of_ne_null _ _ hnull, h.read]
        rfl
      rw [readFields_some (Field.read_standard hoptional _ _),
        readFields_some (Field.read_standard hread _ _)]
      rfl
  · rw [if_neg hlevels] at hast ⊢
    unfold Field.mandatory
    rw [readFields]
    dsimp only
    rw [hast]
    rfl

/-- A written answer is decoded to what its parts are read as, if its tree has at most 63 levels. -/
theorem decode_answer (hkinds : ∀ n ∈ ast.preorder, Expressible n.kind) :
    decode (objectOf (answerMembers ast statements arguments dictionary errors)).text =
      if ast.levels ≤ 63 then .ok ⟨ast, classes, found, tags, errors⟩
      else .error (.json .malformed) := by
  -- The decoder walks the tree of the text, and what it reads is closed to the answer.
  have hunbroken : (objectOf (answerMembers ast statements arguments dictionary
      errors)).raw.Unbroken := unbroken_answer hstatements harguments htags
  have hread := Value.readWhole_text (responseRecord.decoder maxDepth) hunbroken
  rw [decoder_answer hspans hstatements harguments htags herrors] at hread
  unfold decode decodeSymbols
  rw [hread]
  by_cases hlevels : ast.levels ≤ 63
  · rw [if_pos hlevels, if_pos hlevels]
    dsimp only
    unfold LooseResponse.close
    rw [close_ofNode ast hkinds]
  · rw [if_neg hlevels, if_neg hlevels]

end

/-- An answer that can be sent is decoded from its text if its tree has at most 63 levels, and a
text with a deeper tree is no JSON to the decoder. -/
theorem decode_encode (r : Response) (h : r.Expressible) :
    decode (encode r) = if r.ast.levels ≤ 63 then .ok r else .error (.json .malformed) := by
  -- The bracket of the answer is open around all its parts, and there is room for 126 more.
  have hstatements : Reads (map equivalenceClass) 126 (ofMap ofEquivalenceClass r.statements)
      r.statements :=
    ⟨unbroken_ofMap unbroken_ofEquivalenceClass _,
      map_ofMap fun e he => equivalenceClass_ofEquivalenceClass 121 (h.members e he)⟩
  have harguments : Reads (map argument) 126 (ofMap ofArgument r.arguments) r.arguments :=
    ⟨unbroken_ofMap unbroken_ofArgument _,
      map_ofMap fun e he => argument_ofArgument 121 (h.descriptions e he) (h.reconstructions e he)⟩
  have hnull : Value.null.raw.Unbroken := trivial
  have hnames (tags : OrderedSet) :
      Reads (map ignored) 126 (ofMap (fun _ => Value.null) tags) tags :=
    ⟨unbroken_ofMap (fun _ => hnull) tags, map_ofMap fun _ _ => rfl⟩
  have htags : Option.Rel (Reads (map ignored) 126) (r.tags.map (ofMap fun _ => .null)) r.tags := by
    cases r.tags with
    | none => exact .none
    | some tags => exact .some (hnames tags)
  exact decode_answer h.spans hstatements harguments htags h.parserErrors h.kinds

/-- An answer with every form of text, number and absence. -/
def mixedResponse : Response where
  ast := ⟨.rule "argdown", ⟨1, 1, 3, 0⟩,
    [⟨.heading "\"§\"\n\x01😀" (some "s1"), .onLine 1 1 9, [⟨.token "Freestyle" "", default, []⟩]⟩,
      ⟨.argumentBlock "A", ⟨2, 1, 2, 4294967295⟩,
        [⟨.indent, default, []⟩, ⟨.tag none, default, []⟩,
          ⟨.argument ⟨.mention, none, some "A"⟩, default, []⟩]⟩]⟩
  statements := .ofList [("S", ⟨"S", [⟨"\\", .onLine 1 2 3, true⟩],
    [⟨.undercut, .argument "A", .statement "S"⟩], ["t"]⟩)]
  arguments := .ofList [("A", { title := "A", reconstruction := some ⟨.onLine 2 1 4, ["S"]⟩ }),
    ("B", { title := "" })]
  tags := some (.ofNames ["t", "ü"])
  parserErrors := [⟨"", default⟩]

/-- A rule above that many others. -/
def ruleChain : Nat → Node
  | 0 => ⟨.rule "r", default, []⟩
  | n + 1 => ⟨.rule "r", default, [ruleChain n]⟩

/-- A rule above `n` others has one level more. -/
theorem levels_ruleChain (n : Nat) : (ruleChain n).levels = n + 1 := by
  induction n with
  | zero => rfl
  | succ n ih => rw [ruleChain, Node.levels, Node.levelsAll, Node.levelsAll, ih, Nat.max_zero]

/-- An answer with a chain of rules for its tree. -/
def deepResponse : Response where
  ast := ruleChain 63

/-- The mixed answer is read back, and the deep one is one level too deep. -/
theorem mixedResponse_roundTrip :
    (mixedResponse.Expressible ∧ decode (encode mixedResponse) = .ok mixedResponse) ∧
      deepResponse.Expressible ∧ decode (encode deepResponse) = .error (.json .malformed) := by
  have hmixed : mixedResponse.Expressible :=
    ⟨by decide, by decide, by decide, by decide, by decide, by decide⟩
  have hdeep : deepResponse.Expressible :=
    ⟨by decide, by decide, by decide, by decide, by decide, by decide⟩
  have hlevels : mixedResponse.ast.levels ≤ 63 := by decide
  have htooDeep : ¬ deepResponse.ast.levels ≤ 63 := by
    unfold deepResponse
    rw [levels_ruleChain]
    decide
  exact ⟨⟨hmixed, (decode_encode mixedResponse hmixed).trans (if_pos hlevels)⟩, hdeep,
    (decode_encode deepResponse hdeep).trans (if_neg htooDeep)⟩

end Wire

end ArgdownLens
