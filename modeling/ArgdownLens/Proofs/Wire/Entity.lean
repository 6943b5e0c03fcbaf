import ArgdownLens.Proofs.Wire.Field

/-!
# Statements, arguments and errors are read back

The decoders of everything besides the tree undo their writers, as long as the coordinates of all
spans fit into 32 bits (`Fits`) and as many brackets may be opened as the written form has inside
of each other: four for a class of statements or an argument (`equivalenceClass_ofEquivalenceClass`,
`argument_ofArgument`), two for a parser error.
-/

namespace ArgdownLens.Wire

open Json Record

/-! ## Spans -/

/-- All coordinates of the span fit into 32 bits. -/
structure Fits (s : Span) : Prop where
  startLine : s.startLine ≤ maxCoordinate
  startColumn : s.startColumn ≤ maxCoordinate
  endLine : s.endLine ≤ maxCoordinate
  endColumn : s.endColumn ≤ maxCoordinate

instance (s : Span) : Decidable (Fits s) :=
  decidable_of_iff (s.startLine ≤ maxCoordinate ∧ s.startColumn ≤ maxCoordinate ∧
      s.endLine ≤ maxCoordinate ∧ s.endColumn ≤ maxCoordinate)
    ⟨fun ⟨h1, h2, h3, h4⟩ => ⟨h1, h2, h3, h4⟩, fun ⟨h1, h2, h3, h4⟩ => ⟨h1, h2, h3, h4⟩⟩

/-- The members of a span are those of its record. -/
theorem aligned_spanMembers (s : Span) : Aligned spanRecord.fields (spanMembers s) :=
  ⟨rfl, fun _ => rfl, rfl, fun _ => rfl, rfl, fun _ => rfl, rfl, fun _ => rfl, trivial⟩

/-- The fields of a span are named differently. -/
theorem nodup_spanRecord : (spanRecord.fields.map Field.name).Nodup := by decide

/-- The fields of a span are read back. -/
theorem readFields_spanMembers (room : Nat) {s : Span} (h : Fits s) :
    readFields room spanRecord.fields (spanMembers s) spanRecord.blank = .ok s := by
  unfold spanRecord spanMembers
  rw [readFields_some (Field.read_mandatory (coordinate_ofNat room h.startLine) _ _),
    readFields_some (Field.read_mandatory (coordinate_ofNat room h.startColumn) _ _),
    readFields_some (Field.read_mandatory (coordinate_ofNat room h.endLine) _ _),
    readFields_some (Field.read_mandatory (coordinate_ofNat room h.endColumn) _ _)]
  rfl

/-- A span is read back. -/
theorem span_spanMembers (room : Nat) {s : Span} (h : Fits s) :
    span (room + 1) (objectOf (spanMembers s)).raw = .ok s := by
  rw [span, decoder_objectOf spanRecord room (aligned_spanMembers s) nodup_spanRecord,
    readFields_spanMembers room h]

/-- The members of a span can be passed over. -/
theorem read_spanMembers (room : Nat) {s : Span} (h : Fits s) :
    ∀ m ∈ present (spanMembers s), ∃ value, m.2.raw.read room = .ok value := by
  have hread {n : Nat} (hn : n ≤ maxCoordinate) : ∃ value, (ofNat n).raw.read room = .ok value := by
    refine ⟨.number (.natural n), ?_⟩
    unfold ofNat
    rw [Value.raw, Raw.read, value_coordinate hn]
    rfl
  have hmembers : present (spanMembers s) =
      [("startLine", ofNat s.startLine), ("startColumn", ofNat s.startColumn),
        ("endLine", ofNat s.endLine), ("endColumn", ofNat s.endColumn)] := rfl
  rw [hmembers]
  simp only [List.forall_mem_cons, List.not_mem_nil, false_implies, implies_true, and_true]
  exact ⟨hread h.startLine, hread h.startColumn, hread h.endLine, hread h.endColumn⟩

/-! ## Members and premise-conclusion structures -/

/-- The members of a member besides those of its span. -/
def textMembers (m : Member) : List (String × Option Value) :=
  [("text", some (.string m.text)), ("isCanonical", some (.bool m.isCanonical))]

/-- A member is read back. -/
theorem member_ofMember (room : Nat) {m : Member} (h : Fits m.span) :
    member (room + 1) (ofMember m).raw = .ok m := by
  have haligned : Aligned memberRecord.fields (textMembers m) :=
    ⟨rfl, fun _ => rfl, rfl, fun _ => rfl, trivial⟩
  have hread : readFields room memberRecord.fields (textMembers m) memberRecord.blank =
      .ok { m with span := spanRecord.blank } := by
    unfold memberRecord textMembers
    rw [readFields_some (Field.read_standard (string_string room m.text) _ _),
      readFields_some (Field.read_standard (boolean_bool room m.isCanonical) _ _)]
    rfl
  -- The members of the span stand between the others.
  have hflattened : flattened memberRecord spanRecord (room + 1) (ofMember m).raw = _ :=
    flattened_objectOf room _ (textMembers m) (spanMembers m.span) rfl rfl haligned (by decide)
      (aligned_spanMembers m.span) nodup_spanRecord (read_spanMembers room h)
  rw [hread, readFields_spanMembers room h] at hflattened
  unfold member
  dsimp only
  rw [hflattened]
  rfl

/-- The members of a premise-conclusion structure besides those of its span. -/
def titleMembers (r : Reconstruction) : List (String × Option Value) :=
  [("statements", some (ofStrings r.statements))]

/-- A premise-conclusion structure is read back. -/
theorem reconstruction_ofReconstruction (room : Nat) {r : Reconstruction} (h : Fits r.span) :
    reconstruction (room + 2) (ofReconstruction r).raw = .ok r := by
  have haligned : Aligned reconstructionRecord.fields (titleMembers r) :=
    ⟨rfl, fun _ => rfl, trivial⟩
  have hread : readFields (room + 1) reconstructionRecord.fields (titleMembers r)
      reconstructionRecord.blank = .ok { r with span := spanRecord.blank } := by
    unfold reconstructionRecord titleMembers
    rw [readFields_some (Field.read_standard (list_ofStrings room r.statements) _ _)]
    rfl
  have hflattened :
      flattened reconstructionRecord spanRecord (room + 2) (ofReconstruction r).raw = _ :=
    flattened_objectOf (room + 1) _ (titleMembers r) (spanMembers r.span) rfl rfl haligned
      (by decide) (aligned_spanMembers r.span) nodup_spanRecord (read_spanMembers (room + 1) h)
  rw [hread, readFields_spanMembers (room + 1) h] at hflattened
  unfold reconstruction
  dsimp only
  rw [hflattened]
  rfl

/-! ## Relations -/

/-- The name of a type of relations is read back. -/
theorem relationType_relationName (room : Nat) (t : RelationType) :
    relationType room (Value.string (relationName t)).raw = .ok t := by
  rw [Value.raw, relationType, textOf_escapePieces, ok_bind]
  cases t <;> rfl

/-- The kind of an entity is taken, and its title is kept. -/
theorem entityMembers_kind_title (room : Nat) {kind called : String} {refer : String → EntityRef}
    (h : oneOf entityKinds kind = .ok (refer, called)) (title : String) :
    entityMembers room none
        (Value.rawMembers [("kind", .string kind), ("title", .string title)]) =
      .ok (some (refer, called), [("title", (Value.string title).raw)]) := by
  have hkind : entityKind room (Value.string kind).raw = .ok (refer, called) := by
    rw [Value.raw, entityKind, stringAs, textOf_escapePieces, ok_bind, h]
  have hread : (Value.string title).raw.read room = .ok (.string title) := by
    rw [Value.raw, Raw.read, textOf_escapePieces]
    rfl
  have htitle : entityMembers room (some (refer, called))
      (Value.rawMembers [("title", .string title)]) =
        .ok (some (refer, called), [("title", (Value.string title).raw)]) := by
    rw [Value.rawMembers, entityMembers, textOf_escapePieces, ok_bind, if_neg (by decide), hread]
    rfl
  rw [Value.rawMembers, entityMembers, textOf_escapePieces, ok_bind, if_pos rfl,
    Option.isSome_none, if_neg Bool.false_ne_true, hkind, ok_bind, htitle]

/-- An object with the name of a kind and a title refers to the entity of that kind. -/
theorem entityRef_object (room : Nat) {kind called : String} {refer : String → EntityRef}
    (h : oneOf entityKinds kind = .ok (refer, called)) (title : String) :
    entityRef (room + 1) (Value.object [("kind", .string kind), ("title", .string title)]).raw =
      .ok (refer title) := by
  have haligned : Aligned titleRecord.fields [("title", some (.string title))] :=
    ⟨rfl, fun _ => rfl, trivial⟩
  have hname : (titleRecord.giveNamed room titleRecord.start
      [("title", (Value.string title).raw)] >>= titleRecord.finish) = .ok title := by
    refine (giveNamed_bind_finish titleRecord room haligned (by decide)).trans ?_
    unfold titleRecord
    rw [readFields_some (Field.read_mandatory (string_string room title) _ _)]
    rfl
  have hcheck : Ending.closed.check = .ok () := rfl
  -- The kind has been taken out of the members, and the title is the only one left.
  rw [Value.raw, entityRef, openBracket, ok_bind, entityMembers_kind_title room h, ok_bind]
  dsimp only
  rw [hcheck, ok_bind, ← bind_assoc, hname]
  rfl

/-- A reference to an entity is read back. -/
theorem entityRef_ofEntityRef (room : Nat) (e : EntityRef) :
    entityRef (room + 1) (ofEntityRef e).raw = .ok e := by
  cases e with
  | statement title => exact entityRef_object room rfl title
  | argument title => exact entityRef_object room rfl title

/-- The members of a relation. -/
def relationMembers (r : Relation) : List (String × Option Value) :=
  [("type", some (.string (relationName r.type))), ("from", some (ofEntityRef r.source)),
    ("to", some (ofEntityRef r.target))]

/-- A relation is read back. -/
theorem relation_ofRelation (room : Nat) (r : Relation) :
    relation (room + 2) (ofRelation r).raw = .ok r := by
  have haligned : Aligned relationRecord.fields (relationMembers r) :=
    ⟨rfl, fun _ => rfl, rfl, fun _ => rfl, rfl, fun _ => rfl, trivial⟩
  have hobject : ofRelation r = objectOf (relationMembers r) := rfl
  -- Two brackets: the relation and the references in it.
  rw [relation, hobject, decoder_objectOf relationRecord (room + 1) haligned (by decide)]
  unfold relationRecord relationMembers
  rw [readFields_some (Field.read_mandatory (relationType_relationName _ r.type) _ _),
    readFields_some (Field.read_mandatory (entityRef_ofEntityRef room r.source) _ _),
    readFields_some (Field.read_mandatory (entityRef_ofEntityRef room r.target) _ _)]
  rfl

/-- The relations of an entity are read back. -/
theorem list_ofRelation (room : Nat) (rs : List Relation) :
    list relation (room + 3) (Value.array (rs.map ofRelation)).raw = .ok rs :=
  list_map fun r _ => relation_ofRelation room r

/-- The members of an entity are read back. -/
theorem list_ofMember (room : Nat) {ms : List Member} (h : ∀ m ∈ ms, Fits m.span) :
    list member (room + 2) (Value.array (ms.map ofMember)).raw = .ok ms :=
  list_map fun m hm => member_ofMember room (h m hm)

/-! ## Statements, arguments and errors -/

/-- The members of a class of statements. -/
def classMembers (c : EquivalenceClass) : List (String × Option Value) :=
  [("title", some (.string c.title)), ("members", some (.array (c.members.map ofMember))),
    ("relations", some (.array (c.relations.map ofRelation))), ("tags", some (ofStrings c.tags))]

/-- A class of statements is read back. -/
theorem equivalenceClass_ofEquivalenceClass (room : Nat) {c : EquivalenceClass}
    (h : ∀ m ∈ c.members, Fits m.span) :
    equivalenceClass (room + 4) (ofEquivalenceClass c).raw = .ok c := by
  have haligned : Aligned equivalenceClassRecord.fields (classMembers c) :=
    ⟨rfl, fun _ => rfl, rfl, fun _ => rfl, rfl, fun _ => rfl, rfl, fun _ => rfl, trivial⟩
  have hobject : ofEquivalenceClass c = objectOf (classMembers c) := rfl
  -- Four brackets: the class, the list of relations, a relation and the references in it.
  rw [equivalenceClass, hobject, decoder_objectOf _ (room + 3) haligned (by decide)]
  unfold equivalenceClassRecord classMembers
  rw [readFields_some (Field.read_mandatory (string_string _ c.title) _ _),
    readFields_some (Field.read_standard (list_ofMember (room + 1) h) _ _),
    readFields_some (Field.read_standard (list_ofRelation room c.relations) _ _),
    readFields_some (Field.read_standard (list_ofStrings (room + 2) c.tags) _ _)]
  rfl

/-- The members of an argument. -/
def argumentMembers (a : Argument) : List (String × Option Value) :=
  [("title", some (.string a.title)),
    ("descriptions", some (.array (a.descriptions.map ofMember))),
    ("pcs", a.reconstruction.map ofReconstruction),
    ("relations", some (.array (a.relations.map ofRelation))), ("tags", some (ofStrings a.tags))]

/-- An argument is read back. -/
theorem argument_ofArgument (room : Nat) {a : Argument}
    (hdescriptions : ∀ m ∈ a.descriptions, Fits m.span)
    (hreconstruction : ∀ r, a.reconstruction = some r → Fits r.span) :
    argument (room + 4) (ofArgument a).raw = .ok a := by
  have haligned : Aligned argumentRecord.fields (argumentMembers a) :=
    ⟨rfl, fun _ => rfl, rfl, fun _ => rfl, rfl, nofun, rfl, fun _ => rfl, rfl, fun _ => rfl,
      trivial⟩
  have hobject : ofArgument a = objectOf (argumentMembers a) := rfl
  -- The structure is the only member that may be missing.
  have hpcs (r : Reconstruction) (hr : a.reconstruction = some r) :
      reconstruction (room + 3) (ofReconstruction r).raw = .ok r :=
    reconstruction_ofReconstruction (room + 1) (hreconstruction r hr)
  rw [argument, hobject, decoder_objectOf _ (room + 3) haligned (by decide)]
  unfold argumentRecord argumentMembers
  rw [readFields_some (Field.read_mandatory (string_string _ a.title) _ _),
    readFields_some (Field.read_standard (list_ofMember (room + 1) hdescriptions) _ _),
    readFields_optional hpcs nofun _ _ _ _ _ rfl,
    readFields_some (Field.read_standard (list_ofRelation room a.relations) _ _),
    readFields_some (Field.read_standard (list_ofStrings (room + 2) a.tags) _ _)]
  rfl

/-- The members of a parser error. -/
def errorMembers (e : ParserError) : List (String × Option Value) :=
  [("message", some (.string e.message)), ("token", some (objectOf (spanMembers e.token)))]

/-- A parser error is read back. -/
theorem parserErrorRecord_ofParserError (room : Nat) {e : ParserError} (h : Fits e.token) :
    parserErrorRecord.decoder (room + 2) (ofParserError e).raw = .ok e := by
  have haligned : Aligned parserErrorRecord.fields (errorMembers e) :=
    ⟨rfl, fun _ => rfl, rfl, fun _ => rfl, trivial⟩
  have hobject : ofParserError e = objectOf (errorMembers e) := rfl
  rw [hobject, decoder_objectOf _ (room + 1) haligned (by decide)]
  unfold parserErrorRecord errorMembers
  rw [readFields_some (Field.read_mandatory (string_string _ e.message) _ _),
    readFields_some (Field.read_mandatory (span_spanMembers room h) _ _)]
  rfl

end ArgdownLens.Wire
