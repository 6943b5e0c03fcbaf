import ArgdownLens.Proofs.Text.Utf8
import ArgdownLens.Proofs.Wire.Walk
import ArgdownLens.Wire.Response

/-!
# Answers with stray bytes

What an engine prints should be UTF-8. The bytes of a text are decoded like the text, and other
bytes are decoded exactly if the text with U+FFFD for each broken stretch is and no broken stretch
stands in a string that is read (`decodeBytes_eq_ok_iff`). So bytes that are no UTF-8 are not always
refused (`strayedBytes_decode`): the values in the dictionary of tags and the members of a record
that are no fields are passed over (`Part.answer`). Members, premise-conclusion structures and
references to entities are read in full, even where their members are no fields.
-/

namespace ArgdownLens.Wire

open Json

/-! ## Entities -/

/-- Of a member, all is read. -/
theorem walks_member (room : Nat) : Walks (member room) .whole := by
  have hfields (room : Nat) : ∀ f ∈ memberRecord.fields, Walks (f.read room) .whole :=
    List.forall_mem_cons.mpr ⟨(walks_string room).map _,
      List.forall_mem_singleton.mpr ((walks_boolean room).map _)⟩
  exact (walks_flattened hfields).map fun x => { x.1 with span := x.2 }

/-- Of a premise-conclusion structure, all is read. -/
theorem walks_reconstruction (room : Nat) : Walks (reconstruction room) .whole := by
  have hfields (room : Nat) : ∀ f ∈ reconstructionRecord.fields, Walks (f.read room) .whole :=
    List.forall_mem_singleton.mpr ((walks_wholeList walks_string room).map _)
  exact (walks_flattened hfields).map fun x => { x.1 with span := x.2 }

/-- An object with a sole name is read in full. -/
theorem strict_of_soleName {α : Type} {choices : List (String × α)}
    {ms : List (List Piece × Raw)} {e : Ending} {a : α} (h : soleName choices ms e = .ok a) :
    (Raw.object ms e).Unbroken ∧ Part.whole.Clean (.object ms e) := by
  -- All but one member with the value `null` and a closing bracket is a fault.
  cases ms with
  | nil =>
    cases e with
    | closed => cases h
    | stopped found => cases found <;> cases h
    | keyless afterComma found =>
      cases found with
      | none => cases h
      | some t =>
        obtain ⟨_, -, h⟩ := bind_eq_ok.mp h
        cases h
  | cons m more =>
    obtain ⟨key, v⟩ := m
    obtain ⟨name, hname, h⟩ := bind_eq_ok.mp h
    obtain ⟨choice, -, h⟩ := bind_eq_ok.mp h
    cases v with
    | null =>
      cases more with
      | cons m more => cases h
      | nil =>
        cases e with
        | closed => exact ⟨⟨rfl, trivial, trivial⟩, fun _ => notMem_stray hname, trivial, trivial⟩
        | stopped found => cases found <;> cases h
        | keyless afterComma found => cases h
    | _ =>
      obtain ⟨_, hrefuse, -⟩ := bind_eq_ok.mp h
      exact (refuse_ne_ok _ _ _ hrefuse).elim

/-- Of the type of a relation, all is read. -/
theorem walks_relationType (room : Nat) : Walks (relationType room) .whole := by
  apply walks_whole
  intro v a h
  cases v with
  | string pieces =>
    obtain ⟨_, hname, -⟩ := bind_eq_ok.mp h
    exact ⟨trivial, fun _ => notMem_stray hname⟩
  | object ms e =>
    obtain ⟨_, -, h⟩ := bind_eq_ok.mp h
    exact strict_of_soleName h
  | broken found =>
    cases found with
    | none => cases h
    | some t => cases t <;> cases h
  | _ => cases h

/-- Of the kind of an entity, all is read. -/
theorem walks_entityKind (room : Nat) : Walks (entityKind room) .whole := by
  apply walks_whole
  intro v a h
  obtain ⟨_, hname, -⟩ := bind_eq_ok.mp h
  exact (walks_stringAs variantName room).sound hname

/-- The members of an object that refers to an entity are read in full. -/
theorem strict_of_entityMembers {room : Nat}
    {kind : Option ((String → EntityRef) × String)}
    {result : Option ((String → EntityRef) × String) × List (String × Raw)}
    {ms : List (List Piece × Raw)} (h : entityMembers room kind ms = .ok result) :
    Raw.UnbrokenMembers ms ∧ Part.whole.CleanMembers ms := by
  induction ms generalizing kind result with
  | nil => exact ⟨trivial, trivial⟩
  | cons m ms ih =>
    obtain ⟨key, v⟩ := m
    obtain ⟨name, hkey, h⟩ := bind_eq_ok.mp h
    have hclear : Part.whole.Clear key := fun _ => notMem_stray hkey
    split_ifs at h
    · obtain ⟨_, hkind, h⟩ := bind_eq_ok.mp h
      obtain ⟨hu, hc⟩ := (walks_entityKind room).sound hkind
      exact ⟨⟨hu, (ih h).1⟩, hclear, hc, (ih h).2⟩
    · obtain ⟨_, hread, h⟩ := bind_eq_ok.mp h
      obtain ⟨_, hms, -⟩ := bind_eq_ok.mp h
      obtain ⟨hu, hc⟩ := strict_of_read room v hread
      exact ⟨⟨hu, (ih hms).1⟩, hclear, hc, (ih hms).2⟩

/-- Of a reference to an entity, all is read. -/
theorem walks_entityRef (room : Nat) : Walks (entityRef room) .whole := by
  apply walks_whole
  intro v a h
  cases v with
  | array vs e =>
    obtain ⟨inner, -, h⟩ := bind_eq_ok.mp h
    -- The first item is the kind, and whatever follows is read in full.
    cases vs with
    | nil =>
      obtain ⟨_, -, h⟩ := bind_eq_ok.mp h
      cases h
    | cons v vs =>
      obtain ⟨_, hkind, h⟩ := bind_eq_ok.mp h
      obtain ⟨_, hread, h⟩ := bind_eq_ok.mp h
      obtain ⟨_, he, -⟩ := bind_eq_ok.mp h
      obtain ⟨hu, hc⟩ := (walks_entityKind inner).sound hkind
      obtain ⟨hus, hcs⟩ := strict_of_readItems inner vs 1 hread
      exact ⟨⟨closed_of_check he, hu, hus⟩, hc, hcs⟩
  | object ms e =>
    obtain ⟨inner, -, h⟩ := bind_eq_ok.mp h
    obtain ⟨_, hms, h⟩ := bind_eq_ok.mp h
    obtain ⟨_, he, -⟩ := bind_eq_ok.mp h
    obtain ⟨hu, hc⟩ := strict_of_entityMembers hms
    exact ⟨⟨closed_of_check he, hu⟩, hc⟩
  | _ => exact (refuse_ne_ok _ _ a h).elim

/-! ## Records -/

namespace Part

/-- What is read of a span. -/
def span : Part :=
  .fields [("startLine", .whole), ("startColumn", .whole), ("endLine", .whole),
    ("endColumn", .whole)]

/-- What is read of a relation. -/
def relation : Part :=
  .fields [("type", .whole), ("from", .whole), ("to", .whole)]

/-- What is read of a class of statements. -/
def equivalenceClass : Part :=
  .fields [("title", .whole), ("members", .whole), ("relations", .each relation), ("tags", .whole)]

/-- What is read of an argument. -/
def argument : Part :=
  .fields [("title", .whole), ("descriptions", .whole), ("pcs", .whole),
    ("relations", .each relation), ("tags", .whole)]

/-- What is read of a parser error. -/
def parserError : Part :=
  .fields [("message", .whole), ("token", span)]

/-- What is read of an answer: nothing of the values in the dictionary of tags, and nothing of
members that are no fields. -/
def answer : Part :=
  .fields [("ast", .tree), ("statements", .each equivalenceClass), ("arguments", .each argument),
    ("tagsDictionary", .each .nothing), ("parserErrors", .each parserError)]

end Part

/-- Of a span, the fields are read. -/
theorem walks_span (room : Nat) : Walks (span room) Part.span := by
  refine Record.walks_fields (fun room => ?_) room
  have hcoordinate := walks_coordinate room
  exact ⟨rfl, hcoordinate.map _, rfl, hcoordinate.map _, rfl, hcoordinate.map _, rfl,
    hcoordinate.map _, trivial⟩

/-- Of a relation, the fields are read. -/
theorem walks_relation (room : Nat) : Walks (relation room) Part.relation := by
  refine Record.walks_fields (fun room => ?_) room
  exact ⟨rfl, (walks_relationType room).map _, rfl, (walks_entityRef room).map _, rfl,
    (walks_entityRef room).map _, trivial⟩

/-- Of a class of statements, the fields are read. -/
theorem walks_equivalenceClass (room : Nat) :
    Walks (equivalenceClass room) Part.equivalenceClass := by
  refine Record.walks_fields (fun room => ?_) room
  exact ⟨rfl, (walks_string room).map _, rfl, (walks_wholeList walks_member room).map _, rfl,
    (walks_listEach walks_relation room).map _, rfl, (walks_wholeList walks_string room).map _,
    trivial⟩

/-- Of an argument, the fields are read. -/
theorem walks_argument (room : Nat) : Walks (argument room) Part.argument := by
  refine Record.walks_fields (fun room => ?_) room
  exact ⟨rfl, (walks_string room).map _, rfl, (walks_wholeList walks_member room).map _, rfl,
    (walks_optional (walks_reconstruction room)).map _, rfl,
    (walks_listEach walks_relation room).map _, rfl, (walks_wholeList walks_string room).map _,
    trivial⟩

/-- Of a parser error, the fields are read. -/
theorem walks_parserError (room : Nat) :
    Walks (parserErrorRecord.decoder room) Part.parserError := by
  refine Record.walks_fields (fun room => ?_) room
  exact ⟨rfl, (walks_string room).map _, rfl, (walks_span room).map _, trivial⟩

/-! ## Trees -/

/-- Of a record of one text, the text is read. -/
theorem walks_soleText (title field : String) (room : Nat) :
    Walks (soleText title field room) (.fields [(field, .whole)]) := by
  refine Record.walks_fields (fun room => ?_) room
  exact ⟨rfl, (walks_string room).map _, trivial⟩

/-- Of a node, the fields are read, given that nodes are read of its children. -/
theorem walks_nodeRecord {children : Decoder (List LooseNode)}
    (h : ∀ room, Walks (children room) (.each .tree)) (room : Nat) :
    Walks ((nodeRecord children).decoder room) .tree := by
  have htree : Part.tree ≠ .nothing := by simp
  refine Record.walks_decoder (fun room => ?_) room
  have hcoordinate := walks_coordinate room
  have htext := walks_optional (walks_string room)
  have hsole (title field : String) := walks_optional (walks_soleText title field room)
  have hfields : Record.WalkedBy room (nodeRecord children).fields Part.nodeFields :=
    ⟨rfl, (hsole _ _).map _, rfl, htext.map _, rfl, hcoordinate.map _, rfl, hcoordinate.map _, rfl,
      hcoordinate.map _, rfl, hcoordinate.map _, rfl, htext.map _, rfl, htext.map _, rfl,
      htext.map _, rfl, htext.map _, rfl, (hsole _ _).map _, rfl, (hsole _ _).map _, rfl,
      (hsole _ _).map _, rfl, (h room).map _, trivial⟩
  exact Record.laid_of_walkedBy hfields htree (fun _ => rfl) fun _ => rfl

/-- Of a tree, nodes are read at all depths. -/
theorem walks_node (room : Nat) : Walks (node room) .tree := by
  match room with
  | 0 | 1 =>
    exact walks_nodeRecord (walks_listEach fun _ => walks_error .malformed .tree) _
  | room + 2 =>
    -- A node is a bracket, and the list of its children is another one.
    exact walks_nodeRecord (walks_listEach fun _ => walks_node room) (room + 2)

/-! ## Answers -/

/-- Of an answer, the fields are read. -/
theorem walks_responseRecord (room : Nat) : Walks (responseRecord.decoder room) Part.answer := by
  refine Record.walks_fields (fun room => ?_) room
  exact ⟨rfl, (walks_node room).map _, rfl, (walks_map walks_equivalenceClass room).map _, rfl,
    (walks_map walks_argument room).map _, rfl,
    (walks_optional (walks_map walks_ignored room)).map _, rfl,
    (walks_listEach walks_parserError room).map _, trivial⟩

/-- Symbols are decoded if they are read and the tree that is read can be closed. -/
theorem decodeSymbols_eq_ok {text : List Symbol} {r : Response} :
    decodeSymbols text = .ok r ↔
      ∃ loose, readWhole (responseRecord.decoder maxDepth) text = .ok loose ∧
        loose.close = .ok r := by
  unfold decodeSymbols
  cases readWhole (responseRecord.decoder maxDepth) text with
  | error fault => simp
  | ok loose => simp

/-- The bytes of a text are decoded like the text. Any bytes are decoded to an answer exactly if the
text with U+FFFD for each broken stretch is decoded to it and no broken stretch stands in a string
that is read. -/
theorem decodeBytes_eq_ok_iff (text : String) (bytes : List UInt8) (r : Response) :
    decodeBytes (Utf8.encode text) = decode text ∧
      (decodeBytes bytes = .ok r ↔
        decode (Utf8.decodeLossy bytes) = .ok r ∧
          Part.answer.Clean (Raw.ofSymbols (Utf8.symbols bytes)).1) := by
  constructor
  · rw [decodeBytes, Utf8.symbols_encode]
    rfl
  · rw [decodeBytes, decode, symbolsOf_decodeLossy, decodeSymbols_eq_ok, decodeSymbols_eq_ok,
      ← exists_and_right]
    refine exists_congr fun loose => ?_
    rw [(walks_responseRecord maxDepth).readWhole_eq_ok_iff, and_right_comm]

/-- An answer whose dictionary of tags says something about a tag in a string with a stray byte. -/
def strayedBytes : List UInt8 :=
  Utf8.encode "\x7b\"ast\":\x7b\"name\":\"a\"\x7d,\"tagsDictionary\":\x7b\"t\":\"" ++ [0xFF] ++
    Utf8.encode "\"\x7d\x7d"

/-- Not all bytes that spell no text are refused. -/
theorem strayedBytes_decode :
    ¬ ∀ bytes, (∀ text, Utf8.encode text ≠ bytes) → ∃ e, decodeBytes bytes = .error e := by
  intro h
  have hbroken : Symbol.broken 1 ∈ Utf8.symbols strayedBytes := by decide +kernel
  have hok : (decodeBytes strayedBytes).toBool := by decide +kernel
  obtain ⟨e, he⟩ := h strayedBytes (Utf8.encode_ne hbroken)
  rw [he] at hok
  cases hok

end ArgdownLens.Wire
