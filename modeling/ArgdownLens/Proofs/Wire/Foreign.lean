import ArgdownLens.Proofs.Wire.Core
import ArgdownLens.Proofs.Wire.RoundTrip

/-!
# Answers with more in them than is read

The engine sends more than is read of it. A value grows (`Part.Grown`) when a member that is no
field is put into a record, at any place and with any value, or when a value that is not looked at
is replaced. What has grown has the core that it had (`Part.Grown.core_eq`), so no decoder can tell
the difference, however the text spells it (`decode_grown`).
-/

namespace ArgdownLens.Wire

open Json

namespace Part

/-- A value grows where nothing of it is read. -/
inductive Grown : Part → Raw → Raw → Prop where
  | refl (p : Part) (v : Raw) : Grown p v v
  | trans {p : Part} {u v w : Raw} (huv : Grown p u v) (hvw : Grown p v w) : Grown p u w
  /-- A value that is not looked at is replaced. -/
  | replaced (v : Raw) {w : Raw} (hw : w.Unbroken) : Grown .nothing v w
  /-- A member that is no field is inserted between two others, or before or behind them all. -/
  | inserted {p : Part} (before after : List (List Piece × Raw)) {key : List Piece} {w : Raw}
    (hkey : p.foreign key) (hw : w.Unbroken) :
    Grown p (.object (before ++ after) .closed) (.object (before ++ (key, w) :: after) .closed)
  /-- The value of a member grows. -/
  | member {p : Part} (before after : List (List Piece × Raw)) (key : List Piece) {v w : Raw}
    (h : Grown (p.member key) v w) :
    Grown p (.object (before ++ (key, v) :: after) .closed)
      (.object (before ++ (key, w) :: after) .closed)
  /-- An item of an array grows. -/
  | item {p : Part} (before after : List Raw) {v w : Raw}
    (h : Grown (p.item before.length) v w) :
    Grown p (.array (before ++ v :: after) .closed) (.array (before ++ w :: after) .closed)

/-- The core of some members is that of the first ones and that of the others. -/
theorem coreMembers_append (p : Part) (before after : List (List Piece × Raw)) :
    p.coreMembers (before ++ after) = p.coreMembers before ++ p.coreMembers after := by
  induction before with
  | nil => rfl
  | cons m before ih =>
    obtain ⟨key, v⟩ := m
    rw [List.cons_append, coreMembers, coreMembers, ih]
    split_ifs <;> rfl

/-- The core of some items is that of the first ones and that of the others. -/
theorem coreItems_append (p : Part) (i : Nat) (before after : List Raw) :
    p.coreItems i (before ++ after) =
      p.coreItems i before ++ p.coreItems (i + before.length) after := by
  induction before generalizing i with
  | nil => rfl
  | cons v before ih =>
    rw [List.cons_append, coreItems, coreItems, ih, List.length_cons, Nat.add_right_comm,
      Nat.add_assoc]
    rfl

/-- What has grown is unbroken if it was, and has the same core. -/
theorem Grown.core_eq {p : Part} {v w : Raw} (h : p.Grown v w) (hv : v.Unbroken) :
    w.Unbroken ∧ p.core w = p.core v := by
  -- Growth happens in parts that the core leaves out, or within what the core is made of.
  induction h with
  | refl => exact ⟨hv, rfl⟩
  | trans _ _ ih ih' =>
    obtain ⟨hu, hcore⟩ := ih hv
    obtain ⟨hw, hcore'⟩ := ih' hu
    exact ⟨hw, hcore'.trans hcore⟩
  | replaced v hw => exact ⟨hw, by rw [core_nothing, core_nothing]⟩
  | inserted before after hkey hw =>
    have hms := unbrokenMembers_iff.mp hv.2
    rw [List.forall_mem_append] at hms
    refine ⟨⟨rfl, unbrokenMembers_iff.mpr ?_⟩, ?_⟩
    · rw [List.forall_mem_append, List.forall_mem_cons]
      exact ⟨hms.1, hw, hms.2⟩
    · rw [core, core, coreMembers_append, coreMembers_append, coreMembers, if_pos hkey]
  | member before after key h ih =>
    have hms := unbrokenMembers_iff.mp hv.2
    rw [List.forall_mem_append, List.forall_mem_cons] at hms
    obtain ⟨hw, hcore⟩ := ih hms.2.1
    refine ⟨⟨rfl, unbrokenMembers_iff.mpr ?_⟩, ?_⟩
    · rw [List.forall_mem_append, List.forall_mem_cons]
      exact ⟨hms.1, hw, hms.2.2⟩
    · rw [core, core, coreMembers_append, coreMembers_append, coreMembers, coreMembers, hcore]
  | item before after h ih =>
    have hvs := unbrokenItems_iff.mp hv.2
    rw [List.forall_mem_append, List.forall_mem_cons] at hvs
    obtain ⟨hw, hcore⟩ := ih hvs.2.1
    refine ⟨⟨rfl, unbrokenItems_iff.mpr ?_⟩, ?_⟩
    · rw [List.forall_mem_append, List.forall_mem_cons]
      exact ⟨hvs.1, hw, hvs.2.2⟩
    · rw [core, core, coreItems_append, coreItems_append, coreItems, coreItems, Nat.zero_add, hcore]

end Part

/-- The tree of a sent answer is unbroken. -/
theorem unbroken_ofResponse (r : Response) : (ofResponse r).raw.Unbroken := by
  have hnull : Value.null.raw.Unbroken := trivial
  have htags : ∀ v, (r.tags.map (ofMap fun _ => .null)) = some v → v.raw.Unbroken := by
    intro v hv
    obtain ⟨tags, -, rfl⟩ := Option.map_eq_some_iff.mp hv
    exact unbroken_ofMap (fun _ => hnull) tags
  apply unbroken_objectOf
  simpa [unbroken_toJson, unbroken_ofMap unbroken_ofEquivalenceClass,
    unbroken_ofMap unbroken_ofArgument, unbroken_map unbroken_ofParserError] using htags

/-- An answer that can be sent is decoded from every text that spells what has grown from its tree,
just as it is decoded from the text that was sent, if the tree of its nodes has at most 63 levels.
-/
theorem decode_grown (r : Response) (h : r.Expressible) (hlevels : r.ast.levels ≤ 63) {w : Raw}
    (hgrown : Part.answer.Grown (ofResponse r).raw w) {text : String}
    (htext : Spells w.tokens text.toList) :
    Spells (ofResponse r).raw.tokens (encode r).toList ∧ decode text = decode (encode r) ∧
      decode (encode r) = .ok r := by
  have hsent := unbroken_ofResponse r
  have hspelled := Value.spells_text hsent
  obtain ⟨hw, hcore⟩ := hgrown.core_eq hsent
  have hround := decode_encode r h
  rw [if_pos hlevels] at hround
  exact ⟨hspelled, decode_eq_of_core_eq hw hsent hcore htext hspelled, hround⟩

/-- An answer with one node and one tag. -/
def taggedResponse : Response where
  ast := ⟨.rule "a", default, []⟩
  tags := some (.ofNames ["t"])

/-- A value that is neither in range nor text. -/
def oddRaw : Raw :=
  .array [.number ⟨false, [1], [], some ⟨false, [9, 9, 9]⟩⟩, .string [.unit 0xD800]] .closed

/-- The members of the answer, with one more in its node and something said about its tag. -/
def grownMembers : List (String × Value) :=
  [("ast", .object [("name", .string "a"), ("odd", .array [.bool true]), ("startLine", ofNat 0),
      ("startColumn", ofNat 0), ("endLine", ofNat 0), ("endColumn", ofNat 0),
      ("children", .array [])]),
    ("statements", .object []), ("arguments", .object []),
    ("tagsDictionary", .object [("t", .object [("color", .string "red")])]),
    ("parserErrors", .array [])]

/-- The tree of these members behind one with the odd value. -/
def grownRaw : Raw :=
  .object ((escapePieces "odd", oddRaw) :: Value.rawMembers grownMembers) .closed

/-- A text of this tree. -/
def grownText : String :=
  String.ofList ('\x7b' :: ' ' :: (writeString "odd" ++ ':' :: '[' ::
    (['1', 'E', '+', '9', '9', '9'] ++ ',' :: (['"', '\\', 'u', 'D', '8', '0', '0', '"'] ++
      ']' :: ' ' :: Value.writeMembers grownMembers))))

/-- The tree has grown in three places. -/
theorem grown_grownRaw : Part.answer.Grown (ofResponse taggedResponse).raw grownRaw := by
  have hodd : Part.answer.foreign (escapePieces "odd") := by decide
  have hnode : (Part.answer.member (escapePieces "ast")).foreign (escapePieces "odd") := by decide
  have hnumber : oddRaw.Unbroken := ⟨rfl, trivial, trivial, trivial⟩
  have htrue : (Value.array [.bool true]).raw.Unbroken := ⟨rfl, trivial, trivial⟩
  have hred : (Value.object [("color", .string "red")]).raw.Unbroken := ⟨rfl, trivial, trivial⟩
  refine (Part.Grown.inserted [] _ hodd hnumber).trans ?_
  refine (Part.Grown.member [_] _ (escapePieces "ast") (.inserted [_] _ hnode htrue)).trans ?_
  exact .member [_, _, _, _] [_] (escapePieces "tagsDictionary")
    (.member [] [] (escapePieces "t") (.replaced _ hred))

/-- The text spells the tree. -/
theorem spells_grownText : Spells grownRaw.tokens grownText.toList := by
  have hmembers : Raw.UnbrokenMembers (Value.rawMembers grownMembers) := by
    simp [grownMembers, Value.rawMembers, Value.raw, Value.rawItems, ofNat, Raw.Unbroken,
      Raw.UnbrokenMembers, Raw.UnbrokenItems]
  have hrest := Value.spells_writeMembers grownMembers hmembers .nil
  rw [List.append_nil, List.append_nil] at hrest
  have hone : digit? '1' = some 1 := rfl
  have hnine : digit? '9' = some 9 := rfl
  have hsign : (false, ['+']) ∈ [(true, ['-']), (false, ['+']), (false, [])] := by decide
  have hnumber : Literal.Written ⟨false, [1], [], some ⟨false, [9, 9, 9]⟩⟩
      ['1', 'E', '+', '9', '9', '9'] :=
    .intro (.cons hone .nil) (fun hzero => absurd hzero Nat.one_ne_zero) .none
      (.marked (.inr rfl) hsign (.cons hnine (.cons hnine (.cons hnine .nil))))
  have hthirteen : hexDigit? 'D' = some 13 := rfl
  have height : hexDigit? '8' = some 8 := rfl
  have hzero : hexDigit? '0' = some 0 := rfl
  have hstring : (Token.string [.unit 0xD800]).Written
      ['"', '\\', 'u', 'D', '8', '0', '0', '"'] :=
    .string (.cons (.unit hthirteen height hzero hzero) .nil)
  -- Token by token, up to the members that have not changed.
  rw [grownText, String.toList_ofList]
  exact .sign .openObject (.space rfl (.key "odd" (.sign .openArray (.token (.number hnumber)
    (.sign .comma (.token hstring (.sign .closeArray (.space rfl hrest))))))))

/-- The answer is decoded from the text. -/
theorem grownText_decode :
    taggedResponse.Expressible ∧ taggedResponse.ast.levels ≤ 63 ∧
      Part.answer.Grown (ofResponse taggedResponse).raw grownRaw ∧
      Spells grownRaw.tokens grownText.toList ∧ decode grownText = .ok taggedResponse := by
  have h : taggedResponse.Expressible :=
    ⟨by decide, by decide, by decide, by decide, by decide, by decide⟩
  have hlevels : taggedResponse.ast.levels ≤ 63 := by decide
  obtain ⟨-, hdecode, hround⟩ :=
    decode_grown taggedResponse h hlevels grown_grownRaw spells_grownText
  exact ⟨h, hlevels, grown_grownRaw, spells_grownText, hdecode.trans hround⟩

end ArgdownLens.Wire
