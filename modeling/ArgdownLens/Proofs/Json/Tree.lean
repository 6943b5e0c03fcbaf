import ArgdownLens.Proofs.Json.Numeral
import ArgdownLens.Proofs.Json.Spelling

/-!
# Trees that are read back from their tokens

A tree in which no bracket is left open and no value is missing (`Raw.Unbroken`) has its tokens
(`Raw.tokens`), from which it is read back (`Raw.ofTokens_tokens`) and which can be passed over
(`Raw.skip_of_unbroken`). The induction follows the tree, with a value in front of what comes behind
it. A value has the tree of its text (`Value.raw`).
-/

namespace ArgdownLens.Json

/-! ## The tokens of a tree -/

mutual

/-- Every bracket in the tree is closed, and every value is there. -/
def Raw.Unbroken : Raw → Prop
  | .null | .bool _ | .number _ | .string _ => True
  | .array items ending => ending = .closed ∧ Raw.UnbrokenItems items
  | .object members ending => ending = .closed ∧ Raw.UnbrokenMembers members
  | .broken _ => False

/-- The items of an array are unbroken. -/
def Raw.UnbrokenItems : List Raw → Prop
  | [] => True
  | v :: vs => v.Unbroken ∧ Raw.UnbrokenItems vs

/-- The members of an object are unbroken. -/
def Raw.UnbrokenMembers : List (List Piece × Raw) → Prop
  | [] => True
  | (_, v) :: ms => v.Unbroken ∧ Raw.UnbrokenMembers ms

end

mutual

/-- The tokens of an unbroken tree. -/
def Raw.tokens : Raw → List Token
  | .null => [.null]
  | .bool b => [.bool b]
  | .number l => [.number l]
  | .string pieces => [.string pieces]
  | .array [] _ => [.openArray, .closeArray]
  | .array (v :: vs) _ => .openArray :: v.tokens ++ Raw.itemTokens vs
  | .object [] _ => [.openObject, .closeObject]
  | .object ((key, v) :: ms) _ =>
    .openObject :: .string key :: .colon :: v.tokens ++ Raw.memberTokens ms
  | .broken _ => []

/-- The tokens of the items behind the first one, up to the closing bracket. -/
def Raw.itemTokens : List Raw → List Token
  | [] => [.closeArray]
  | v :: vs => .comma :: v.tokens ++ Raw.itemTokens vs

/-- The tokens of the members behind the first one, up to the closing bracket. -/
def Raw.memberTokens : List (List Piece × Raw) → List Token
  | [] => [.closeObject]
  | (key, v) :: ms => .comma :: .string key :: .colon :: v.tokens ++ Raw.memberTokens ms

end

namespace Raw

/-- The first item of an array begins like a value inside of it. -/
theorem foldl_step_arrayStart {v : Raw} (h : v.Unbroken) (stack : List Frame) :
    v.tokens.foldl Reader.step (.reading stack .arrayStart) =
      v.tokens.foldl Reader.step (.reading (.item [] :: stack) .value) := by
  match v, h with
  | .null, _ | .bool _, _ | .number _, _ | .string _, _ => rfl
  | .array [] _, _ | .array (_ :: _) _, _ => rfl
  | .object [] _, _ | .object ((_, _) :: _) _, _ => rfl

mutual

/-- The tokens of a tree are read as the tree where a value must stand. -/
theorem foldl_step_tokens (v : Raw) (h : v.Unbroken) (stack : List Frame) :
    v.tokens.foldl Reader.step (.reading stack .value) = complete stack v := by
  match v, h with
  | .null, _ | .bool _, _ | .number _, _ | .string _, _ => rfl
  | .array [] _, ⟨rfl, _⟩ => rfl
  | .array (v :: vs) _, ⟨rfl, hv, hvs⟩ =>
    -- The first item stands where the bracket could close, and the others stand behind commas.
    have hopen : Reader.step (.reading stack .value) .openArray = .reading stack .arrayStart := rfl
    rw [Raw.tokens, List.cons_append, List.foldl_cons, hopen, List.foldl_append,
      foldl_step_arrayStart hv, foldl_step_tokens v hv, complete,
      foldl_step_itemTokens vs hvs stack [v]]
    rfl
  | .object [] _, ⟨rfl, _⟩ => rfl
  | .object ((key, v) :: ms) _, ⟨rfl, hv, hms⟩ =>
    have hopen : [Token.openObject, .string key, .colon].foldl Reader.step (.reading stack .value) =
        .reading (.member [] key :: stack) .value := rfl
    have htokens : (Raw.object ((key, v) :: ms) .closed).tokens =
        [.openObject, .string key, .colon] ++ (v.tokens ++ memberTokens ms) := rfl
    rw [htokens, List.foldl_append, hopen, List.foldl_append, foldl_step_tokens v hv, complete,
      foldl_step_memberTokens ms hms stack [(key, v)]]
    rfl

/-- The tokens of the further items are read as the items behind those in front of them. -/
theorem foldl_step_itemTokens (vs : List Raw) (h : UnbrokenItems vs) (stack : List Frame)
    (before : List Raw) :
    (itemTokens vs).foldl Reader.step (.reading stack (.afterItem before)) =
      complete stack (.array (before.reverse ++ vs) .closed) := by
  match vs, h with
  | [], _ =>
    rw [List.append_nil]
    rfl
  | v :: vs, ⟨hv, hvs⟩ =>
    have hcomma : Reader.step (.reading stack (.afterItem before)) .comma =
        .reading (.item before :: stack) .value := rfl
    rw [itemTokens, List.cons_append, List.foldl_cons, hcomma, List.foldl_append,
      foldl_step_tokens v hv, complete, foldl_step_itemTokens vs hvs stack (v :: before),
      List.reverse_cons, List.append_assoc, List.singleton_append]

/-- The tokens of the further members are read as the members behind those in front of them. -/
theorem foldl_step_memberTokens (ms : List (List Piece × Raw)) (h : UnbrokenMembers ms)
    (stack : List Frame) (before : List (List Piece × Raw)) :
    (memberTokens ms).foldl Reader.step (.reading stack (.afterMember before)) =
      complete stack (.object (before.reverse ++ ms) .closed) := by
  match ms, h with
  | [], _ =>
    rw [List.append_nil]
    rfl
  | (key, v) :: ms, ⟨hv, hms⟩ =>
    have hcomma : [Token.comma, .string key, .colon].foldl Reader.step
        (.reading stack (.afterMember before)) =
          .reading (.member before key :: stack) .value := rfl
    have htokens : memberTokens ((key, v) :: ms) =
        [.comma, .string key, .colon] ++ (v.tokens ++ memberTokens ms) := rfl
    rw [htokens, List.foldl_append, hcomma, List.foldl_append, foldl_step_tokens v hv, complete,
      foldl_step_memberTokens ms hms stack ((key, v) :: before), List.reverse_cons,
      List.append_assoc, List.singleton_append]

end

mutual

/-- An unbroken tree can be passed over. -/
theorem skip_of_unbroken (v : Raw) (h : v.Unbroken) : v.skip = .ok () := by
  match v, h with
  | .null, _ | .bool _, _ | .number _, _ | .string _, _ => rfl
  | .array vs _, ⟨rfl, hvs⟩ =>
    rw [Raw.skip, skipItems_of_unbroken vs hvs]
    rfl
  | .object ms _, ⟨rfl, hms⟩ =>
    rw [Raw.skip, skipMembers_of_unbroken ms hms]
    rfl

/-- Unbroken items can be passed over. -/
theorem skipItems_of_unbroken (vs : List Raw) (h : UnbrokenItems vs) : skipItems vs = .ok () := by
  match vs, h with
  | [], _ => rfl
  | v :: vs, ⟨hv, hvs⟩ =>
    rw [skipItems, skip_of_unbroken v hv]
    exact skipItems_of_unbroken vs hvs

/-- Unbroken members can be passed over. -/
theorem skipMembers_of_unbroken (ms : List (List Piece × Raw)) (h : UnbrokenMembers ms) :
    skipMembers ms = .ok () := by
  match ms, h with
  | [], _ => rfl
  | (_, v) :: ms, ⟨hv, hms⟩ =>
    rw [skipMembers, skip_of_unbroken v hv]
    exact skipMembers_of_unbroken ms hms

end

/-- A tree is read back from its tokens, and nothing stands behind it. -/
theorem ofTokens_tokens {v : Raw} (h : v.Unbroken) : ofTokens v.tokens = (v, false) := by
  rw [ofTokens, foldl_step_tokens v h]
  rfl

end Raw

/-! ## The text of a value -/

mutual

/-- The tree of the text of a value. Numbers that are not natural are left out of it. -/
def Value.raw : Value → Raw
  | .null => .null
  | .bool b => .bool b
  | .number (.natural n) => .number (.ofNat n)
  | .number _ => .broken none
  | .string s => .string (escapePieces s)
  | .array vs => .array (Value.rawItems vs) .closed
  | .object ms => .object (Value.rawMembers ms) .closed

/-- The trees of some items. -/
def Value.rawItems : List Value → List Raw
  | [] => []
  | v :: vs => v.raw :: Value.rawItems vs

/-- The trees of some members. -/
def Value.rawMembers : List (String × Value) → List (List Piece × Raw)
  | [] => []
  | (key, v) :: ms => (escapePieces key, v.raw) :: Value.rawMembers ms

end

namespace Value

/-- The tree of an array is unbroken if those of its items are. -/
theorem unbroken_array {vs : List Value} (h : ∀ v ∈ vs, v.raw.Unbroken) :
    (Value.array vs).raw.Unbroken := by
  refine ⟨rfl, ?_⟩
  induction vs with
  | nil => trivial
  | cons v vs ih =>
    exact ⟨h v List.mem_cons_self, ih fun w hw => h w (List.mem_cons_of_mem v hw)⟩

/-- The tree of an object is unbroken if those of its members are. -/
theorem unbroken_object {ms : List (String × Value)} (h : ∀ m ∈ ms, m.2.raw.Unbroken) :
    (Value.object ms).raw.Unbroken := by
  refine ⟨rfl, ?_⟩
  induction ms with
  | nil => trivial
  | cons m ms ih =>
    exact ⟨h m List.mem_cons_self, ih fun m' hm' => h m' (List.mem_cons_of_mem m hm')⟩

end Value

end ArgdownLens.Json
