import ArgdownLens.Proofs.Json.Grammar

/-!
# Written values

A value can be written on one line and read back if its numbers are natural and fit into 64 bits and
its brackets fit into the room of the reader (`Value.Fits`). Its text has no control characters
(`Value.le_of_mem_text`), and it is the value that a strict reader finds in its text
(`Value.parse_text`). The three inductions follow the value.
-/

namespace ArgdownLens.Json

mutual

/-- All numbers of the value are natural and fit into 64 bits, and no more than `room` brackets are
open at once. -/
def Value.Fits (room : Nat) : Value → Prop
  | .null | .bool _ | .string _ => True
  | .number (.natural n) => n ≤ maxSignificand
  | .number _ => False
  | .array vs => 0 < room ∧ Value.FitsItems (room - 1) vs
  | .object ms => 0 < room ∧ Value.FitsMembers (room - 1) ms

/-- The items of an array fit. -/
def Value.FitsItems (room : Nat) : List Value → Prop
  | [] => True
  | v :: vs => v.Fits room ∧ Value.FitsItems room vs

/-- The members of an object fit. -/
def Value.FitsMembers (room : Nat) : List (String × Value) → Prop
  | [] => True
  | (_, v) :: ms => v.Fits room ∧ Value.FitsMembers room ms

end

/-! ## Characters -/

/-- A text of given characters holds no control character if none of them is one. -/
theorem le_of_all {cs : List Char} (h : (cs.all fun c => decide (' ' ≤ c)) = true) :
    ∀ c ∈ cs, ' ' ≤ c :=
  fun c hc => of_decide_eq_true (List.all_eq_true.mp h c hc)

/-- A digit of a written escape is no control character. -/
theorem le_digitChar {d : Nat} (h : d < 16) : ' ' ≤ Nat.digitChar d := by
  have hall : ∀ d < 16, ' ' ≤ Nat.digitChar d := by decide
  exact hall d h

/-- A character is written without control characters. -/
theorem le_of_mem_escapeChar {c d : Char} (h : d ∈ escapeChar c) : ' ' ≤ d := by
  unfold escapeChar at h
  split at h
  case h_8 =>
    split_ifs at h with hcontrol
    · -- A control character is spelled out in hexadecimal digits.
      have hlt : c.toNat < 32 := hcontrol
      simp only [List.mem_cons, List.not_mem_nil, or_false] at h
      rcases h with rfl | rfl | rfl | rfl | rfl | rfl
      · decide
      · decide
      · decide
      · decide
      · exact le_digitChar (by omega)
      · exact le_digitChar (by omega)
    · rw [List.mem_singleton.mp h]
      exact Char.not_lt.mp hcontrol
  all_goals
    simp only [List.mem_cons, List.not_mem_nil, or_false] at h
    rcases h with rfl | rfl <;> decide

/-- A string is written without control characters. -/
theorem le_of_mem_writeString {s : String} {c : Char} (h : c ∈ writeString s) : ' ' ≤ c := by
  simp only [writeString, List.cons_append, List.mem_cons, List.mem_append, List.mem_flatMap,
    List.not_mem_nil, or_false] at h
  rcases h with rfl | ⟨d, -, h⟩ | rfl
  · decide
  · exact le_of_mem_escapeChar h
  · decide

namespace Value

mutual

/-- A value that fits is written without control characters. -/
theorem le_of_mem_write {room : Nat} (v : Value) (h : v.Fits room) : ∀ c ∈ v.write, ' ' ≤ c := by
  match v, h with
  | .null, _ | .bool true, _ | .bool false, _ => exact le_of_all (by decide)
  | .number (.natural n), _ =>
    intro c hc
    -- A number that fits has no sign and no fraction.
    have hdigit : c.isDigit = true := by
      rw [Value.write, Number.text, String.toList_ofList] at hc
      exact Nat.isDigit_of_mem_toDigits (by decide) (by decide) hc
    unfold Char.isDigit at hdigit
    simp only [ge_iff_le, Bool.and_eq_true, decide_eq_true_eq] at hdigit
    exact Char.le_trans (by decide) hdigit.1
  | .string s, _ => exact fun c hc => le_of_mem_writeString hc
  | .array [], _ => exact le_of_all (by decide)
  | .array (v :: vs), ⟨_, hv, hvs⟩ =>
    intro c hc
    simp only [Value.write, List.cons_append, List.mem_cons, List.mem_append] at hc
    rcases hc with rfl | hc | hc
    · decide
    · exact le_of_mem_write v hv c hc
    · exact le_of_mem_writeItems vs hvs c hc
  | .object [], _ => exact le_of_all (by decide)
  | .object ((key, v) :: ms), ⟨_, hv, hms⟩ =>
    intro c hc
    simp only [Value.write, List.cons_append, List.append_assoc, List.mem_cons,
      List.mem_append] at hc
    rcases hc with rfl | hc | rfl | hc | hc
    · decide
    · exact le_of_mem_writeString hc
    · decide
    · exact le_of_mem_write v hv c hc
    · exact le_of_mem_writeMembers ms hms c hc

/-- Further items that fit are written without control characters. -/
theorem le_of_mem_writeItems {room : Nat} (vs : List Value) (h : FitsItems room vs) :
    ∀ c ∈ writeItems vs, ' ' ≤ c := by
  match vs, h with
  | [], _ => exact le_of_all (by decide)
  | v :: vs, ⟨hv, hvs⟩ =>
    intro c hc
    simp only [writeItems, List.cons_append, List.mem_cons, List.mem_append] at hc
    rcases hc with rfl | hc | hc
    · decide
    · exact le_of_mem_write v hv c hc
    · exact le_of_mem_writeItems vs hvs c hc

/-- Further members that fit are written without control characters. -/
theorem le_of_mem_writeMembers {room : Nat} (ms : List (String × Value))
    (h : FitsMembers room ms) : ∀ c ∈ writeMembers ms, ' ' ≤ c := by
  match ms, h with
  | [], _ => exact le_of_all (by decide)
  | (key, v) :: ms, ⟨hv, hms⟩ =>
    intro c hc
    simp only [writeMembers, List.cons_append, List.append_assoc, List.mem_cons,
      List.mem_append] at hc
    rcases hc with rfl | hc | rfl | hc | hc
    · decide
    · exact le_of_mem_writeString hc
    · decide
    · exact le_of_mem_write v hv c hc
    · exact le_of_mem_writeMembers ms hms c hc

end

/-- The text of a value that fits has no control characters. -/
theorem le_of_mem_text {room : Nat} {v : Value} (h : v.Fits room) :
    ∀ c ∈ v.text.toList, ' ' ≤ c := by
  unfold text
  rw [String.toList_ofList]
  exact le_of_mem_write v h

/-! ## Reading back -/

/-- Where there is room a bracket may be opened. -/
theorem openBracket_of_pos {room : Nat} (h : 0 < room) : openBracket room = .ok (room - 1) := by
  cases room with
  | zero => cases h
  | succ room => rfl

mutual

/-- The tree of a value that fits is unbroken. -/
theorem unbroken_of_fits {room : Nat} (v : Value) (h : v.Fits room) : v.raw.Unbroken := by
  match v, h with
  | .null, _ | .bool _, _ | .string _, _ => trivial
  | .number (.natural _), _ => trivial
  | .array vs, ⟨_, hvs⟩ => exact ⟨rfl, unbrokenItems_of_fits vs hvs⟩
  | .object ms, ⟨_, hms⟩ => exact ⟨rfl, unbrokenMembers_of_fits ms hms⟩

/-- The trees of items that fit are unbroken. -/
theorem unbrokenItems_of_fits {room : Nat} (vs : List Value) (h : FitsItems room vs) :
    Raw.UnbrokenItems (rawItems vs) := by
  match vs, h with
  | [], _ => trivial
  | v :: vs, ⟨hv, hvs⟩ => exact ⟨unbroken_of_fits v hv, unbrokenItems_of_fits vs hvs⟩

/-- The trees of members that fit are unbroken. -/
theorem unbrokenMembers_of_fits {room : Nat} (ms : List (String × Value))
    (h : FitsMembers room ms) : Raw.UnbrokenMembers (rawMembers ms) := by
  match ms, h with
  | [], _ => trivial
  | (_, v) :: ms, ⟨hv, hms⟩ => exact ⟨unbroken_of_fits v hv, unbrokenMembers_of_fits ms hms⟩

end

mutual

/-- The tree of a value that fits is read as the value. -/
theorem read_raw {room : Nat} (v : Value) (h : v.Fits room) : v.raw.read room = .ok v := by
  match v, h with
  | .null, _ | .bool _, _ => rfl
  | .string s, _ =>
    rw [Value.raw, Raw.read, textOf_escapePieces]
    rfl
  | .number (.natural n), hn =>
    rw [Value.raw, Raw.read, value_ofNat hn]
    rfl
  | .array vs, ⟨hroom, hvs⟩ =>
    -- A bracket is opened, and the items have the room that is left.
    rw [Value.raw, Raw.read, openBracket_of_pos hroom]
    change (do
      let values ← Raw.readItems (room - 1) (rawItems vs)
      Ending.closed.check
      return Value.array values) = _
    rw [readItems_raw vs hvs]
    rfl
  | .object ms, ⟨hroom, hms⟩ =>
    rw [Value.raw, Raw.read, openBracket_of_pos hroom]
    change (do
      let values ← Raw.readMembers (room - 1) (rawMembers ms)
      Ending.closed.check
      return Value.object values) = _
    rw [readMembers_raw ms hms]
    rfl

/-- The trees of items that fit are read as the items. -/
theorem readItems_raw {room : Nat} (vs : List Value) (h : FitsItems room vs) :
    Raw.readItems room (rawItems vs) = .ok vs := by
  match vs, h with
  | [], _ => rfl
  | v :: vs, ⟨hv, hvs⟩ =>
    rw [rawItems, Raw.readItems, read_raw v hv, readItems_raw vs hvs]
    rfl

/-- The trees of members that fit are read as the members. -/
theorem readMembers_raw {room : Nat} (ms : List (String × Value)) (h : FitsMembers room ms) :
    Raw.readMembers room (rawMembers ms) = .ok ms := by
  match ms, h with
  | [], _ => rfl
  | (key, v) :: ms, ⟨hv, hms⟩ =>
    rw [rawMembers, Raw.readMembers, textOf_escapePieces, read_raw v hv, readMembers_raw ms hms]
    rfl

end

/-- A value that fits is read back from its text. -/
theorem parse_text {v : Value} (h : v.Fits maxDepth) : parse v.text = .ok v := by
  rw [parse, readWhole_text _ (unbroken_of_fits v h), read_raw v h]

end Value

end ArgdownLens.Json
