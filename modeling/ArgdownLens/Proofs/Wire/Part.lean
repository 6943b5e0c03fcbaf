import ArgdownLens.Proofs.Json.Mending
import ArgdownLens.Proofs.Wire.Field

/-!
# Parts of a value

A decoder passes over the members of a record that are none of its fields, and over the values in a
dictionary of tags. It checks the grammar there and does not look into strings. A `Part` says which
strings of a value are read, and a value is clean (`Part.Clean`) if these have no stray bytes.
Passing over a value is indifferent to stray bytes (`skip_mended`), and reading one in full refuses
them (`strict_of_read`).
-/

namespace ArgdownLens.Wire

open Json

/-! ## Parts -/

/-- What is read of a value. -/
inductive Part where
  /-- Every string. -/
  | whole
  /-- No string. -/
  | nothing
  /-- The keys, and this part of every item or member. -/
  | each (part : Part)
  /-- The keys, and of the items or members of a record what the list says, by name and in order. -/
  | fields (parts : List (String × Part))
  /-- What is read of a node of a tree. -/
  | tree

namespace Part

/-- What is read of the fields of a node. -/
def nodeFields : List (String × Part) :=
  [("tokenType", .fields [("tokenName", .whole)]), ("name", .whole), ("startLine", .whole),
    ("startColumn", .whole), ("endLine", .whole), ("endColumn", .whole), ("image", .whole),
    ("title", .whole), ("tag", .whole), ("text", .whole),
    ("statement", .fields [("title", .whole)]), ("argument", .fields [("title", .whole)]),
    ("section", .fields [("id", .whole)]), ("children", .each .tree)]

/-- What is read of the item at an index of an array. -/
def item : Part → Nat → Part
  | .whole, _ => .whole
  | .nothing, _ => .nothing
  | .each p, _ => p
  | .fields ps, i => (ps[i]?.map Prod.snd).getD .nothing
  | .tree, i => (nodeFields[i]?.map Prod.snd).getD .nothing

/-- What is read of the member of a record under a key. -/
def ofKey (parts : List (String × Part)) (key : List Piece) : Part :=
  match textOf key with
  | .ok name => (parts.lookup name).getD .nothing
  | .error _ => .nothing

/-- What is read of the member of an object under a key. -/
def member : Part → List Piece → Part
  | .whole, _ => .whole
  | .nothing, _ => .nothing
  | .each p, _ => p
  | .fields ps, key => ofKey ps key
  | .tree, key => ofKey nodeFields key

/-- A string has no stray bytes, if it is read. -/
def Clear (p : Part) (pieces : List Piece) : Prop :=
  p ≠ .nothing → .stray ∉ pieces

mutual

/-- The strings of a value that are read have no stray bytes. -/
def Clean (p : Part) : Raw → Prop
  | .string pieces => p.Clear pieces
  | .array items _ => CleanItems p 0 items
  | .object members _ => CleanMembers p members
  | _ => True

/-- The strings of some items, the first of which has the index `i`, that are read have no stray
bytes. -/
def CleanItems (p : Part) (i : Nat) : List Raw → Prop
  | [] => True
  | v :: vs => (p.item i).Clean v ∧ CleanItems p (i + 1) vs

/-- The strings of some members that are read have no stray bytes. -/
def CleanMembers (p : Part) : List (List Piece × Raw) → Prop
  | [] => True
  | (key, v) :: ms => p.Clear key ∧ (p.member key).Clean v ∧ CleanMembers p ms

end

/-- Items are clean one by one. -/
theorem cleanItems_iff {p : Part} {i : Nat} {vs : List Raw} :
    p.CleanItems i vs ↔ ∀ j v, vs[j]? = some v → (p.item (i + j)).Clean v := by
  induction vs generalizing i with
  | nil => simp [CleanItems]
  | cons v vs ih =>
    rw [CleanItems, ih]
    refine ⟨fun ⟨hv, hvs⟩ j w hw => ?_, fun h => ⟨h 0 v rfl, fun j w hw => ?_⟩⟩
    · cases j with
      | zero =>
        rw [List.getElem?_cons_zero, Option.some.injEq] at hw
        exact hw ▸ hv
      | succ j =>
        rw [List.getElem?_cons_succ] at hw
        have hitem := hvs j w hw
        rwa [Nat.add_right_comm, Nat.add_assoc] at hitem
    · have hitem := h (j + 1) w hw
      rwa [← Nat.add_assoc, Nat.add_right_comm] at hitem

/-- Members are clean one by one. -/
theorem cleanMembers_iff {p : Part} {ms : List (List Piece × Raw)} :
    p.CleanMembers ms ↔ ∀ m ∈ ms, p.Clear m.1 ∧ (p.member m.1).Clean m.2 := by
  induction ms with
  | nil => simp [CleanMembers]
  | cons m ms ih => simp [CleanMembers, ih, and_assoc]

mutual

/-- Where nothing is read, all is clean. -/
theorem clean_nothing (v : Raw) : nothing.Clean v := by
  match v with
  | .null | .bool _ | .number _ | .broken _ => trivial
  | .string _ => exact fun h => absurd rfl h
  | .array vs _ => exact cleanItems_nothing 0 vs
  | .object ms _ => exact cleanMembers_nothing ms

/-- Where nothing is read, all items are clean. -/
theorem cleanItems_nothing (i : Nat) (vs : List Raw) : nothing.CleanItems i vs := by
  match vs with
  | [] => trivial
  | v :: vs => exact ⟨clean_nothing v, cleanItems_nothing (i + 1) vs⟩

/-- Where nothing is read, all members are clean. -/
theorem cleanMembers_nothing (ms : List (List Piece × Raw)) : nothing.CleanMembers ms := by
  match ms with
  | [] => trivial
  | (_, v) :: ms =>
    exact ⟨fun h => absurd rfl h, clean_nothing v, cleanMembers_nothing ms⟩

end

end Part

/-! ## Strings -/

/-- Without stray bytes there is nothing to mend in a string. -/
theorem mended_pieces {pieces : List Piece} (h : .stray ∉ pieces) :
    pieces.map Piece.mended = pieces := by
  induction pieces with
  | nil => rfl
  | cons p ps ih =>
    obtain ⟨hp, hps⟩ := List.ne_and_not_mem_of_not_mem_cons h
    rw [List.map_cons, ih hps]
    cases p with
    | stray => exact absurd rfl hp
    | _ => rfl

/-! ## Passing over -/

/-- What closes a bracket, or does not, is passed over in the same way when it is mended. -/
theorem skip_mended_ending (e : Ending) : e.mended.skip = e.skip := by
  cases e with
  | closed => rfl
  | stopped found => cases found <;> rfl
  | keyless afterComma found =>
    cases found with
    | none => rfl
    | some t => cases t <;> rfl

mutual

/-- A value is passed over in the same way when it is mended. -/
theorem skip_mended (v : Raw) : v.mended.skip = v.skip := by
  match v with
  | .null | .bool _ | .number _ | .string _ => rfl
  | .array vs e =>
    rw [Raw.mended, Raw.skip, Raw.skip, skipItems_mended vs, skip_mended_ending]
  | .object ms e =>
    rw [Raw.mended, Raw.skip, Raw.skip, skipMembers_mended ms, skip_mended_ending]
  | .broken found =>
    cases found with
    | none => rfl
    | some t => cases t <;> rfl

/-- Items are passed over in the same way when they are mended. -/
theorem skipItems_mended (vs : List Raw) :
    Raw.skipItems (Raw.mendedItems vs) = Raw.skipItems vs := by
  match vs with
  | [] => rfl
  | v :: vs =>
    rw [Raw.mendedItems, Raw.skipItems, Raw.skipItems, skip_mended v, skipItems_mended vs]

/-- Members are passed over in the same way when they are mended. -/
theorem skipMembers_mended (ms : List (List Piece × Raw)) :
    Raw.skipMembers (Raw.mendedMembers ms) = Raw.skipMembers ms := by
  match ms with
  | [] => rfl
  | (_, v) :: ms =>
    rw [Raw.mendedMembers, Raw.skipMembers, Raw.skipMembers, skip_mended v, skipMembers_mended ms]

end

/-- Only a closed bracket is passed over. -/
theorem closed_of_skip {e : Ending} (h : e.skip = .ok ()) : e = .closed := by
  cases e with
  | closed => rfl
  | stopped found => cases found <;> cases h
  | keyless afterComma found =>
    cases found with
    | none => cases h
    | some t => cases t <;> cases h

mutual

/-- Only an unbroken value is passed over. -/
theorem unbroken_of_skip (v : Raw) (h : v.skip = .ok ()) : v.Unbroken := by
  match v with
  | .null | .bool _ | .number _ | .string _ => trivial
  | .array vs e =>
    obtain ⟨_, hvs, he⟩ := bind_eq_ok.mp h
    exact ⟨closed_of_skip he, unbroken_of_skipItems vs hvs⟩
  | .object ms e =>
    obtain ⟨_, hms, he⟩ := bind_eq_ok.mp h
    exact ⟨closed_of_skip he, unbroken_of_skipMembers ms hms⟩
  | .broken found => cases h

/-- Only unbroken items are passed over. -/
theorem unbroken_of_skipItems (vs : List Raw) (h : Raw.skipItems vs = .ok ()) :
    Raw.UnbrokenItems vs := by
  match vs with
  | [] => trivial
  | v :: vs =>
    obtain ⟨_, hv, hvs⟩ := bind_eq_ok.mp h
    exact ⟨unbroken_of_skip v hv, unbroken_of_skipItems vs hvs⟩

/-- Only unbroken members are passed over. -/
theorem unbroken_of_skipMembers (ms : List (List Piece × Raw))
    (h : Raw.skipMembers ms = .ok ()) : Raw.UnbrokenMembers ms := by
  match ms with
  | [] => trivial
  | (_, v) :: ms =>
    obtain ⟨_, hv, hms⟩ := bind_eq_ok.mp h
    exact ⟨unbroken_of_skip v hv, unbroken_of_skipMembers ms hms⟩

end

/-! ## Reading strictly -/

/-- Only a closed bracket is read to its end. -/
theorem closed_of_check {e : Ending} (h : e.check = .ok ()) : e = .closed := by
  cases e with
  | closed => rfl
  | stopped found => cases found <;> cases h
  | keyless afterComma found => cases h

mutual

/-- Without stray bytes there is nothing to mend. -/
theorem mended_of_strict (v : Raw) (hu : v.Unbroken) (hc : Part.whole.Clean v) : v.mended = v := by
  match v, hu, hc with
  | .null, _, _ | .bool _, _, _ | .number _, _, _ => rfl
  | .string ps, _, hc => exact congrArg Raw.string (mended_pieces (hc (by simp)))
  | .array vs _, ⟨rfl, hu⟩, hc =>
    rw [Raw.mended, mendedItems_of_strict vs hu 0 hc]
    rfl
  | .object ms _, ⟨rfl, hu⟩, hc =>
    rw [Raw.mended, mendedMembers_of_strict ms hu hc]
    rfl

/-- Without stray bytes there is nothing to mend in items. -/
theorem mendedItems_of_strict (vs : List Raw) (hu : Raw.UnbrokenItems vs) (i : Nat)
    (hc : Part.whole.CleanItems i vs) : Raw.mendedItems vs = vs := by
  match vs, hu, hc with
  | [], _, _ => rfl
  | v :: vs, ⟨hv, hvs⟩, ⟨hcv, hcvs⟩ =>
    rw [Raw.mendedItems, mended_of_strict v hv hcv, mendedItems_of_strict vs hvs (i + 1) hcvs]

/-- Without stray bytes there is nothing to mend in members. -/
theorem mendedMembers_of_strict (ms : List (List Piece × Raw)) (hu : Raw.UnbrokenMembers ms)
    (hc : Part.whole.CleanMembers ms) : Raw.mendedMembers ms = ms := by
  match ms, hu, hc with
  | [], _, _ => rfl
  | (key, v) :: ms, ⟨hv, hms⟩, ⟨hkey, hcv, hcms⟩ =>
    rw [Raw.mendedMembers, mended_pieces (hkey (by simp)), mended_of_strict v hv hcv,
      mendedMembers_of_strict ms hms hcms]

end

mutual

/-- Only a strict value is read in full. -/
theorem strict_of_read (room : Nat) (v : Raw) {w : Value} (h : v.read room = .ok w) :
    v.Unbroken ∧ Part.whole.Clean v := by
  match v with
  | .null | .bool _ | .number _ => exact ⟨trivial, trivial⟩
  | .string ps =>
    obtain ⟨s, hs, -⟩ := bind_eq_ok.mp h
    exact ⟨trivial, fun _ => notMem_stray hs⟩
  | .array vs e =>
    -- The closing bracket is checked behind what stands within the brackets.
    obtain ⟨inner, -, h⟩ := bind_eq_ok.mp h
    obtain ⟨ws, hvs, h⟩ := bind_eq_ok.mp h
    obtain ⟨_, he, -⟩ := bind_eq_ok.mp h
    obtain ⟨hu, hc⟩ := strict_of_readItems inner vs 0 hvs
    exact ⟨⟨closed_of_check he, hu⟩, hc⟩
  | .object ms e =>
    obtain ⟨inner, -, h⟩ := bind_eq_ok.mp h
    obtain ⟨ws, hms, h⟩ := bind_eq_ok.mp h
    obtain ⟨_, he, -⟩ := bind_eq_ok.mp h
    obtain ⟨hu, hc⟩ := strict_of_readMembers inner ms hms
    exact ⟨⟨closed_of_check he, hu⟩, hc⟩
  | .broken found => cases h

/-- Only strict items are read in full. -/
theorem strict_of_readItems (room : Nat) (vs : List Raw) (i : Nat) {ws : List Value}
    (h : Raw.readItems room vs = .ok ws) :
    Raw.UnbrokenItems vs ∧ Part.whole.CleanItems i vs := by
  match vs with
  | [] => exact ⟨trivial, trivial⟩
  | v :: vs =>
    obtain ⟨w, hv, h⟩ := bind_eq_ok.mp h
    obtain ⟨ws, hvs, -⟩ := bind_eq_ok.mp h
    obtain ⟨hu, hc⟩ := strict_of_read room v hv
    obtain ⟨hus, hcs⟩ := strict_of_readItems room vs (i + 1) hvs
    exact ⟨⟨hu, hus⟩, hc, hcs⟩

/-- Only strict members are read in full. -/
theorem strict_of_readMembers (room : Nat) (ms : List (List Piece × Raw))
    {ws : List (String × Value)} (h : Raw.readMembers room ms = .ok ws) :
    Raw.UnbrokenMembers ms ∧ Part.whole.CleanMembers ms := by
  match ms with
  | [] => exact ⟨trivial, trivial⟩
  | (key, v) :: ms =>
    obtain ⟨name, hkey, h⟩ := bind_eq_ok.mp h
    obtain ⟨w, hv, h⟩ := bind_eq_ok.mp h
    obtain ⟨ws, hms, -⟩ := bind_eq_ok.mp h
    obtain ⟨hu, hc⟩ := strict_of_read room v hv
    obtain ⟨hus, hcs⟩ := strict_of_readMembers room ms hms
    exact ⟨⟨hu, hus⟩, fun _ => notMem_stray hkey, hc, hcs⟩

end

end ArgdownLens.Wire
