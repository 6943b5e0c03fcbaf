import ArgdownLens.Json.Value
import ArgdownLens.Model.OrderedMap

/-!
# Decoders

A decoder walks the tree of a JSON text and makes a value of the model of it, or stops at the first
fault on its way. `room` is the number of brackets that may still be opened.

Records are described field by field (`Record`). An object gives the fields by name in any order,
each once, and may hold further members, which are passed over. An array gives them in the order of
the description.
-/

namespace ArgdownLens.Wire

open Json

/-- A way to make a value of a JSON tree. -/
abbrev Decoder (α : Type) := (room : Nat) → Raw → Except Fault α

/-- What stands at a place, for the message that something else should. -/
def found : Raw → Except Fault Found
  | .null => .ok .null
  | .bool b => .ok (.bool b)
  | .number l => return .number (← l.value)
  | .string pieces => return .string (← textOf pieces)
  | .array _ _ => .ok .sequence
  | .object _ _ => .ok .map
  | .broken token => .error (valueFault token)

/-- Refuses a tree because something else should stand there. -/
def refuse {α : Type} (expected : String) (v : Raw) : Except Fault α := do
  .error (.mismatch (.wrongType (← found v) expected))

/-! ## Simple values -/

/-- A string, called `expected` where it is missing. -/
def stringAs (expected : String) : Decoder String
  | _, .string pieces => textOf pieces
  | _, v => refuse expected v

/-- A string. -/
def string : Decoder String :=
  stringAs "a string"

/-- A truth value. -/
def boolean : Decoder Bool
  | _, .bool b => .ok b
  | _, v => refuse "a boolean" v

/-- The greatest coordinate. -/
def maxCoordinate : Nat := 0xFFFFFFFF

/-- The coordinate that a number is. -/
def coordinateOf : Number → Except Fault Nat
  | .natural n =>
    if n ≤ maxCoordinate then .ok n
    else .error (.mismatch (.wrongValue (.number (.natural n)) "u32"))
  | .negative n => .error (.mismatch (.wrongValue (.number (.negative n)) "u32"))
  | .real x => .error (.mismatch (.wrongType (.number (.real x)) "u32"))

/-- A coordinate: an integer of 32 bits, written without fraction or exponent. -/
def coordinate : Decoder Nat
  | _, .number l => do coordinateOf (← l.value)
  | _, v => refuse "u32" v

/-- A value that may be `null`. -/
def optional {α : Type} (d : Decoder α) : Decoder (Option α)
  | _, .null => .ok none
  | room, v => return some (← d room v)

/-- A value that is not looked at. -/
def ignored : Decoder Unit
  | _, v => v.skip

/-! ## Lists and maps -/

/-- The values of some items, in order. -/
def items {α : Type} (d : Decoder α) (room : Nat) : List Raw → Except Fault (List α)
  | [] => .ok []
  | v :: vs => do
    let a ← d room v
    return a :: (← items d room vs)

/-- A list. -/
def list {α : Type} (d : Decoder α) : Decoder (List α)
  | room, .array vs ending => do
    let room ← openBracket room
    let result ← items d room vs
    ending.check
    return result
  | _, v => refuse "a sequence" v

/-- The values of some members, put into a map one after the other. -/
def mapMembers {α : Type} (d : Decoder α) (room : Nat) (done : OrderedMap α) :
    List (List Piece × Raw) → Except Fault (OrderedMap α)
  | [] => .ok done
  | (key, v) :: ms => do
    let name ← textOf key
    let a ← d room v
    mapMembers d room (done.insert name a) ms

/-- A map from names. A name that is given again replaces the value and keeps its place. -/
def map {α : Type} (d : Decoder α) : Decoder (OrderedMap α)
  | room, .object ms ending => do
    let room ← openBracket room
    let result ← mapMembers d room .empty ms
    ending.check
    return result
  | _, v => refuse "a map" v

/-! ## Records -/

/-- A field of a record: its name, whether it must be given, and what giving it does. -/
structure Field (α : Type) where
  name : String
  required : Bool
  read : Decoder (α → α)

/-- A field that must be given. -/
def Field.mandatory {α β : Type} (name : String) (d : Decoder β) (set : β → α → α) : Field α :=
  ⟨name, true, fun room v => return set (← d room v)⟩

/-- A field that may be left out. -/
def Field.standard {α β : Type} (name : String) (d : Decoder β) (set : β → α → α) : Field α :=
  ⟨name, false, fun room v => return set (← d room v)⟩

/-- A record: its title in messages, its value before any field is given, and its fields in the
order in which arrays give them. -/
structure Record (α : Type) where
  title : String
  blank : α
  fields : List (Field α)

/-- A record of which some fields have been given. -/
structure Filled (α : Type) where
  given : List String
  value : α

namespace Record

variable {α : Type}

/-- The field with a name. -/
def field? (r : Record α) (name : String) : Option (Field α) :=
  r.fields.find? fun f => f.name = name

/-- The record before any field is given. -/
def start (r : Record α) : Filled α :=
  ⟨[], r.blank⟩

/-- Gives a field. A field that has been given is refused before its value is looked at. -/
def give (room : Nat) (done : Filled α) (f : Field α) (v : Raw) : Except Fault (Filled α) :=
  if f.name ∈ done.given then .error (.mismatch (.duplicateField f.name))
  else do
    let set ← f.read room v
    return ⟨f.name :: done.given, set done.value⟩

/-- The value of a record to which no more fields are given. The first field that must be given and
was not is missed. -/
def finish (r : Record α) (done : Filled α) : Except Fault α :=
  match r.fields.find? fun f => f.required && f.name ∉ done.given with
  | some f => .error (.mismatch (.missingField f.name))
  | none => .ok done.value

/-- Gives the members of an object that are fields, and passes over the others. -/
def giveMembers (r : Record α) (room : Nat) (done : Filled α) :
    List (List Piece × Raw) → Except Fault (Filled α)
  | [] => .ok done
  | (key, v) :: ms => do
    let name ← textOf key
    match r.field? name with
    | some f => r.giveMembers room (← give room done f v) ms
    | none =>
      v.skip
      r.giveMembers room done ms

/-- The title with the number of fields. -/
def sized (r : Record α) : String :=
  match r.fields.length with
  | 1 => s!"{r.title} with 1 element"
  | n => s!"{r.title} with {n} elements"

/-- Gives the items of an array to the fields in order, behind `index` fields. Fields for which no
item is left must be ones that may be left out; an item for which no field is left is no JSON. -/
def giveItems (r : Record α) (room : Nat) (ending : Ending) (index : Nat) (value : α) :
    List (Field α) → List Raw → Except Fault α
  | [], [] => do
    ending.check
    return value
  | [], _ :: _ => .error .malformed
  | f :: fs, v :: vs => do
    let set ← f.read room v
    r.giveItems room ending (index + 1) (set value) fs vs
  | f :: fs, [] => do
    ending.check
    if f.required then .error (.mismatch (.wrongLength index r.sized))
    else r.giveItems room ending (index + 1) value fs []

/-- The decoder of a record. -/
def decoder (r : Record α) : Decoder α
  | room, .array vs ending => do
    let room ← openBracket room
    r.giveItems room ending 0 r.blank r.fields vs
  | room, .object ms ending => do
    let room ← openBracket room
    let done ← r.giveMembers room r.start ms
    ending.check
    r.finish done
  | _, v => refuse r.title v

end Record

/-! ## Records with the fields of another one among theirs -/

/-- The members of an object that are fields of `r`, given at once, and the others, which are read
in full and kept in order. -/
def splitMembers {α : Type} (r : Record α) (room : Nat) (done : Filled α) :
    List (List Piece × Raw) → Except Fault (Filled α × List (String × Raw))
  | [] => .ok (done, [])
  | (key, v) :: ms => do
    let name ← textOf key
    match r.field? name with
    | some f => splitMembers r room (← Record.give room done f v) ms
    | none =>
      let _ ← v.read room
      let (done, others) ← splitMembers r room done ms
      return (done, (name, v) :: others)

/-- Gives the members that are fields of the record. -/
def Record.giveNamed {α : Type} (r : Record α) (room : Nat) (done : Filled α) :
    List (String × Raw) → Except Fault (Filled α)
  | [] => .ok done
  | (name, v) :: ms => do
    match r.field? name with
    | some f => r.giveNamed room (← give room done f v) ms
    | none => r.giveNamed room done ms

/-- The decoder of an object whose members are fields of two records. Those of `outer` are given
while the object is read, those of `inner` when it has ended. -/
def flattened {α β : Type} (outer : Record α) (inner : Record β) : Decoder (α × β)
  | room, .object ms ending => do
    let room ← openBracket room
    let (done, others) ← splitMembers outer room outer.start ms
    ending.check
    let a ← outer.finish done
    let b ← inner.finish (← inner.giveNamed room inner.start others)
    return (a, b)
  | _, v => refuse outer.title v

end ArgdownLens.Wire
