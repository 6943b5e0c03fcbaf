import ArgdownLens.Json.Raw

/-!
# JSON values

Reading a tree strictly gives a `Value`: strings are spelled out, numbers have their values, and at
most `maxDepth` brackets may be open at once. Passing over a tree (`Raw.skip`) checks its grammar
only.
-/

namespace ArgdownLens.Json

/-- A JSON value. The members of an object keep their order, and a key may occur more than once. -/
inductive Value where
  | null
  | bool (b : Bool)
  | number (n : Number)
  | string (s : String)
  | array (items : List Value)
  | object (members : List (String × Value))
  deriving Repr, Inhabited

/-- What the value is called where something else should stand. -/
def Value.found : Value → Found
  | .null => .null
  | .bool b => .bool b
  | .number n => .number n
  | .string s => .string s
  | .array _ => .sequence
  | .object _ => .map

/-! ## Faults of the grammar -/

/-- The fault of a token that stands where a value should, for a reader who wants the value. -/
def valueFault : Option Token → Fault
  | none => .ended
  | some (.brokenWord fault) => fault
  | some (.brokenNumber fault) => fault
  | some (.brokenString pieces fault) => brokenTextFault pieces fault
  | some _ => .malformed

/-- The fault of a token that stands where a key should, for a reader who wants the key. -/
def keyFault : Option Token → Fault
  | none => .ended
  | some (.brokenString pieces fault) => brokenTextFault pieces fault
  | some _ => .malformed

/-- Checks that an array or object is closed, for a reader who wants all of it. -/
def Ending.check : Ending → Except Fault Unit
  | .closed => .ok ()
  | .stopped none => .error .ended
  | .stopped (some _) => .error .malformed
  | .keyless _ found => .error (keyFault found)

/-! ## Passing over -/

/-- The fault of a token that stands where a value should, for a reader who passes over it. A number
that is cut off is not told from a wrong one, and the contents of a string do not matter. -/
def skipFault : Option Token → Fault
  | none => .ended
  | some (.brokenWord fault) => fault
  | some (.brokenString _ fault) => fault
  | some _ => .malformed

/-- Checks that an array or object is closed, for a reader who passes over it. -/
def Ending.skip : Ending → Except Fault Unit
  | .closed => .ok ()
  | .stopped none => .error .ended
  | .stopped (some _) => .error .malformed
  | .keyless _ none => .error .ended
  | .keyless _ (some (.brokenString _ fault)) => .error fault
  | .keyless _ (some _) => .error .malformed

mutual

/-- Checks the grammar of a value and nothing else. -/
def Raw.skip : Raw → Except Fault Unit
  | .null | .bool _ | .number _ | .string _ => .ok ()
  | .array items ending => do
    Raw.skipItems items
    ending.skip
  | .object members ending => do
    Raw.skipMembers members
    ending.skip
  | .broken found => .error (skipFault found)

/-- Checks the grammar of the items of an array. -/
def Raw.skipItems : List Raw → Except Fault Unit
  | [] => .ok ()
  | v :: vs => do
    v.skip
    Raw.skipItems vs

/-- Checks the grammar of the members of an object. -/
def Raw.skipMembers : List (List Piece × Raw) → Except Fault Unit
  | [] => .ok ()
  | (_, v) :: ms => do
    v.skip
    Raw.skipMembers ms

end

/-! ## Reading -/

/-- How many brackets may be open at once. -/
def maxDepth : Nat := 127

/-- Opens a bracket when `room` more may be opened, and gives the room left inside. -/
def openBracket : Nat → Except Fault Nat
  | 0 => .error .malformed
  | room + 1 => .ok room

/-- The value of a number literal; one out of range is a fault. -/
def Literal.value (l : Literal) : Except Fault Number :=
  match l.value? with
  | some n => .ok n
  | none => .error .malformed

mutual

/-- Reads a value strictly, with room for that many brackets. -/
def Raw.read (room : Nat) : Raw → Except Fault Value
  | .null => .ok .null
  | .bool b => .ok (.bool b)
  | .number l => return .number (← l.value)
  | .string pieces => return .string (← textOf pieces)
  | .array items ending => do
    let room ← openBracket room
    let values ← Raw.readItems room items
    ending.check
    return .array values
  | .object members ending => do
    let room ← openBracket room
    let values ← Raw.readMembers room members
    ending.check
    return .object values
  | .broken found => .error (valueFault found)

/-- Reads the items of an array. -/
def Raw.readItems (room : Nat) : List Raw → Except Fault (List Value)
  | [] => .ok []
  | v :: vs => do
    let value ← v.read room
    return value :: (← Raw.readItems room vs)

/-- Reads the members of an object. -/
def Raw.readMembers (room : Nat) : List (List Piece × Raw) → Except Fault (List (String × Value))
  | [] => .ok []
  | (key, v) :: ms => do
    let name ← textOf key
    let value ← v.read room
    return (name, value) :: (← Raw.readMembers room ms)

end

/-- Applies a reader to the tree of a whole text, behind which nothing may stand. -/
def readWhole {α : Type} (reader : Raw → Except Fault α) (text : List Symbol) : Except Fault α := do
  let (tree, more) := Raw.ofSymbols text
  let result ← reader tree
  if more then .error .malformed else return result

/-- The symbols of a text. -/
def symbolsOf (text : String) : List Symbol :=
  text.toList.map .char

/-- Reads a whole text as one JSON value. -/
def Value.parse (text : String) : Except Fault Value :=
  readWhole (Raw.read maxDepth) (symbolsOf text)

end ArgdownLens.Json
