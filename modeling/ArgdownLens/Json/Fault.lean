import ArgdownLens.Json.Number
import ArgdownLens.Text.Quoted

/-!
# What can be wrong with a JSON text

A text that is no JSON at all is `malformed`, or `ended` if it is the beginning of a JSON text. A
text that is JSON and does not describe what it should has a `Mismatch`, whose wording is
`Mismatch.text`.
-/

namespace ArgdownLens.Json

/-- What stands where something else should. -/
inductive Found where
  | null
  | bool (b : Bool)
  | number (n : Number)
  | string (s : String)
  | sequence
  | map
  deriving DecidableEq, Repr

/-- The name of what was found. -/
def Found.text : Found → String
  | .null => "null"
  | .bool b => s!"boolean `{b}`"
  | .number (.real x) => s!"floating point `{x.text}`"
  | .number n => s!"integer `{n.text}`"
  | .string s => s!"string {Text.quoted s}"
  | .sequence => "sequence"
  | .map => "map"

/-- A way in which a JSON value does not describe what it should. -/
inductive Mismatch where
  /-- The value has the wrong type. -/
  | wrongType (found : Found) (expected : String)
  /-- The value has the right type and lies out of range. -/
  | wrongValue (found : Found) (expected : String)
  /-- An array has the wrong number of elements. -/
  | wrongLength (length : Nat) (expected : String)
  /-- A field is given a second time. -/
  | duplicateField (name : String)
  /-- A field is not given. -/
  | missingField (name : String)
  /-- A name is not among the names allowed. -/
  | unknownVariant (name : String) (allowed : List String)
  /-- A file path cannot be written as text. -/
  | pathNotText
  deriving DecidableEq, Repr

/-- The names allowed, as a list to choose from. -/
def choiceText (allowed : List String) : String :=
  match allowed.map fun name => s!"`{name}`" with
  | [] => "there are no variants"
  | [a] => s!"expected {a}"
  | [a, b] => s!"expected {a} or {b}"
  | names =>
    let list := String.intercalate ", " names
    s!"expected one of {list}"

/-- The wording of a mismatch. -/
def Mismatch.text : Mismatch → String
  | .wrongType found expected => s!"invalid type: {found.text}, expected {expected}"
  | .wrongValue found expected => s!"invalid value: {found.text}, expected {expected}"
  | .wrongLength length expected => s!"invalid length {length}, expected {expected}"
  | .duplicateField name => s!"duplicate field `{name}`"
  | .missingField name => s!"missing field `{name}`"
  | .unknownVariant name allowed => s!"unknown variant `{name}`, {choiceText allowed}"
  | .pathNotText => "path contains invalid UTF-8 characters"

/-- Why a text could not be read. -/
inductive Fault where
  /-- The text is not JSON. -/
  | malformed
  /-- The text ends too early. -/
  | ended
  /-- The text is JSON up to here and says the wrong thing. -/
  | mismatch (m : Mismatch)
  deriving DecidableEq, Repr

end ArgdownLens.Json
