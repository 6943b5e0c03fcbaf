import ArgdownLens.Json.Value
import ArgdownLens.Model.OrderedMap

/-!
# Configuration of the engine

Which stages a document goes through, whether the engine is told the file of a document, and the
command that runs the engine. Settings come as a JSON value: an object, of whose members of one name
the last counts and which are looked at in the order of their names, or an array in the order of the
fields.
-/

namespace ArgdownLens

/-- A program and its arguments. -/
structure CommandConfig where
  program : String
  args : List String := []
  deriving DecidableEq, Repr, Inhabited

/-- The stages that a document goes through unless settings say otherwise. -/
def defaultProcess : List String :=
  ["preprocessor", "parse-input", "build-model"]

/-- The configuration of the engine. -/
structure EngineConfig where
  process : List String := defaultProcess
  sendInputPath : Bool := true
  command : Option CommandConfig := none
  deriving DecidableEq, Repr, Inhabited

/-- The configuration with other stages. -/
def EngineConfig.withProcess (c : EngineConfig) (stages : List String) : EngineConfig :=
  { c with process := stages }

namespace Settings

open Json

/-- A way to make a value of a JSON value. -/
abbrev Reader (α : Type) := Value → Except Mismatch α

/-- Refuses a value because something else should stand there. -/
def refuse {α : Type} (expected : String) (v : Value) : Except Mismatch α :=
  .error (.wrongType v.found expected)

/-- A text. -/
def text : Reader String
  | .string s => .ok s
  | v => refuse "a string" v

/-- A truth value. -/
def boolean : Reader Bool
  | .bool b => .ok b
  | v => refuse "a boolean" v

/-- A list. -/
def list {α : Type} (r : Reader α) : Reader (List α)
  | .array vs => vs.mapM r
  | v => refuse "a sequence" v

/-- A value that may be `null`. -/
def optional {α : Type} (r : Reader α) : Reader (Option α)
  | .null => .ok none
  | v => return some (← r v)

/-- A field: its name, whether it must be given, and what giving it does. -/
structure Field (α : Type) where
  name : String
  required : Bool
  read : Reader (α → α)

/-- A field by the reader of its value and what the value does. -/
def Field.of {α β : Type} (name : String) (required : Bool) (r : Reader β) (set : β → α → α) :
    Field α :=
  ⟨name, required, fun v => return set (← r v)⟩

/-- A group of settings: its title in messages, its value before any field is given, and its fields.
-/
structure Group (α : Type) where
  title : String
  blank : α
  fields : List (Field α)

/-- The members of an object by name, each name once with its last value, in the order of the names.
-/
def sortedMembers (members : List (String × Value)) : List (String × Value) :=
  (OrderedMap.ofList members).entries.mergeSort fun a b => a.1 ≤ b.1

namespace Group

variable {α : Type}

/-- Gives the members that are fields, and passes over the others. -/
def giveMembers (g : Group α) (value : α) : List (String × Value) → Except Mismatch α
  | [] => .ok value
  | (name, v) :: ms =>
    match g.fields.find? fun f => f.name = name with
    | none => g.giveMembers value ms
    | some f => do
      let set ← f.read v
      g.giveMembers (set value) ms

/-- Gives items to the fields in order, behind `index` fields. -/
def giveItems (g : Group α) (index : Nat) (value : α) :
    List (Field α) → List Value → Except Mismatch α
  | [], _ => .ok value
  | f :: fs, v :: vs => do
    let set ← f.read v
    g.giveItems (index + 1) (set value) fs vs
  | f :: fs, [] =>
    if f.required then
      .error (.wrongLength index s!"{g.title} with {g.fields.length} elements")
    else g.giveItems (index + 1) value fs []

/-- The reader of a group of settings. -/
def reader (g : Group α) : Reader α
  | .object ms => do
    let value ← g.giveMembers g.blank (sortedMembers ms)
    match g.fields.find? fun f => f.required && !ms.any (·.1 = f.name) with
    | some f => .error (.missingField f.name)
    | none => return value
  | .array vs => do
    let value ← g.giveItems 0 g.blank g.fields vs
    if g.fields.length < vs.length then
      .error (.wrongLength vs.length "fewer elements in array")
    else return value
  | v => refuse g.title v

end Group

/-- The settings of a command. -/
def command : Group CommandConfig where
  title := "struct CommandConfig"
  blank := { program := "" }
  fields := [
    .of "program" true text fun s c => { c with program := s },
    .of "args" false (list text) fun ss c => { c with args := ss }]

/-- The settings of the engine. -/
def engine : Group EngineConfig where
  title := "struct EngineConfig"
  blank := {}
  fields := [
    .of "process" false (list text) fun ss c => { c with process := ss },
    .of "sendInputPath" false boolean fun b c => { c with sendInputPath := b },
    .of "command" false (optional command.reader) fun o c => { c with command := o }]

end Settings

/-- The configuration that settings describe. -/
def EngineConfig.ofSettings (settings : Json.Value) : Except Json.Mismatch EngineConfig :=
  Settings.engine.reader settings

end ArgdownLens
