import ArgdownLens.Engine.Config
import ArgdownLens.Json.Writer
import ArgdownLens.Text.Utf8

/-!
# Requests to the engine

A document to be analysed, the file that it comes from, and the stages that it goes through. The
engine gets a request as one line of JSON.
-/

namespace ArgdownLens

/-- A request to the engine. The path of a file is a list of bytes. -/
structure EngineRequest where
  input : String
  inputPath : Option (List UInt8) := none
  process : List String
  deriving DecidableEq, Repr, Inhabited

/-- A list of texts as a JSON value. -/
def Json.Value.ofTexts (texts : List String) : Json.Value :=
  .array (texts.map .string)

/-- The request as a JSON value. A path must be text to be written. -/
def EngineRequest.toJson (r : EngineRequest) : Except Json.Mismatch Json.Value := do
  let path ← match r.inputPath with
    | none => pure []
    | some bytes =>
      match Utf8.decode? bytes with
      | some path => pure [("inputPath", Json.Value.string path)]
      | none => .error .pathNotText
  return .object ([("input", .string r.input)] ++ path ++ [("process", .ofTexts r.process)])

/-- The line that the engine gets. -/
def EngineRequest.payload (r : EngineRequest) : Except Json.Mismatch String := do
  return (← r.toJson).text

end ArgdownLens
