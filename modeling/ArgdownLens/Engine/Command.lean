import ArgdownLens.Engine.Host
import ArgdownLens.Process
import ArgdownLens.Text.Blank

/-!
# Engines that are programs

A program is started for every request, gets the request as one line of JSON on its input, and
prints its answer. The faults come in this order: the program does not start, the request cannot be
written as JSON, the system fails while input and output go back and forth, the program ends badly,
and what it printed is no answer.
-/

namespace ArgdownLens

/-- What a completed program says. -/
def Completion.response (c : Completion) : Except EngineError Response :=
  if c.status.isSuccess then
    (Wire.decodeBytes c.stdout).mapError .ofDecode
  else
    .error (.exit c.status (String.ofList (Text.trimBlanks (Utf8.decodeLossy c.stderr).toList)))

/-- Refuses an input that did not arrive. A program may end before it has read all of its input. -/
def Delivery.check : Delivery → Except EngineError Unit
  | .finished => .ok ()
  | .failed fault => if fault.isBrokenPipe then .ok () else .error (.io fault)
  | .panicked => .error (.io { text := "engine stdin writer panicked" })

/-- What an exchange says. -/
def Exchange.response (e : Exchange) : Except EngineError Response := do
  let completion ← e.ending.mapError .io
  e.delivery.check
  completion.response

/-- The engine that a command of a machine is. -/
def CommandConfig.engine (c : CommandConfig) (machine : Machine) : Engine := fun request => do
  let child ← (machine.start c.program c.args).mapError (.spawn c.program)
  let payload ← request.payload.mapError (fun m => .json (.mismatch m))
  match child.exchange? with
  | none => .error (.io ⟨"engine stdin unavailable", true⟩)
  | some exchange => (exchange (Utf8.encode payload)).response

end ArgdownLens
