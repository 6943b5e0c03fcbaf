import ArgdownLens.Process
import ArgdownLens.Wire.Response

/-!
# What can go wrong with an engine

The causes, and their wording in `EngineError.message`.
-/

namespace ArgdownLens

/-- Why an engine gave no answer. -/
inductive EngineError where
  /-- Its program did not start. -/
  | spawn (program : String) (fault : IoFault)
  /-- The system failed while the engine was talked to. -/
  | io (fault : IoFault)
  /-- Its program ended badly. -/
  | exit (status : ExitStatus) (stderr : String)
  /-- What it printed, or what it should get, is not the JSON that it should be. -/
  | json (fault : Json.Fault)
  /-- Its tree has a node that cannot be one. -/
  | invalidNode (kind detail : String)
  /-- Its settings are wrong. -/
  | config (mismatch : Json.Mismatch)
  deriving DecidableEq, Repr

namespace EngineError

/-- The error of an answer that could not be decoded. -/
def ofDecode : Wire.DecodeError → EngineError
  | .json fault => .json fault
  | .unnamed node => .invalidNode "rule"
      s!"node at {node.line}:{node.column} has neither a token type nor a rule name"

/-- The wording of an error. -/
def message : EngineError → String
  | .spawn program fault => s!"failed to start language engine `{program}`: {fault.text}"
  | .io fault => s!"IO error: {fault.text}"
  | .exit status stderr => s!"language engine exited with {status.text}: {stderr}"
  | .json .malformed => "JSON error: malformed text"
  | .json .ended => "JSON error: unexpected end of text"
  | .json (.mismatch m) => s!"JSON error: {m.text}"
  | .invalidNode kind detail => s!"Invalid {kind} node: {detail}"
  | .config m => s!"Invalid engine configuration: {m.text}"

end EngineError

end ArgdownLens
