import ArgdownLens.Model.Response

/-!
# Diagnostics

Every parser error is reported as an error at its token.
-/

namespace ArgdownLens

/-- How bad a diagnostic is. -/
inductive Severity where
  | error | warning | info | hint
  deriving DecidableEq, Repr, Inhabited

namespace Severity

/-- All severities, the worst first. -/
def all : List Severity := [.error, .warning, .info, .hint]

/-- The number of the severity in the language server protocol. -/
def toLsp : Severity → Nat
  | .error => 1
  | .warning => 2
  | .info => 3
  | .hint => 4

end Severity

/-- One remark about a document. -/
structure Diagnostic where
  range : Range
  severity : Severity
  source : String
  message : String
  deriving DecidableEq, Repr, Inhabited

/-- The source that diagnostics name. -/
def diagnosticSource : String := "argdown"

/-- The diagnostic for a parser error. -/
def ParserError.diagnostic (e : ParserError) : Diagnostic :=
  ⟨e.token.toRange, .error, diagnosticSource, e.message⟩

/-- The diagnostics of a document. -/
def Response.diagnostics (r : Response) : List Diagnostic :=
  r.parserErrors.map ParserError.diagnostic

end ArgdownLens
