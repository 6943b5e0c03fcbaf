import ArgdownLens.Engine.Error
import ArgdownLens.Engine.Request
import ArgdownLens.Query.Analysis
import ArgdownLens.Uri.FilePath

/-!
# Open documents

A host keeps the text of every open document by URI and asks an engine about one when an analysis is
wanted. The last text that was set counts.
-/

namespace ArgdownLens

/-- What answers requests. -/
abbrev Engine := EngineRequest → Except EngineError Response

/-- The open documents and the configuration under which they are analysed. -/
structure Host where
  config : EngineConfig := {}
  documents : OrderedMap String := .empty
  deriving DecidableEq, Repr, Inhabited

namespace Host

/-- Opens a document, or gives an open one a new text. -/
def setFile (h : Host) (uri text : String) : Host :=
  { h with documents := h.documents.insert uri text }

/-- Closes a document. -/
def removeFile (h : Host) (uri : String) : Host :=
  { h with documents := h.documents.erase uri }

/-- Changes the configuration. -/
def setConfig (h : Host) (config : EngineConfig) : Host :=
  { h with config := config }

/-- Whether a document is open. -/
def hasFile (h : Host) (uri : String) : Bool :=
  h.documents.contains uri

/-- How many documents are open. -/
def fileCount (h : Host) : Nat :=
  h.documents.size

/-- The request for an open document. Its file is named if the configuration says so and it has one.
-/
def request? (h : Host) (domains : Uri.DomainMapping) (uri : String) : Option EngineRequest :=
  (h.documents.get? uri).map fun text =>
    { input := text
      inputPath := if h.config.sendInputPath then Uri.filePath? domains uri else none
      process := h.config.process }

/-- The analysis of a document by an engine that may do more than answer; none if the document is
not open. -/
def analysisBy {m : Type → Type} [Monad m] (h : Host) (domains : Uri.DomainMapping)
    (engine : EngineRequest → ExceptT EngineError m Response) (uri : String) :
    ExceptT EngineError m (Option Analysis) :=
  match h.request? domains uri with
  | none => return none
  | some request => return some ⟨uri, request.input, ← engine request⟩

/-- The analysis of a document; none if it is not open. -/
def analysis (h : Host) (domains : Uri.DomainMapping) (engine : Engine) (uri : String) :
    Except EngineError (Option Analysis) :=
  h.analysisBy (m := Id) domains engine uri

end Host

end ArgdownLens
