import ArgdownLens.Query.Completion
import ArgdownLens.Query.Definition
import ArgdownLens.Query.Diagnostic
import ArgdownLens.Query.Hover
import ArgdownLens.Query.Outline

/-!
# Analyses

The engine's answer for a document together with the text that it is about, and the questions that
an editor asks of it.
-/

namespace ArgdownLens

/-- An analysed document. -/
structure Analysis where
  uri : String
  text : String
  response : Response
  deriving Repr, Inhabited

namespace Analysis

/-- The lines of the document. -/
def lineIndex (a : Analysis) : LineIndex :=
  .ofText a.text

/-- What to show at a position. -/
def hover? (a : Analysis) (p : Position) : Option HoverResult :=
  a.response.hoverAt? p

/-- The places that explain the symbol at a position. -/
def definitions (a : Analysis) (p : Position) : List DefinitionTarget :=
  a.response.definitionsAt a.uri p

/-- The references to the symbol at a position. -/
def references (a : Analysis) (p : Position) (includeDeclaration : Bool) : ReferenceResult :=
  a.response.referencesAt a.uri p includeDeclaration

/-- The highlights of the symbol at a position. -/
def highlights (a : Analysis) (p : Position) : List DocumentHighlight :=
  a.response.highlightsAt p

/-- The edits that rename the symbol at a position. -/
def rename (a : Analysis) (p : Position) (newName : String) : WorkspaceEdit :=
  a.response.renameAt a.uri p newName

/-- The range of the symbol at a position, if it can be renamed there. -/
def prepareRename? (a : Analysis) (p : Position) : Option Range :=
  a.response.prepareRenameAt? p

/-- What to offer when `trigger` was typed at a position; nothing behind the last line. -/
def completions (a : Analysis) (p : Position) (trigger : Char) : List CompletionItem :=
  match a.lineIndex.offset? p with
  | none => []
  | some offset => a.response.completions trigger p a.text offset

/-- The outline of the document. -/
def outline (a : Analysis) : List OutlineEntry :=
  a.response.outline a.uri

/-- The diagnostics of the document. -/
def diagnostics (a : Analysis) : List Diagnostic :=
  a.response.diagnostics

end Analysis

end ArgdownLens
