import ArgdownLens.Model.OrderedMap
import ArgdownLens.Text.LineIndex

/-!
# Edits

Edits of a document are given all at once and for the document as it stands, so an edit is applied
only after those behind it (`applyEdits?`).
-/

namespace ArgdownLens

/-- A range of a document and the text to put in its place. -/
structure TextEdit where
  range : Range
  newText : String
  deriving DecidableEq, Repr, Inhabited

/-- Edits by document. -/
structure WorkspaceEdit where
  changes : OrderedMap (List TextEdit) := .empty
  deriving DecidableEq, Repr, Inhabited

namespace WorkspaceEdit

/-- Whether there is nothing to edit. -/
def isEmpty (e : WorkspaceEdit) : Bool :=
  e.changes.values.all List.isEmpty

/-- The edits of a document. -/
def editsFor (e : WorkspaceEdit) (uri : String) : List TextEdit :=
  (e.changes.get? uri).getD []

end WorkspaceEdit

/-! ## Applying edits -/

/-- The text with the bytes from `start` up to `stop` replaced; `none` if the text has no such bytes
or they cut a character. -/
def Text.splice? (start stop : Nat) (new cs : List Char) : Option (List Char) := do
  let before ← upTo? start cs
  let replaced ← upTo? stop cs
  if start ≤ stop then some (before ++ new ++ cs.drop replaced.length) else none

/-- The text after an edit, whose positions are those of `index`. -/
def TextEdit.apply? (e : TextEdit) (index : LineIndex) (cs : List Char) : Option (List Char) := do
  let start ← index.offset? e.range.start
  let stop ← index.offset? e.range.stop
  Text.splice? start stop e.newText.toList cs

/-- The text after some edits, the last one in the text first. -/
def applyEdits? (text : String) (edits : List TextEdit) : Option String :=
  let ordered := edits.mergeSort fun a b => a.range.start ≤ b.range.start
  let edited := ordered.reverse.foldlM (fun cs e => e.apply? (.ofText text) cs) text.toList
  edited.map String.ofList

end ArgdownLens
