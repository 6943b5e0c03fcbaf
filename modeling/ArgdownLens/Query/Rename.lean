import ArgdownLens.Query.Edit
import ArgdownLens.Query.References

/-!
# Renaming

A rename writes every occurrence of a symbol anew, each in its own form. The edits are for the
document as it stands: none of them reckons with the others.
-/

namespace ArgdownLens

/-- The edit that writes an occurrence under a new name. -/
def Occurrence.renameEdit (o : Occurrence) (newName : String) : TextEdit :=
  ⟨o.range, o.kind.render newName⟩

/-- The edits that rename the symbol of an occurrence. -/
def Response.planRename (r : Response) (uri : String) (o : Occurrence) (newName : String) :
    WorkspaceEdit :=
  ⟨OrderedMap.empty.insert uri ((r.occurrencesOf o true).map (·.renameEdit newName))⟩

/-- The edits that rename the symbol at a position; none at all where no symbol is. -/
def Response.renameAt (r : Response) (uri : String) (p : Position) (newName : String) :
    WorkspaceEdit :=
  match r.occurrenceAtPosition? p with
  | none => {}
  | some o => r.planRename uri o newName

/-- The range of the symbol at a position, if it can be renamed there. -/
def Response.prepareRenameAt? (r : Response) (p : Position) : Option Range :=
  (r.occurrenceAtPosition? p).map Occurrence.range

end ArgdownLens
