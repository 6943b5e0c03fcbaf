import ArgdownLens.Query.Occurrence

/-!
# References

All occurrences of the symbol under the cursor, in the order of the document.
-/

namespace ArgdownLens

/-- The occurrences of the same symbol in the whole tree; without its definitions unless they are
asked for. -/
def Response.occurrencesOf (r : Response) (o : Occurrence) (includeDeclaration : Bool) :
    List Occurrence :=
  (r.ast.preorder.filterMap Node.occurrence?).filter fun candidate =>
    candidate.sameSymbol o && (includeDeclaration || !candidate.isDefinition)

/-- One reference to a symbol. -/
structure Reference where
  location : Location
  kind : OccurrenceKind
  isDefinition : Bool
  deriving DecidableEq, Repr, Inhabited

/-- The reference that an occurrence is in a document. -/
def Reference.ofOccurrence (uri : String) (o : Occurrence) : Reference :=
  ⟨⟨uri, o.range⟩, o.kind, o.isDefinition⟩

/-- The references to the symbol at a position, and whether its definitions are among them. -/
structure ReferenceResult where
  references : List Reference := []
  includeDeclaration : Bool := false
  deriving DecidableEq, Repr, Inhabited

/-- Where the references stand. -/
def ReferenceResult.locations (result : ReferenceResult) : List Location :=
  result.references.map Reference.location

/-- The references to the symbol at a position. -/
def Response.referencesAt (r : Response) (uri : String) (p : Position)
    (includeDeclaration : Bool) : ReferenceResult :=
  match r.occurrenceAtPosition? p with
  | none => {}
  | some o =>
    ⟨(r.occurrencesOf o includeDeclaration).map (.ofOccurrence uri), includeDeclaration⟩

/-- Whether an occurrence is highlighted as a use or as a definition. -/
inductive HighlightKind where
  | read | write
  deriving DecidableEq, Repr, Inhabited

/-- The number of the kind in the language server protocol. -/
def HighlightKind.toLsp : HighlightKind → Nat
  | .read => 2
  | .write => 3

/-- A highlighted range. -/
structure DocumentHighlight where
  range : Range
  kind : HighlightKind
  deriving DecidableEq, Repr, Inhabited

/-- The highlights of the symbol at a position: all its occurrences, definitions as writes. -/
def Response.highlightsAt (r : Response) (p : Position) : List DocumentHighlight :=
  match r.occurrenceAtPosition? p with
  | none => []
  | some o =>
    (r.occurrencesOf o true).map fun found =>
      ⟨found.range, if found.isDefinition then .write else .read⟩

end ArgdownLens
