import ArgdownLens.Query.Occurrence

/-!
# Definitions

Where the symbol under the cursor is explained: the members of a statement, or the descriptions of
an argument and then its premises and conclusions. A tag has no such place.
-/

namespace ArgdownLens

/-- What stands at the target of a jump. -/
inductive TargetKind where
  | statementMember | argumentDescription | reconstruction
  deriving DecidableEq, Repr, Inhabited

/-- The target of a jump. -/
structure DefinitionTarget where
  location : Location
  kind : TargetKind
  deriving DecidableEq, Repr, Inhabited

/-- The targets of one kind at some spans of a document. -/
def DefinitionTarget.ofSpans (uri : String) (kind : TargetKind) (spans : List Span) :
    List DefinitionTarget :=
  spans.map fun span => ⟨⟨uri, span.toRange⟩, kind⟩

/-- The places that explain the symbol of an occurrence. -/
def Response.definitionsOf (r : Response) (uri : String) (o : Occurrence) :
    List DefinitionTarget :=
  match o.family with
  | .statement =>
    match r.statement? o.key with
    | none => []
    | some c => DefinitionTarget.ofSpans uri .statementMember (c.members.map Member.span)
  | .argument =>
    match r.argument? o.key with
    | none => []
    | some a =>
      DefinitionTarget.ofSpans uri .argumentDescription (a.descriptions.map Member.span) ++
        DefinitionTarget.ofSpans uri .reconstruction a.reconstructionSpan?.toList
  | .tag => []

/-- The places that explain the symbol at a position. -/
def Response.definitionsAt (r : Response) (uri : String) (p : Position) :
    List DefinitionTarget :=
  match r.occurrenceAtPosition? p with
  | none => []
  | some o => r.definitionsOf uri o

end ArgdownLens
