import ArgdownLens.Query.Occurrence

/-!
# Outline

The headings, definitions and reconstructed arguments of a document, in its order.
-/

namespace ArgdownLens

/-- The kinds of entries in an outline. -/
inductive OutlineKind where
  | reconstruction | argumentDefinition | statementDefinition | heading
  deriving DecidableEq, Repr, Inhabited

/-- The number of the kind in the language server protocol, which has one for all of them. -/
def OutlineKind.toLsp (_ : OutlineKind) : Nat := 13

/-- One entry of an outline. -/
structure OutlineEntry where
  name : String
  kind : OutlineKind
  id : String
  location : Location
  deriving DecidableEq, Repr, Inhabited

/-- The name, kind and id of the entry for a node, if the outline has one for it. The name of a
heading begins with the source text of its first child, which is its marker. -/
def Node.outline? (n : Node) : Option (String × OutlineKind × String) :=
  match n.kind with
  | .argumentBlock argument => some ("PCS <" ++ argument ++ ">", .reconstruction, argument)
  | .heading text sectionId =>
    let marker := (n.children.head?.bind (·.kind.image?)).getD ""
    some (marker ++ text, .heading, sectionId.getD text)
  | .statement _ | .argument _ =>
    match n.occurrence? with
    | some ⟨.statementDefinition, key, _⟩ =>
      some ((EntityRef.statement key).toArgdown, .statementDefinition, key)
    | some ⟨.argumentDefinition, key, _⟩ =>
      some ((EntityRef.argument key).toArgdown, .argumentDefinition, key)
    | _ => none
  | _ => none

/-- The outline of a document. -/
def Response.outline (r : Response) (uri : String) : List OutlineEntry :=
  r.ast.preorder.filterMap fun n =>
    n.outline?.map fun (name, kind, id) => ⟨name, kind, id, ⟨uri, n.span.toRange⟩⟩

end ArgdownLens
