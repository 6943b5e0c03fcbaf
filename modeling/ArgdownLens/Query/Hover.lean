import ArgdownLens.Query.Occurrence

/-!
# Hover

What to show for the symbol under the cursor. A statement or an argument is shown as an Argdown
block of its text and its relations, a tag as the list of everything that carries it.
-/

namespace ArgdownLens

/-- The text to show and the range that it is about. -/
structure HoverResult where
  contents : String
  range : Range
  deriving DecidableEq, Repr, Inhabited

/-- A relation as it is written under one of its ends: the symbol and the entity at the other end.
An entity that is the target looks at the relation from there. -/
def Relation.line (relation : Relation) (entity : EntityRef) : String :=
  let isTarget : Bool := relation.target = entity
  let partner := if isTarget then relation.source else relation.target
  "  " ++ relation.type.directedSymbol isTarget ++ " " ++ partner.toArgdown

/-- The first line for an entity: its title, and its text if it has one. -/
def EntityRef.headline (entity : EntityRef) (text : Option String) : String :=
  match text with
  | some t => entity.toArgdown ++ ": " ++ t
  | none => entity.toArgdown

/-- The Argdown block of an entity. -/
def argdownBlock (entity : EntityRef) (text : Option String) (relations : List Relation) : String :=
  let lines := entity.headline text :: relations.map (·.line entity)
  "```argdown\n" ++ String.join (lines.map (· ++ "\n")) ++ "```"

/-- The list of everything that carries a tag, statements first. -/
def Response.tagMarkdown (r : Response) (tag : String) : String :=
  let statements := (r.statements.values.filter (·.hasTag tag)).map fun c =>
    EntityRef.statement c.title
  let arguments := (r.arguments.values.filter (·.hasTag tag)).map fun a =>
    EntityRef.argument a.title
  "**#(" ++ tag ++ ")**\n\n" ++
    String.join ((statements ++ arguments).map fun e => " * " ++ e.toArgdown ++ "\n")

/-- The text to show for a symbol; an entity that is not known has none. -/
def Response.markdown? (r : Response) (family : SymbolFamily) (key : String) : Option String :=
  match family with
  | .statement => (r.statement? key).map fun c =>
      argdownBlock (.statement c.title) c.canonicalText? c.relations
  | .argument => (r.argument? key).map fun a =>
      argdownBlock (.argument a.title) (a.canonicalDescription?.map Member.text) a.relations
  | .tag => some (r.tagMarkdown key)

/-- What to show for an occurrence. -/
def Response.hoverOf? (r : Response) (o : Occurrence) : Option HoverResult :=
  (r.markdown? o.family o.key).map (⟨·, o.range⟩)

/-- What to show at a position. -/
def Response.hoverAt? (r : Response) (p : Position) : Option HoverResult :=
  (r.occurrenceAtPosition? p).bind r.hoverOf?

end ArgdownLens
