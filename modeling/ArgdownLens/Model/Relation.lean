/-!
# Relations between statements and arguments

A relation leads from one entity to another. Its symbol, pointed at the end from which it is looked
at, is how Argdown writes it.
-/

namespace ArgdownLens

/-- How one entity bears on another. -/
inductive RelationType where
  | support | attack | undercut | entails | contrary | contradictory
  deriving DecidableEq, Repr, Inhabited

namespace RelationType

/-- The symbol without a direction. -/
def symbol : RelationType → String
  | .support | .entails => "+"
  | .attack | .contrary => "-"
  | .undercut => "_"
  | .contradictory => "><"

/-- The symbol as it is written at one end of the relation. A contradiction has no direction. -/
def directedSymbol (t : RelationType) (fromTarget : Bool) : String :=
  match t, fromTarget with
  | .contradictory, _ => t.symbol
  | _, true => "<" ++ t.symbol
  | _, false => t.symbol ++ ">"

end RelationType

/-- A statement or an argument, by its title. -/
inductive EntityRef where
  | statement (title : String)
  | argument (title : String)
  deriving DecidableEq, Repr, Inhabited

namespace EntityRef

/-- The title of the entity. -/
def title : EntityRef → String
  | .statement t | .argument t => t

/-- The entity as Argdown refers to it. -/
def toArgdown : EntityRef → String
  | .statement t => "[" ++ t ++ "]"
  | .argument t => "<" ++ t ++ ">"

end EntityRef

/-- A relation from one entity to another. -/
structure Relation where
  type : RelationType
  source : EntityRef
  target : EntityRef
  deriving DecidableEq, Repr, Inhabited

end ArgdownLens
