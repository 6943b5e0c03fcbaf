import ArgdownLens.Model.Relation
import ArgdownLens.Span

/-!
# Statements and arguments

Everything that a document says about one title: the texts under it and where they stand, how it is
related to other entities, and its tags.
-/

namespace ArgdownLens

/-- One text given for a statement, or one description of an argument. -/
structure Member where
  text : String
  span : Span
  isCanonical : Bool := false
  deriving DecidableEq, Repr, Inhabited

/-- The member to show for an entity: the first that is marked canonical, else the last with a text.
-/
def canonicalMember? (members : List Member) : Option Member :=
  (members.find? (·.isCanonical)).or (members.reverse.find? fun m => m.text ≠ "")

/-- All statements of a document under one title. -/
structure EquivalenceClass where
  title : String
  members : List Member := []
  relations : List Relation := []
  tags : List String := []
  deriving DecidableEq, Repr, Inhabited

/-- The text to show for the class. -/
def EquivalenceClass.canonicalText? (c : EquivalenceClass) : Option String :=
  (canonicalMember? c.members).map Member.text

/-- Whether the class carries the tag. -/
def EquivalenceClass.hasTag (c : EquivalenceClass) (tag : String) : Bool :=
  tag ∈ c.tags

/-- A premise-conclusion structure: where it stands and the titles of its statements. -/
structure Reconstruction where
  span : Span
  statements : List String := []
  deriving DecidableEq, Repr, Inhabited

/-- An argument of a document. -/
structure Argument where
  title : String
  descriptions : List Member := []
  reconstruction : Option Reconstruction := none
  relations : List Relation := []
  tags : List String := []
  deriving DecidableEq, Repr, Inhabited

/-- The description to show for the argument. -/
def Argument.canonicalDescription? (a : Argument) : Option Member :=
  canonicalMember? a.descriptions

/-- Where the argument's premises and conclusions stand, if it has any. -/
def Argument.reconstructionSpan? (a : Argument) : Option Span :=
  (a.reconstruction.filter fun r => r.statements ≠ []).map Reconstruction.span

/-- Whether the argument carries the tag. -/
def Argument.hasTag (a : Argument) (tag : String) : Bool :=
  tag ∈ a.tags

end ArgdownLens
