import ArgdownLens.Model.Entity
import ArgdownLens.Model.OrderedMap
import ArgdownLens.Tree.Node

/-!
# What the engine says about a document

The tree of the document, its statements and arguments by title, its tags if the engine was asked
for them, and the places where the document could not be parsed.
-/

namespace ArgdownLens

/-- A place where the document could not be parsed. -/
structure ParserError where
  message : String
  token : Span
  deriving DecidableEq, Repr, Inhabited

/-- The engine's answer for one document. -/
structure Response where
  ast : Node
  statements : OrderedMap EquivalenceClass := .empty
  arguments : OrderedMap Argument := .empty
  tags : Option OrderedSet := none
  parserErrors : List ParserError := []
  deriving Repr, Inhabited

namespace Response

/-- Adds a class under its title; a class under the same title is replaced. -/
def withStatement (r : Response) (c : EquivalenceClass) : Response :=
  { r with statements := r.statements.insert c.title c }

/-- Adds an argument under its title; an argument under the same title is replaced. -/
def withArgument (r : Response) (a : Argument) : Response :=
  { r with arguments := r.arguments.insert a.title a }

/-- Sets the tags; repeated ones count once. -/
def withTags (r : Response) (tags : List String) : Response :=
  { r with tags := some (OrderedSet.ofNames tags) }

/-- Adds a parser error behind the others. -/
def withParserError (r : Response) (e : ParserError) : Response :=
  { r with parserErrors := r.parserErrors ++ [e] }

/-- The class under a title. -/
def statement? (r : Response) (title : String) : Option EquivalenceClass :=
  r.statements.get? title

/-- The argument under a title. -/
def argument? (r : Response) (title : String) : Option Argument :=
  r.arguments.get? title

end Response

end ArgdownLens
