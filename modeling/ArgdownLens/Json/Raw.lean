import ArgdownLens.Json.Token

/-!
# JSON texts as trees

A text is read into a tree that follows its brackets as far as they go (`Raw.ofTokens`). Reading
never fails: the place where the text stops being JSON is part of the tree, and since nothing is
read behind it, it is the last thing in the tree. A decoder that walks the tree in the order of the
text therefore meets the first fault of the text first, be it a fault of the grammar or of the
contents.

The reader keeps the open brackets on a stack, so that the depth of a text is not limited here.
-/

namespace ArgdownLens.Json

/-- How an array or an object ends. -/
inductive Ending where
  /-- With its closing bracket. -/
  | closed
  /-- Behind an entry (or right behind the opening bracket of an array) with neither a comma nor the
  closing bracket; with the token found there, `none` at the end of the text. -/
  | stopped (found : Option Token)
  /-- Where the key of a member should stand, right behind the opening bracket or behind a comma. -/
  | keyless (afterComma : Bool) (found : Option Token)
  deriving DecidableEq, Repr

/-- A JSON text as a tree, with the spelling of its strings and numbers kept. -/
inductive Raw where
  | null
  | bool (b : Bool)
  | number (l : Literal)
  | string (pieces : List Piece)
  | array (items : List Raw) (ending : Ending)
  | object (members : List (List Piece × Raw)) (ending : Ending)
  /-- No value: the token that stands in its place, `none` at the end of the text. -/
  | broken (found : Option Token)
  deriving Repr, Inhabited

namespace Raw

/-- A bracket that is open around the value being read, with the entries in front of that value,
newest first. -/
inductive Frame where
  | item (before : List Raw)
  | member (before : List (List Piece × Raw)) (key : List Piece)

/-- Where the reader stands in the innermost brackets. -/
inductive Place where
  /-- A value must follow. -/
  | value
  /-- Right behind the opening bracket of an array. -/
  | arrayStart
  /-- Behind an item. -/
  | afterItem (items : List Raw)
  /-- Right behind the opening bracket of an object. -/
  | objectStart
  /-- Behind a comma between members. -/
  | nextKey (members : List (List Piece × Raw))
  /-- Behind a key. -/
  | colon (members : List (List Piece × Raw)) (key : List Piece)
  /-- Behind a member. -/
  | afterMember (members : List (List Piece × Raw))

/-- A reader between two tokens. -/
inductive Reader where
  | reading (stack : List Frame) (place : Place)
  /-- The value is read, or the text is no JSON. `more` says whether a token follows. -/
  | finished (value : Raw) (more : Bool)

/-- The whole text, when the innermost value is the last thing in it. -/
def abandon : List Frame → Raw → Raw
  | [], v => v
  | .item before :: stack, v =>
    abandon stack (.array (v :: before).reverse (.stopped none))
  | .member before key :: stack, v =>
    abandon stack (.object ((key, v) :: before).reverse (.stopped none))

/-- The reader behind a complete value. -/
def complete : List Frame → Raw → Reader
  | [], v => .finished v false
  | .item before :: stack, v => .reading stack (.afterItem (v :: before))
  | .member before key :: stack, v => .reading stack (.afterMember ((key, v) :: before))

/-- The reader that has met the end of all JSON in the value `v`. -/
def giveUp (stack : List Frame) (v : Raw) : Reader :=
  .finished (abandon stack v) false

/-- Reads the token where a value must stand. -/
def beginValue (stack : List Frame) : Token → Reader
  | .null => complete stack .null
  | .bool b => complete stack (.bool b)
  | .number l => complete stack (.number l)
  | .string pieces => complete stack (.string pieces)
  | .openArray => .reading stack .arrayStart
  | .openObject => .reading stack .objectStart
  | t => giveUp stack (.broken (some t))

/-- Reads one token. -/
def Reader.step : Reader → Token → Reader
  | .finished v _, _ => .finished v true
  | .reading stack place, t =>
    match place, t with
    | .value, t => beginValue stack t
    | .arrayStart, .closeArray => complete stack (.array [] .closed)
    | .arrayStart, t => beginValue (.item [] :: stack) t
    | .afterItem items, .comma => .reading (.item items :: stack) .value
    | .afterItem items, .closeArray => complete stack (.array items.reverse .closed)
    | .afterItem items, t => giveUp stack (.array items.reverse (.stopped (some t)))
    | .objectStart, .closeObject => complete stack (.object [] .closed)
    | .objectStart, .string key => .reading stack (.colon [] key)
    | .objectStart, t => giveUp stack (.object [] (.keyless false (some t)))
    | .nextKey members, .string key => .reading stack (.colon members key)
    | .nextKey members, t => giveUp stack (.object members.reverse (.keyless true (some t)))
    | .colon members key, .colon => .reading (.member members key :: stack) .value
    | .colon members key, _ =>
      giveUp stack (.object ((key, .broken (some .junk)) :: members).reverse (.stopped none))
    | .afterMember members, .comma => .reading stack (.nextKey members)
    | .afterMember members, .closeObject => complete stack (.object members.reverse .closed)
    | .afterMember members, t => giveUp stack (.object members.reverse (.stopped (some t)))

/-- The innermost value when the text ends at a place. -/
def Place.cut : Place → Raw
  | .value => .broken none
  | .arrayStart => .array [] (.stopped none)
  | .afterItem items => .array items.reverse (.stopped none)
  | .objectStart => .object [] (.keyless false none)
  | .nextKey members => .object members.reverse (.keyless true none)
  | .colon members key => .object ((key, .broken none) :: members).reverse (.stopped none)
  | .afterMember members => .object members.reverse (.stopped none)

/-- The tree when the text ends here, and whether something stands behind it. -/
def Reader.finish : Reader → Raw × Bool
  | .finished v more => (v, more)
  | .reading stack place => (abandon stack place.cut, false)

/-- The tree of a text, and whether something stands behind it. -/
def ofTokens (ts : List Token) : Raw × Bool :=
  (ts.foldl Reader.step (.reading [] .value)).finish

/-- The tree of a text, and whether something stands behind it. -/
def ofSymbols (text : List Symbol) : Raw × Bool :=
  ofTokens (tokens text)

end Raw

end ArgdownLens.Json
