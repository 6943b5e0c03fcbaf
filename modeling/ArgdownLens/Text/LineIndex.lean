import ArgdownLens.Position

/-!
# Lines of a text

A text is cut at its newlines, and each line knows at which byte it begins. That takes an editor's
position to a byte of the text.
-/

namespace ArgdownLens

namespace Text

/-- The number of bytes of some characters in UTF-8. -/
def byteSize : List Char → Nat
  | [] => 0
  | c :: cs => c.utf8Size + byteSize cs

/-- The number of code units of a character in UTF-16. -/
def units16 (c : Char) : Nat :=
  if c.toNat < 0x10000 then 1 else 2

/-- The lines of a text, without the newlines between them. There is always at least one. -/
def lines : List Char → List (List Char)
  | [] => [[]]
  | c :: cs =>
    if c = '\n' then [] :: lines cs
    else match lines cs with
      | [] => [[c]]
      | line :: rest => (c :: line) :: rest

/-- The characters that take exactly the first `bytes` bytes; `none` if the text is shorter or a
character stands across that border. -/
def upTo? (bytes : Nat) : List Char → Option (List Char)
  | [] => if bytes = 0 then some [] else none
  | c :: cs =>
    if bytes = 0 then some []
    else if c.utf8Size ≤ bytes then (upTo? (bytes - c.utf8Size) cs).map (c :: ·)
    else none

/-- How many bytes of a line stand before a column: those of the shortest beginning that has at
least `character` code units, or all of them. -/
def columnBytes (character : Nat) : List Char → Nat
  | [] => 0
  | c :: cs =>
    if character = 0 then 0
    else c.utf8Size + columnBytes (character - units16 c) cs

end Text

/-- A stretch of bytes of a text, without the byte at `stop`. -/
structure ByteRange where
  start : Nat
  stop : Nat
  deriving DecidableEq, Repr

/-- A line: the byte at which it begins, and its characters. -/
structure Line where
  start : Nat
  chars : List Char
  deriving DecidableEq, Repr

/-- The bytes of the line. -/
def Line.range (l : Line) : ByteRange :=
  ⟨l.start, l.start + Text.byteSize l.chars⟩

/-- The lines of a text in order. -/
structure LineIndex where
  lines : List Line
  deriving DecidableEq, Repr

namespace LineIndex

/-- Gives each line the byte at which it begins, when the first one begins at `start`. -/
def place (start : Nat) : List (List Char) → List Line
  | [] => []
  | cs :: rest => ⟨start, cs⟩ :: place (start + Text.byteSize cs + 1) rest

/-- The index of a text. -/
def ofText (text : String) : LineIndex :=
  ⟨place 0 (Text.lines text.toList)⟩

/-- How many lines there are. -/
def lineCount (index : LineIndex) : Nat :=
  index.lines.length

/-- The bytes of a line without its newline. -/
def lineRange? (index : LineIndex) (line : Nat) : Option ByteRange :=
  index.lines[line]?.map Line.range

/-- The byte at a position. A column behind the end of its line is the end of the line, and one
inside a character is the end of the character; a line that does not exist has none. -/
def offset? (index : LineIndex) (position : Position) : Option Nat :=
  index.lines[position.line]?.map fun l =>
    l.start + Text.columnBytes position.character l.chars

end LineIndex

end ArgdownLens
