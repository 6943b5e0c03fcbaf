import ArgdownLens.Json.Value

/-!
# Writing JSON

The compact text of a value: no white space, members in their order, and only those characters of a
string escaped that have to be. The quote, the backslash and the controls with a letter are escaped
in two characters, the other controls as `\u00XX` in lower case; everything else is written as it
is.
-/

namespace ArgdownLens.Json

/-- The written form of one character of a string. -/
def escapeChar (c : Char) : List Char :=
  match c with
  | '"' => ['\\', '"']
  | '\\' => ['\\', '\\']
  | '\x08' => ['\\', 'b']
  | '\x0C' => ['\\', 'f']
  | '\n' => ['\\', 'n']
  | '\r' => ['\\', 'r']
  | '\t' => ['\\', 't']
  | c =>
    if c < ' ' then
      ['\\', 'u', '0', '0', Nat.digitChar (c.toNat / 16), Nat.digitChar (c.toNat % 16)]
    else [c]

/-- The written form of a string, between its quotes. -/
def writeString (s : String) : List Char :=
  '"' :: s.toList.flatMap escapeChar ++ ['"']

mutual

/-- The compact text of a value. -/
def Value.write : Value → List Char
  | .null => ['n', 'u', 'l', 'l']
  | .bool true => ['t', 'r', 'u', 'e']
  | .bool false => ['f', 'a', 'l', 's', 'e']
  | .number n => n.text.toList
  | .string s => writeString s
  | .array [] => ['[', ']']
  | .array (v :: vs) => '[' :: v.write ++ Value.writeItems vs
  | .object [] => ['\x7b', '\x7d']
  | .object ((key, v) :: ms) =>
    '\x7b' :: writeString key ++ ':' :: v.write ++ Value.writeMembers ms

/-- The items behind the first one, each behind its comma, and the closing bracket. -/
def Value.writeItems : List Value → List Char
  | [] => [']']
  | v :: vs => ',' :: v.write ++ Value.writeItems vs

/-- The members behind the first one, each behind its comma, and the closing bracket. -/
def Value.writeMembers : List (String × Value) → List Char
  | [] => ['\x7d']
  | (key, v) :: ms => ',' :: writeString key ++ ':' :: v.write ++ Value.writeMembers ms

end

/-- The compact text of a value. -/
def Value.text (v : Value) : String :=
  String.ofList v.write

end ArgdownLens.Json
