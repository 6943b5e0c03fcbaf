import ArgdownLens.Text.Plain

/-!
# Quoted texts

A text between double quotes in which nothing is ambiguous to the eye: the quote and the backslash
are escaped, NUL and the common line controls have their letters, and every other character that
cannot be shown as it is stands as its code point in braces.
-/

namespace ArgdownLens.Text

/-- The digits of `n` in the base, at most sixteen, in lower case. -/
def digits (base n : Nat) : List Char :=
  Nat.toDigits base n

/-- The quoted form of one character. -/
def quoteChar (c : Char) : List Char :=
  match c with
  | '\x00' => ['\\', '0']
  | '\t' => ['\\', 't']
  | '\r' => ['\\', 'r']
  | '\n' => ['\\', 'n']
  | '\\' => ['\\', '\\']
  | '"' => ['\\', '"']
  | c =>
    if isPlain c then [c]
    else ['\\', 'u', '\x7b'] ++ digits 16 c.toNat ++ ['\x7d']

/-- The text between double quotes, with everything that is not plain escaped. -/
def quoted (text : String) : String :=
  String.ofList ('"' :: text.toList.flatMap quoteChar ++ ['"'])

end ArgdownLens.Text
