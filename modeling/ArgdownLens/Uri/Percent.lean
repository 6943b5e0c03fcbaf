import ArgdownLens.Json.Token

/-!
# Percent encoding

A percent sign and two hexadecimal digits stand for one byte. Everything else, also a percent sign
without such digits, stands for itself.
-/

namespace ArgdownLens.Uri

/-- The value of a byte that is a hexadecimal digit of either case. -/
def hexByte? (b : UInt8) : Option Nat :=
  Json.hexDigit? (Char.ofNat b.toNat)

/-- The bytes that some percent-encoded bytes stand for. -/
def percentDecode : List UInt8 → List UInt8
  | [] => []
  | b :: high :: low :: rest =>
    if b = 0x25 then
      match hexByte? high, hexByte? low with
      | some h, some l => UInt8.ofNat (h * 16 + l) :: percentDecode rest
      | _, _ => b :: percentDecode (high :: low :: rest)
    else b :: percentDecode (high :: low :: rest)
  | b :: rest => b :: percentDecode rest

/-- The bytes that never need encoding in a URI: ASCII letters and digits, and `-`, `_`, `.`, `~`.
-/
def isUnreserved (b : UInt8) : Bool :=
  let c := Char.ofNat b.toNat
  b < 0x80 && (c.isAlphanum || c == '-' || c == '_' || c == '.' || c == '~')

/-- A byte as it is written in a URI. -/
def percentEncodeByte (b : UInt8) : List Char :=
  if isUnreserved b then [Char.ofNat b.toNat]
  else ['%', (Nat.digitChar (b.toNat / 16)).toUpper, (Nat.digitChar (b.toNat % 16)).toUpper]

/-- A text as it is written in a segment of a URI. -/
def percentEncode (text : String) : List Char :=
  (Utf8.encode text).flatMap percentEncodeByte

end ArgdownLens.Uri
