/-!
# UTF-8

Bytes as the characters that they spell, and characters as bytes. Reading never fails: a stretch of
bytes that begins like a character and does not go on like one is kept as a `Symbol.broken` of its
length, so that a reader further on can say whether such a stretch matters where it stands.

A broken stretch is as long as it can be: it ends before the first byte that cannot continue it.
That byte is then read afresh, so an ASCII byte is never swallowed.
-/

namespace ArgdownLens

/-- What stands next in a byte string read as UTF-8: a character, or a broken stretch of bytes. -/
inductive Symbol where
  /-- A well-formed character. -/
  | char (c : Char)
  /-- A maximal stretch of that many bytes which begins no character. -/
  | broken (bytes : Nat)
  deriving DecidableEq, Repr, Inhabited

/-- How many bytes the symbol takes. -/
def Symbol.byteCount : Symbol → Nat
  | .char c => c.utf8Size
  | .broken n => n

/-- The character, unless the symbol is broken. -/
def Symbol.char? : Symbol → Option Char
  | .char c => some c
  | .broken _ => none

namespace Utf8

/-- A character of which some bytes have been read: its bits so far, how many bytes were taken, how
many are left, and the bounds of the next one. The bounds of the second byte shut out overlong
forms, surrogates and values above U+10FFFF. -/
structure Begun where
  bits : Nat
  taken : Nat
  left : Nat
  low : UInt8 := 0x80
  high : UInt8 := 0xBF

/-- The character that the byte `b` begins, if `b` is the first byte of a longer form. -/
def Begun.ofLead? (b : UInt8) : Option Begun :=
  if 0xC2 ≤ b ∧ b ≤ 0xDF then some { bits := b.toNat - 0xC0, taken := 1, left := 1 }
  else if b = 0xE0 then some { bits := 0, taken := 1, left := 2, low := 0xA0 }
  else if b = 0xED then some { bits := 0xD, taken := 1, left := 2, high := 0x9F }
  else if 0xE1 ≤ b ∧ b ≤ 0xEF then some { bits := b.toNat - 0xE0, taken := 1, left := 2 }
  else if b = 0xF0 then some { bits := 0, taken := 1, left := 3, low := 0x90 }
  else if b = 0xF4 then some { bits := 4, taken := 1, left := 3, high := 0x8F }
  else if 0xF1 ≤ b ∧ b ≤ 0xF3 then some { bits := b.toNat - 0xF0, taken := 1, left := 3 }
  else none

/-- A reader between two bytes: the symbols read, newest first, and the character begun, if any. -/
structure Reader where
  done : List Symbol
  begun : Option Begun

/-- Reads a byte that begins a symbol. -/
def Reader.start (done : List Symbol) (b : UInt8) : Reader :=
  if b < 0x80 then ⟨.char (Char.ofNat b.toNat) :: done, none⟩
  else match Begun.ofLead? b with
    | some begun => ⟨done, some begun⟩
    | none => ⟨.broken 1 :: done, none⟩

/-- Reads one byte. -/
def Reader.step (r : Reader) (b : UInt8) : Reader :=
  match r.begun with
  | none => .start r.done b
  | some p =>
    if p.low ≤ b ∧ b ≤ p.high then
      let bits := p.bits * 64 + (b.toNat - 0x80)
      if p.left ≤ 1 then ⟨.char (Char.ofNat bits) :: r.done, none⟩
      else ⟨r.done, some { bits := bits, taken := p.taken + 1, left := p.left - 1 }⟩
    else .start (.broken p.taken :: r.done) b

/-- All symbols read, in order; a character left unfinished is a broken stretch. -/
def Reader.finish (r : Reader) : List Symbol :=
  match r.begun with
  | none => r.done.reverse
  | some p => (.broken p.taken :: r.done).reverse

/-- The symbols of a byte string. -/
def symbols (bytes : List UInt8) : List Symbol :=
  (bytes.foldl Reader.step ⟨[], none⟩).finish

/-- The bytes of a text. -/
def encode (text : String) : List UInt8 :=
  text.toList.flatMap String.utf8EncodeChar

/-- The text that the bytes spell, if they are well formed throughout. -/
def decode? (bytes : List UInt8) : Option String :=
  ((symbols bytes).mapM Symbol.char?).map String.ofList

/-- The text that the bytes spell, with U+FFFD for each broken stretch. -/
def decodeLossy (bytes : List UInt8) : String :=
  String.ofList ((symbols bytes).map fun s => s.char?.getD '\uFFFD')

end Utf8

end ArgdownLens
