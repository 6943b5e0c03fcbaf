import ArgdownLens.Decimal.Shortest

/-!
# JSON numbers

A number literal is kept as its digits (`Literal`) until somebody wants its value. `Scan` reads a
literal character by character. The value (`Literal.value?`) is an integer as long as the literal is
written as one and fits into 64 bits; all other literals are binary floating-point numbers, and a
literal beyond the greatest of those has no value.
-/

namespace ArgdownLens.Json

open Decimal (Binary64)

/-- The decimal digits behind an exponent mark. -/
structure Exponent where
  negative : Bool
  digits : List Nat
  deriving DecidableEq, Repr

/-- A number literal, digit by digit. No fraction is an empty list. -/
structure Literal where
  negative : Bool := false
  whole : List Nat := []
  fraction : List Nat := []
  exponent : Option Exponent := none
  deriving DecidableEq, Repr

/-- The value of a number literal. -/
inductive Number where
  /-- A natural number below `2 ^ 64`. -/
  | natural (n : Nat)
  /-- The integer `-n`, for `n` from `1` to `2 ^ 63`. -/
  | negative (n : Nat)
  /-- Every other value. -/
  | real (x : Binary64)
  deriving DecidableEq, Repr, Inhabited

/-- The text of a number. -/
def Number.text : Number → String
  | .natural n => String.ofList (Nat.toDigits 10 n)
  | .negative n => String.ofList ('-' :: Nat.toDigits 10 n)
  | .real x => x.text

/-! ## The value of a literal -/

/-- The greatest significand that is kept digit by digit. -/
def maxSignificand : Nat := 0xFFFFFFFFFFFFFFFF

/-- The significand of the whole digits and the number of digits dropped: once a digit does not fit,
it and all digits behind it are dropped. -/
def wholePart (digits : List Nat) : Nat × Nat :=
  digits.foldl (fun (significand, dropped) d =>
    if 0 < dropped ∨ maxSignificand < significand * 10 + d then (significand, dropped + 1)
    else (significand * 10 + d, 0)) (0, 0)

/-- The significand with the fraction's digits appended as long as they fit, and their number. -/
def withFraction (significand taken : Nat) : List Nat → Nat × Nat
  | [] => (significand, taken)
  | d :: ds =>
    if maxSignificand < significand * 10 + d then (significand, taken)
    else withFraction (significand * 10 + d) (taken + 1) ds

/-- Exponents above this one are not scaled by. -/
def maxExponentValue : Nat := 0x7FFFFFFF

/-- The number that the digits of a natural number denote. -/
def ofDigits (digits : List Nat) : Nat :=
  digits.foldl (fun n d => n * 10 + d) 0

/-- The magnitude of a literal with the given significand, scaled by its power of ten. -/
def scaled? (significand : Nat) (shift : Int) (exponent : Option Exponent) : Option Binary64 := do
  let base ← Binary64.ofNat? significand
  match exponent with
  | none => base.scale? shift
  | some e =>
    let n := ofDigits e.digits
    if maxExponentValue < n then
      if significand ≠ 0 ∧ ¬ e.negative then none else return ⟨false, 0, Binary64.minExponent⟩
    else base.scale? (if e.negative then shift - n else shift + n)

/-- The value of a literal; `none` if it lies out of range. An integer needs no rounding. Otherwise
the leading digits that fit into 64 bits are rounded once, and once more for each power of ten. -/
def Literal.value? (l : Literal) : Option Number :=
  let (significand, dropped) := wholePart l.whole
  if dropped = 0 ∧ l.fraction = [] ∧ l.exponent = none then
    if ¬ l.negative then some (.natural significand)
    else if 0 < significand ∧ significand ≤ 0x8000000000000000 then some (.negative significand)
    else (Binary64.ofNat? significand).map fun x => .real { x with negative := true }
  else
    let (significand, taken) := withFraction significand 0 l.fraction
    (scaled? significand ((dropped : Int) - taken) l.exponent).map fun x =>
      .real { x with negative := l.negative }

/-! ## Reading a literal -/

/-- The value of a decimal digit. -/
def digit? (c : Char) : Option Nat :=
  if '0' ≤ c ∧ c ≤ '9' then some (c.toNat - '0'.toNat) else none

/-- The part of a literal that was read last. -/
inductive Phase where
  | sign | zero | whole | point | fraction | mark | markSign | exponent
  deriving DecidableEq, Repr

/-- Whether a literal may end after this part. -/
def Phase.mayEnd : Phase → Bool
  | .zero | .whole | .fraction | .exponent => true
  | .sign | .point | .mark | .markSign => false

/-- A literal of which some characters have been read; its digit lists have the newest digit first.
-/
structure Scan where
  phase : Phase
  literal : Literal

/-- What a further character does to a literal. -/
inductive ScanStep where
  /-- It belongs to the literal. -/
  | next (s : Scan)
  /-- It stands behind the literal. -/
  | stop
  /-- It makes the literal wrong. -/
  | wrong

/-- The scan that the first character of a number begins. -/
def Scan.start? (c : Char) : Option Scan :=
  if c = '-' then some ⟨.sign, { negative := true }⟩
  else (digit? c).map fun d => ⟨if d = 0 then .zero else .whole, { whole := [d] }⟩

/-- The literal with a mark `e` at its end. -/
def Literal.marked (l : Literal) : Literal :=
  { l with exponent := some ⟨false, []⟩ }

/-- The literal with one more digit of the exponent. -/
def Literal.pushExponent (l : Literal) (d : Nat) : Literal :=
  let e := l.exponent.getD ⟨false, []⟩
  { l with exponent := some { e with digits := d :: e.digits } }

/-- Reads one more character of a literal. There is at most one leading zero. -/
def Scan.step (s : Scan) (c : Char) : ScanStep :=
  let isMark := c = 'e' ∨ c = 'E'
  match s.phase, digit? c with
  | .sign, some d =>
    .next ⟨if d = 0 then .zero else .whole, { s.literal with whole := [d] }⟩
  | .zero, some _ => .wrong
  | .whole, some d => .next { s with literal.whole := d :: s.literal.whole }
  | .point, some d | .fraction, some d =>
    .next ⟨.fraction, { s.literal with fraction := d :: s.literal.fraction }⟩
  | .mark, some d | .markSign, some d | .exponent, some d =>
    .next ⟨.exponent, s.literal.pushExponent d⟩
  | .zero, none | .whole, none =>
    if c = '.' then .next { s with phase := .point }
    else if isMark then .next ⟨.mark, s.literal.marked⟩
    else .stop
  | .fraction, none => if isMark then .next ⟨.mark, s.literal.marked⟩ else .stop
  | .mark, none =>
    if c = '+' then .next { s with phase := .markSign }
    else if c = '-' then
      .next ⟨.markSign, { s.literal with exponent := some ⟨true, []⟩ }⟩
    else .wrong
  | .exponent, none => .stop
  | .sign, none | .point, none | .markSign, none => .wrong

/-- The literal that has been read, with its digits in order. -/
def Scan.finish (s : Scan) : Literal :=
  let l := s.literal
  { l with
    whole := l.whole.reverse
    fraction := l.fraction.reverse
    exponent := l.exponent.map fun e => { e with digits := e.digits.reverse } }

end ArgdownLens.Json
