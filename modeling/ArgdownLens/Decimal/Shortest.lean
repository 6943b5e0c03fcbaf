import ArgdownLens.Decimal.Binary64

/-!
# Shortest decimals

The decimal with the fewest digits that still rounds to a given binary number, and its text. For one
digit, two digits, and so on up to seventeen, the two neighbours of the number on that decimal grid
are tried; the first grid with a neighbour that rounds to the number wins, and of two such
neighbours the nearer one does.
-/

namespace ArgdownLens.Decimal

/-- How many decimal digits a number has. -/
def digitCount (n : Nat) : Nat :=
  (Nat.toDigits 10 n).length

/-- `n · 2 ^ twos · 10 ^ tens` as a numerator and a denominator. -/
def ratio (n : Nat) (twos tens : Int) : Nat × Nat :=
  (n * Nat.pow 2 twos.toNat * Nat.pow 10 tens.toNat,
    Nat.pow 2 (-twos).toNat * Nat.pow 10 (-tens).toNat)

/-- The `k` with `10 ^ (k - 1) ≤ num / den < 10 ^ k`, for positive numbers. -/
def decimalSize (num den : Nat) : Int :=
  if den ≤ num then digitCount (num / den)
  else
    let zeros := digitCount den - digitCount num
    if den ≤ num * Nat.pow 10 zeros then 1 - (zeros : Int) else -(zeros : Int)

namespace Binary64

/-- Whether the positive ratio `num / den` rounds to the magnitude of `x`. The ends of the interval
count if the mantissa is even; below a power of two the neighbours are twice as close. -/
def isNearest (x : Binary64) (num den : Nat) : Bool :=
  let isTight := x.mantissa == Nat.pow 2 52 && x.exponent != minExponent
  let (low, lowDen) := ratio (4 * x.mantissa - if isTight then 1 else 2) (x.exponent - 2) 0
  let (high, highDen) := ratio (4 * x.mantissa + 2) (x.exponent - 2) 0
  let above := num * lowDen
  let below := num * highDen
  if x.mantissa % 2 == 0 then low * den ≤ above && below ≤ high * den
  else low * den < above && below < high * den

/-- The neighbour of the magnitude on the grid of multiples of `10 ^ step` that rounds to it. -/
def onGrid? (x : Binary64) (step : Int) : Option Nat :=
  let (num, den) := ratio x.mantissa x.exponent (-step)
  let floor := num / den
  let fits (n : Nat) : Bool :=
    let (a, b) := ratio n 0 step
    x.isNearest a b
  let twice := 2 * (num % den)
  let preferUp := den < twice || (twice == den && floor % 2 == 1)
  match fits floor, fits (floor + 1) with
  | true, true => some (if preferUp then floor + 1 else floor)
  | true, false => some floor
  | false, true => some (floor + 1)
  | false, false => none

/-- The digits of the shortest decimal for a number that is not zero, without zeros at the end, and
the exponent of its first digit. -/
def shortest (x : Binary64) : List Char × Int :=
  let (num, den) := ratio x.mantissa x.exponent 0
  let size := decimalSize num den
  let pick (count : Nat) : Option (List Char × Int) :=
    (x.onGrid? (size - count)).map fun n =>
      let ds := Nat.toDigits 10 n
      ((ds.reverse.dropWhile (· == '0')).reverse, size - count + ds.length - 1)
  ((List.range 17).findSome? fun i => pick (i + 1)).getD (['0'], 0)

end Binary64

/-- How a decimal is laid out: the first and the last exponent that are written positionally. -/
structure Layout where
  firstPositional : Int
  lastPositional : Int

/-- The text of digits `d₀.d₁d₂… · 10 ^ exponent`. A positional text always has a point with a digit
behind it; the others have a mark `e` and a signed exponent. -/
def Layout.write (layout : Layout) (digits : List Char) (exponent : Int) : List Char :=
  if layout.firstPositional ≤ exponent ∧ exponent ≤ layout.lastPositional then
    match exponent with
    | .ofNat n =>
      let whole := digits.take (n + 1)
      let fraction := digits.drop (n + 1)
      whole ++ List.replicate (n + 1 - whole.length) '0' ++ '.' ::
        (if fraction.isEmpty then ['0'] else fraction)
    | .negSucc n => ['0', '.'] ++ List.replicate n '0' ++ digits
  else
    let fraction := digits.drop 1
    digits.take 1 ++ (if fraction.isEmpty then [] else '.' :: fraction) ++
      ['e', if exponent < 0 then '-' else '+'] ++ Nat.toDigits 10 exponent.natAbs

/-- Numbers from 0.00001 up to sixteen digits before the point are written positionally. -/
def plainLayout : Layout := ⟨-5, 15⟩

/-- The text of a number: the shortest decimal that rounds to it. -/
def Binary64.text (x : Binary64) : String :=
  let magnitude :=
    if x.isZero then ['0', '.', '0']
    else
      let (digits, exponent) := x.shortest
      plainLayout.write digits exponent
  String.ofList (if x.negative then '-' :: magnitude else magnitude)

end ArgdownLens.Decimal
