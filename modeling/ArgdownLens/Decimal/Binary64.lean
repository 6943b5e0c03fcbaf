/-!
# Binary floating point with 53 digits

Finite numbers `± mantissa · 2 ^ exponent`, as a 64-bit floating-point word holds them: the mantissa
has at most 53 binary digits and the exponent is at least -1074. A positive ratio is rounded to the
nearest of these, a tie to the even mantissa; a ratio too large to be rounded to a finite one has no
nearest. Everything is computed in exact integer arithmetic.
-/

namespace ArgdownLens.Decimal

/-- A finite number `± mantissa · 2 ^ exponent`. Zero keeps its sign. -/
structure Binary64 where
  negative : Bool
  mantissa : Nat
  exponent : Int
  deriving DecidableEq, Repr, Inhabited

namespace Binary64

/-- The least exponent. -/
def minExponent : Int := -1074

/-- The greatest exponent. -/
def maxExponent : Int := 971

/-- `num / den`, rounded to the nearest integer, a tie to the even one. -/
def divNearest (num den : Nat) : Nat :=
  let quotient := num / den
  let twice := 2 * (num % den)
  if den < twice ∨ (twice = den ∧ quotient % 2 = 1) then quotient + 1 else quotient

/-- The number nearest to `num / den · 2 ^ scale`, for a positive `den`. -/
def ofRatio? (num den : Nat) (scale : Int) : Option Binary64 :=
  let num := num * Nat.pow 2 scale.toNat
  let den := den * Nat.pow 2 (-scale).toNat
  if num = 0 then some ⟨false, 0, minExponent⟩
  else
    let guess : Int := (num.log2 : Int) - den.log2 - 52
    -- The quotient by `2 ^ guess` has 52 or 53 binary digits; the exponent below makes it 53.
    let isShort := num * Nat.pow 2 (-guess).toNat < den * Nat.pow 2 guess.toNat * Nat.pow 2 52
    let exponent := max (if isShort then guess - 1 else guess) minExponent
    let mantissa :=
      divNearest (num * Nat.pow 2 (-exponent).toNat) (den * Nat.pow 2 exponent.toNat)
    let carried := mantissa = Nat.pow 2 53
    let result : Binary64 :=
      if carried then ⟨false, Nat.pow 2 52, exponent + 1⟩ else ⟨false, mantissa, exponent⟩
    if maxExponent < result.exponent then none else some result

/-- The number nearest to a natural number. -/
def ofNat? (n : Nat) : Option Binary64 :=
  ofRatio? n 1 0

/-- Whether the number is zero, of either sign. -/
def isZero (x : Binary64) : Bool :=
  x.mantissa == 0

/-- The magnitude of the product, rounded. -/
def mul? (x y : Binary64) : Option Binary64 :=
  ofRatio? (x.mantissa * y.mantissa) 1 (x.exponent + y.exponent)

/-- The magnitude of the quotient by a number that is not zero, rounded. -/
def div? (x y : Binary64) : Option Binary64 :=
  ofRatio? x.mantissa y.mantissa (x.exponent - y.exponent)

/-- The number nearest to a power of ten. -/
def powerOfTen? (n : Nat) : Option Binary64 :=
  ofNat? (Nat.pow 10 n)

/-- The greatest power of ten that is finite. -/
def maxPower : Nat := 308

/-- `x / 10 ^ n` in steps of at most `10 ^ 308`, each rounded. -/
def divPower? (x : Binary64) (n : Nat) : Option Binary64 :=
  if n ≤ maxPower then (powerOfTen? n).bind x.div?
  else if x.isZero then some x
  else ((powerOfTen? maxPower).bind x.div?).bind (·.divPower? (n - maxPower))
termination_by n
decreasing_by simp only [maxPower] at *; omega

/-- `x · 10 ^ exponent`, rounded at each step. Powers that are not finite leave zero alone and take
every other number out of range. -/
def scale? (x : Binary64) (exponent : Int) : Option Binary64 :=
  match exponent with
  | .ofNat n =>
    if n ≤ maxPower then (powerOfTen? n).bind x.mul?
    else if x.isZero then some x
    else none
  | .negSucc n => x.divPower? (n + 1)

end Binary64

end ArgdownLens.Decimal
