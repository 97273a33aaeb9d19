/-!
# Double precision numbers

IEEE 754 binary64 numbers by their bits; every operation is exact arithmetic on natural numbers.

* `numerator`, `denominator` : the magnitude of a finite number as a fraction;
* `sameNumber` : equality of numbers, in which a NaN differs from itself and both zeros agree;
* `nearest` : the number nearest to a fraction, a tie going to the even neighbour;
* `ofDecimal` : the number nearest to a decimal.
-/

namespace SqlComposer

/-- A double precision number, given by its bits. -/
structure Binary64 where
  bits : UInt64
  deriving DecidableEq

namespace Binary64

/-- The sign bit. -/
def isNegative (x : Binary64) : Bool :=
  Nat.pow 2 63 ≤ x.bits.toNat

/-- The biased exponent. -/
def exponentField (x : Binary64) : Nat :=
  x.bits.toNat / Nat.pow 2 52 % Nat.pow 2 11

/-- The digits after the leading one. -/
def fractionField (x : Binary64) : Nat :=
  x.bits.toNat % Nat.pow 2 52

/-- Neither an infinity nor a NaN. -/
def isFinite (x : Binary64) : Bool :=
  x.exponentField != 2047

def isNaN (x : Binary64) : Bool :=
  x.exponentField == 2047 && x.fractionField != 0

def isZero (x : Binary64) : Bool :=
  x.bits.toNat % Nat.pow 2 63 == 0

/-- Greater than zero. -/
def isPositive (x : Binary64) : Bool :=
  !x.isNegative && !x.isZero && !x.isNaN

/-- Equal as numbers: a NaN equals nothing, the two zeros equal each other. -/
def sameNumber (x y : Binary64) : Bool :=
  !x.isNaN && !y.isNaN && (x.bits == y.bits || (x.isZero && y.isZero))

/-- The whole significand: subnormal numbers have no leading one. -/
def significand (x : Binary64) : Nat :=
  if x.exponentField = 0 then x.fractionField else Nat.pow 2 52 + x.fractionField

/-- The biased exponent with the one of the subnormal numbers adjusted. -/
def scaleField (x : Binary64) : Nat :=
  max x.exponentField 1

/-- The magnitude of a finite number is `numerator / denominator`. -/
def numerator (x : Binary64) : Nat :=
  x.significand * Nat.pow 2 (x.scaleField - 1075)

/-- A power of two. -/
def denominator (x : Binary64) : Nat :=
  Nat.pow 2 (1075 - x.scaleField)

/-- The whole part of the magnitude of a finite number. -/
def wholePart (x : Binary64) : Nat :=
  x.numerator / x.denominator

theorem denominator_pos (x : Binary64) : 0 < x.denominator :=
  Nat.two_pow_pos _

/-! ## Rounding -/

/-- The number with the given sign whose other bits are `magnitude`. -/
def ofMagnitude (negative : Bool) (magnitude : Nat) : Binary64 :=
  ⟨UInt64.ofNat (magnitude + if negative then Nat.pow 2 63 else 0)⟩

/-- The bits of infinity without sign. -/
def infinityBits : Nat :=
  2047 * Nat.pow 2 52

/-- The infinity of the given sign. -/
def infinity (negative : Bool) : Binary64 :=
  ofMagnitude negative infinityBits

/-- The zero of the given sign. -/
def zero (negative : Bool) : Binary64 :=
  ofMagnitude negative 0

/-- The whole number nearest to `n / d`, a half going to the even neighbour. -/
def roundHalfEven (n d : Nat) : Nat :=
  let q := n / d
  if 2 * (n % d) < d then q
  else if d < 2 * (n % d) then q + 1
  else if q % 2 = 0 then q else q + 1

/-- The exponent of the last binary place of the fraction `n / d`: 53 places are kept,
fewer below the smallest normal number. -/
def lastPlace (n d : Nat) : Int :=
  let guess : Int := (n.log2 : Int) - (d.log2 : Int) - 52
  let low : Bool :=
    if guess < 0 then n * Nat.pow 2 guess.natAbs < d * Nat.pow 2 52 else n < d * Nat.pow 2 (52 + guess.toNat)
  max (-1074) (if low then guess - 1 else guess)

/-- The number nearest to `n / d` for positive `d`, a tie going to the even neighbour;
an infinity beyond the largest number. -/
def nearest (negative : Bool) (n d : Nat) : Binary64 :=
  if n = 0 then zero negative
  else
    let e := lastPlace n d
    let q := if e < 0 then roundHalfEven (n * Nat.pow 2 e.natAbs) d else roundHalfEven n (d * Nat.pow 2 e.toNat)
    ofMagnitude negative (min infinityBits ((e + 1074).toNat * Nat.pow 2 52 + q))

/-- The number nearest to `m · 10 ^ k`. Decimals far out of range are decided by their size alone. -/
def ofDecimal (negative : Bool) (m : Nat) (k : Int) : Binary64 :=
  let size : Int := (Nat.toDigits 10 m).length + k
  if m = 0 then zero negative
  else if 310 < size then infinity negative
  else if size < -400 then zero negative
  else if k < 0 then nearest negative m (Nat.pow 10 k.natAbs)
  else nearest negative (m * Nat.pow 10 k.toNat) 1

/-- The product of the magnitudes of two finite numbers, rounded. -/
def product (negative : Bool) (x y : Binary64) : Binary64 :=
  nearest negative (x.numerator * y.numerator) (x.denominator * y.denominator)

/-- The quotient of the magnitudes of two finite numbers, rounded; `y` is not zero. -/
def quotient (negative : Bool) (x y : Binary64) : Binary64 :=
  nearest negative (x.numerator * y.denominator) (x.denominator * y.numerator)

end Binary64

end SqlComposer
