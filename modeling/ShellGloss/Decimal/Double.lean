/-
Module: ShellGloss.Decimal.Double
Purpose: Double-precision numbers as exact values, and the nearest one to a
  decimal.
Main exports:
  Double, Double.ofDecimal, Double.toInt?, Double.equalsInt
-/

namespace ShellGloss.Decimal

/-!
A number with a fraction is kept as the double nearest to what was written.
The value is held as a whole mantissa times a power of two, so every question
about it (is it whole, which digits name it) is answered in whole numbers.
-/

/-- A double-precision number: `mantissa * 2 ^ exponent` with a sign, an
infinity, or no number at all. -/
inductive Double where
  | notANumber
  | infinite (negative : Bool)
  | finite (negative : Bool) (mantissa : Nat) (exponent : Int)
deriving Repr, Inhabited, DecidableEq

/-- A quotient rounded to the nearest whole number, a half to the even
neighbour. -/
def roundedQuotient (numerator denominator : Nat) : Nat :=
  let quotient := numerator / denominator
  let twice := 2 * (numerator % denominator)
  if twice < denominator then quotient
  else if denominator < twice then quotient + 1
  else if quotient % 2 = 0 then quotient
  else quotient + 1

namespace Double

/-- Bits of a mantissa. -/
def precision : Nat := 53

/-- The least exponent, reached by the subnormal numbers. -/
def leastExponent : Int := -1074

/-- The greatest exponent; a rounded value beyond it is infinite. -/
def greatestExponent : Int := 971

/-- Zero, with a sign. -/
def zero (negative : Bool) : Double := .finite negative 0 leastExponent

/-- `numerator / denominator` counted in units of `2 ^ exponent`. -/
def inUnits (numerator denominator : Nat) (exponent : Int) : Nat × Nat :=
  if 0 ≤ exponent then
    (numerator, denominator * Nat.pow 2 exponent.toNat)
  else
    (numerator * Nat.pow 2 (-exponent).toNat, denominator)

/-- The exponent at which a positive quotient has a mantissa of full precision,
or the least exponent when it is too small for that. -/
def unitExponent (numerator denominator : Nat) : Int :=
  let low : Int := (numerator.log2 : Int) - (denominator.log2 : Int) - precision
  let (n, d) := inUnits numerator denominator low
  let exponent := if n / d < Nat.pow 2 precision then low else low + 1
  max exponent leastExponent

/-- The double nearest to a positive quotient. -/
def ofQuotient (negative : Bool) (numerator denominator : Nat) : Double :=
  let exponent := unitExponent numerator denominator
  let (n, d) := inUnits numerator denominator exponent
  let mantissa := roundedQuotient n d
  let (mantissa, exponent) :=
    if mantissa = Nat.pow 2 precision then (Nat.pow 2 (precision - 1), exponent + 1)
    else (mantissa, exponent)
  if greatestExponent < exponent then .infinite negative
  else .finite negative mantissa exponent

/-- The number of decimal digits of a whole number; zero has none. -/
def digitCount (n : Nat) : Nat :=
  if n = 0 then 0 else (Nat.toDigits 10 n).length

/-- The double nearest to `digits * 10 ^ scale`.  Values of magnitude beyond
`10 ^ 310` are infinite and those below `10 ^ -400` are zero whatever their
digits, so the powers of ten that are formed stay small. -/
def ofDecimal (negative : Bool) (digits : Nat) (scale : Int) : Double :=
  let magnitude := (digitCount digits : Int) + scale
  if digits = 0 ∨ magnitude < -400 then zero negative
  else if 310 < magnitude then .infinite negative
  else if 0 ≤ scale then ofQuotient negative (digits * Nat.pow 10 scale.toNat) 1
  else ofQuotient negative digits (Nat.pow 10 (-scale).toNat)

/-- The whole number that a double is, if it is one. -/
def toInt? : Double → Option Int
  | .finite negative mantissa exponent =>
      let signed (n : Nat) : Int := if negative then -(n : Int) else n
      if 0 ≤ exponent then
        some (signed (mantissa * Nat.pow 2 exponent.toNat))
      else if mantissa % Nat.pow 2 (-exponent).toNat = 0 then
        some (signed (mantissa / Nat.pow 2 (-exponent).toNat))
      else
        none
  | _ => none

/-- Whether a double and a whole number are the same number. -/
def equalsInt (d : Double) (n : Int) : Bool :=
  d.toInt? == some n

/-- Equality as numbers: the two zeros are equal, and what is no number equals
nothing, itself included. -/
def equals : Double → Double → Bool
  | .notANumber, _ | _, .notANumber => false
  | .infinite a, .infinite b => a == b
  | .finite a m p, .finite b n q =>
      (m == 0 && n == 0) || (a == b && m == n && p == q)
  | _, _ => false

end Double

end ShellGloss.Decimal
