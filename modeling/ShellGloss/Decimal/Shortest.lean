/-
Module: ShellGloss.Decimal.Shortest
Purpose: The fewest digits that read back as a given double, and the text they
  are laid out in.
Imports: ShellGloss.Decimal.Double
Main exports:
  Digits, shortest, Layout, Layout.text
-/
import ShellGloss.Decimal.Double

namespace ShellGloss.Decimal

/-! ### Choosing the digits -/

/-- `digits * 10 ^ scale`, a decimal. -/
structure Digits where
  digits : Nat
  scale : Int
deriving Repr, Inhabited, DecidableEq

/-- `mantissa * 2 ^ exponent` as a quotient. -/
def quotientOf (mantissa : Nat) (exponent : Int) : Nat × Nat :=
  if 0 ≤ exponent then (mantissa * Nat.pow 2 exponent.toNat, 1)
  else (mantissa, Nat.pow 2 (-exponent).toNat)

/-- A quotient counted in units of `10 ^ scale`. -/
def onGrid (quotient : Nat × Nat) (scale : Int) : Nat × Nat :=
  if 0 ≤ scale then (quotient.1, quotient.2 * Nat.pow 10 scale.toNat)
  else (quotient.1 * Nat.pow 10 (-scale).toNat, quotient.2)

/-- The `p` with `10 ^ (p - 1) ≤ quotient < 10 ^ p`: the place of the decimal
point behind the first digit.  The estimate from the digit counts is right or
one too large. -/
def pointPlace (quotient : Nat × Nat) : Int :=
  let estimate : Int :=
    (Double.digitCount quotient.1 : Int) - (Double.digitCount quotient.2 : Int) + 1
  let (n, d) := onGrid quotient (estimate - 1)
  if n < d then estimate - 1 else estimate

/-- The neighbour of a value on the grid of `10 ^ scale` that reads back as the
value; of two, the nearer, and at equal distance the even one. -/
def neighbour? (mantissa : Nat) (exponent : Int) (quotient : Nat × Nat)
    (scale : Int) : Option Digits :=
  let (n, d) := onGrid quotient scale
  let below := n / d
  let above := below + 1
  let readsBack (digits : Nat) : Bool :=
    Double.ofDecimal false digits scale = .finite false mantissa exponent
  let nearest := roundedQuotient n d
  let other := if nearest = below then above else below
  if n % d = 0 then (if readsBack below then some ⟨below, scale⟩ else none)
  else if readsBack nearest then some ⟨nearest, scale⟩
  else if readsBack other then some ⟨other, scale⟩
  else none

/-- The first grid, from coarse to fine, that has a neighbour reading back. -/
def firstGrid (mantissa : Nat) (exponent : Int) (quotient : Nat × Nat) :
    List Int → Digits
  | [] => ⟨mantissa, 0⟩
  | scale :: finer =>
      match neighbour? mantissa exponent quotient scale with
      | some found => found
      | none => firstGrid mantissa exponent quotient finer

/-- The shortest decimal that reads back as a positive double.  Seventeen digits
always do, so the grids for one to seventeen digits are tried in that order. -/
def shortest (mantissa : Nat) (exponent : Int) : Digits :=
  let quotient := quotientOf mantissa exponent
  let place := pointPlace quotient
  firstGrid mantissa exponent quotient
    ((List.range 17).map fun (count : Nat) => place - 1 - (count : Int))

/-! ### Laying the digits out -/

/-- How a double is spelled: the point places written without an exponent, and
the words for what is not a finite number. -/
structure Layout where
  leastPlace : Int
  greatestPlace : Int
  notANumber : String
  infinity : String
deriving Repr, Inhabited

/-- A whole number of at least two digits. -/
def twoDigits (n : Nat) : String :=
  if n < 10 then "0" ++ toString n else toString n

/-- Digits without the zeros they end in; the count of zeros moves into the
scale. -/
def withoutTrailingZeros (d : Digits) : Digits :=
  let written := (Nat.toDigits 10 d.digits).reverse
  let zeros := (written.takeWhile (· == '0')).length
  ⟨d.digits / Nat.pow 10 zeros, d.scale + zeros⟩

/-- A positive decimal: positional with at least one place behind the point
inside the layout's range, and otherwise one digit in front of the point and a
signed exponent of at least two digits. -/
def Layout.positive (layout : Layout) (d : Digits) : String :=
  let d := withoutTrailingZeros d
  let digits := Nat.toDigits 10 d.digits
  let place : Int := (digits.length : Int) + d.scale
  if layout.leastPlace ≤ place ∧ place ≤ layout.greatestPlace then
    if place ≤ 0 then
      "0." ++ String.ofList (List.replicate (-place).toNat '0' ++ digits)
    else if (digits.length : Int) ≤ place then
      String.ofList (digits ++ List.replicate d.scale.toNat '0') ++ ".0"
    else
      String.ofList (digits.take place.toNat) ++ "." ++
        String.ofList (digits.drop place.toNat)
  else
    let exponent := place - 1
    let fraction := digits.drop 1
    String.ofList (digits.take 1) ++
      (if fraction.isEmpty then "" else "." ++ String.ofList fraction) ++
      "e" ++ (if exponent < 0 then "-" else "+") ++ twoDigits exponent.natAbs

/-- The text of a double in a layout; a negative sign is kept on zero too. -/
def Layout.text (layout : Layout) : Double → String
  | .notANumber => layout.notANumber
  | .infinite negative => (if negative then "-" else "") ++ layout.infinity
  | .finite negative mantissa exponent =>
      (if negative then "-" else "") ++
        (if mantissa = 0 then "0.0" else layout.positive (shortest mantissa exponent))

end ShellGloss.Decimal
