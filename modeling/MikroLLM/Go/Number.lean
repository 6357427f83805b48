import Mathlib.Algebra.Group.Nat.Defs
import Mathlib.Algebra.Order.Group.Int
import Mathlib.Data.Int.Notation

/-!
# Numbers of package `encoding/json`

A number in a document is a decimal literal. Decoding into an interface value
turns it into the nearest `float64`, encoding writes the shortest decimal that
reads back as this `float64`. The two together are `readBack`.
-/

namespace MikroLLM.Go

/-- `mantissa * 10 ^ exponent`. -/
structure Decimal where
  mantissa : ℤ
  exponent : ℤ
  deriving DecidableEq, Repr

/-- A finite `float64`, `mantissa * 2 ^ exponent` with its sign. -/
structure Double where
  negative : Bool
  mantissa : ℕ
  exponent : ℤ
  deriving DecidableEq, Repr

/-- Numerator and denominator of `num / den * base ^ exponent`. -/
def scale (base num den : ℕ) (exponent : ℤ) : ℕ × ℕ :=
  if 0 ≤ exponent then (num * base ^ exponent.toNat, den)
  else (num, den * base ^ (-exponent).toNat)

/-- The integer nearest to `ratio.1 / ratio.2`, the even one of two. -/
def roundHalfEven (ratio : ℕ × ℕ) : ℕ :=
  let quotient := ratio.1 / ratio.2
  let twice := 2 * (ratio.1 % ratio.2)
  if twice > ratio.2 ∨ (twice = ratio.2 ∧ quotient % 2 = 1) then quotient + 1 else quotient

/-- The binary exponent of the leading bit of a positive ratio. -/
def leadingBit (ratio : ℕ × ℕ) : ℤ :=
  let estimate : ℤ := (Nat.log2 ratio.1 : ℤ) - Nat.log2 ratio.2
  let shifted := scale 2 ratio.1 ratio.2 (-estimate)
  if shifted.1 < shifted.2 then estimate - 1 else estimate

/-- `strconv.ParseFloat`, rounding to nearest; none where the result is out of range. -/
def parseFloat (literal : Decimal) : Option Double :=
  let ratio := scale 10 literal.mantissa.natAbs 1 literal.exponent
  if ratio.1 = 0 then some ⟨false, 0, 0⟩
  else
    let exponent := max (leadingBit ratio - 52) (-1074)
    let mantissa := roundHalfEven (scale 2 ratio.1 ratio.2 (-exponent))
    -- rounding up can reach the next power of two
    let carried := if mantissa = 2 ^ 53 then (2 ^ 52, exponent + 1) else (mantissa, exponent)
    if carried.2 > 971 then none else some ⟨literal.mantissa < 0, carried.1, carried.2⟩

/-- The decimals nearest to a `float64`, fewer digits first. -/
def nearestDecimals (value : Double) : List Decimal :=
  let ratio := scale 2 value.mantissa 1 value.exponent
  let digits (n : ℕ) : ℤ := (Nat.toDigits 10 n).length
  let highest := digits ratio.1 - digits ratio.2 + 1
  (List.range 25).map fun (place : ℕ) =>
    let mantissa : ℤ := roundHalfEven (scale 10 ratio.1 ratio.2 (place - highest))
    ⟨if value.negative then -mantissa else mantissa, highest - place⟩

/-- What is left of a number after it was decoded and encoded again; none where decoding
reports it as out of range. -/
def readBack (literal : Decimal) : Option Decimal :=
  (parseFloat literal).bind fun value =>
    (nearestDecimals value).find? fun decimal => parseFloat decimal = some value

/-- A number that was encoded is decoded and encoded without a change. -/
theorem readBack_readBack {literal written : Decimal} (reads : readBack literal = some written) :
    readBack written = some written := by
  simp only [readBack, Option.bind_eq_some_iff] at reads ⊢
  rcases reads with ⟨value, parsed, shortest⟩
  have same := List.find?_some shortest
  refine ⟨value, ?_, shortest⟩
  simpa using same

end MikroLLM.Go
