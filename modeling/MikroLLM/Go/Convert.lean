import Mathlib.Data.Nat.Digits.Defs
import MikroLLM.Go.Json
import MikroLLM.Go.Strings

/-!
# Conversions

Integers and floating-point numbers as texts and as each other, and letters in
lower case as far as ASCII texts are concerned.
-/

namespace MikroLLM.Go

/-- `unicode.ToLower`, for a result in ASCII: the capitals, the Kelvin sign and the dotted I. Other
letters stay what they are. -/
def lowerRune (char : Char) : Char :=
  if char = '\u212a' then 'k' else if char = '\u0130' then 'i' else char.toLower

/-- `strings.ToLower`, for a text that is compared with ASCII texts. -/
def lower (text : String) : String :=
  text.map lowerRune

/-- `strconv.ParseInt` in base ten, where it reports no error. -/
def readInt (text : String) : Option ℤ :=
  let signed : Bool × List Char :=
    match text.toList with
    | '-' :: rest => (true, rest)
    | '+' :: rest => (false, rest)
    | chars => (false, chars)
  if signed.2 = [] || signed.2.any fun char => !char.isDigit then none
  else
    let magnitude : ℤ := Nat.ofDigitChars 10 signed.2 0
    let value := if signed.1 then -magnitude else magnitude
    if -2 ^ 63 ≤ value ∧ value < 2 ^ 63 then some value else none

/-- The number without its fraction. -/
def Double.truncate (value : Double) : ℤ :=
  let ratio := scale 2 value.mantissa 1 value.exponent
  let magnitude : ℤ := (ratio.1 / ratio.2 : ℕ)
  if value.negative then -magnitude else magnitude

/-- `int64(value)`; what a number out of range becomes is up to the processor. -/
def Double.toInt64 (outside : Double → ℤ) (value : Double) : ℤ :=
  if -2 ^ 63 ≤ value.truncate ∧ value.truncate < 2 ^ 63 then value.truncate else outside value

/-- What an x86 processor makes of a number out of range. -/
def leastInt64 (_ : Double) : ℤ :=
  -2 ^ 63

/-- The number nearest to a ratio; none where it is out of range. -/
def Double.ofRatio (negative : Bool) (ratio : ℕ × ℕ) : Option Double :=
  if ratio.1 = 0 then some ⟨negative, 0, 0⟩
  else
    let exponent := max (leadingBit ratio - 52) (-1074)
    let mantissa := roundHalfEven (scale 2 ratio.1 ratio.2 (-exponent))
    let carried := if mantissa = 2 ^ 53 then (2 ^ 52, exponent + 1) else (mantissa, exponent)
    if carried.2 > 971 then none else some ⟨negative, carried.1, carried.2⟩

/-- The magnitude as a ratio. -/
def Double.ratio (value : Double) : ℕ × ℕ :=
  scale 2 value.mantissa 1 value.exponent

/-- `100 * part / whole` of a positive whole; none for an infinite quotient. -/
def Double.percent (part whole : Double) : Option Double :=
  (Double.ofRatio part.negative (100 * part.ratio.1, part.ratio.2)).bind fun product =>
    Double.ofRatio product.negative
      (product.ratio.1 * whole.ratio.2, product.ratio.2 * whole.ratio.1)

/-- A decimal without an exponent. -/
def Decimal.plain (decimal : Decimal) : String :=
  let digits := Nat.toDigits 10 decimal.mantissa.natAbs
  let chars :=
    if 0 ≤ decimal.exponent then digits ++ List.replicate decimal.exponent.toNat '0'
    else
      let places := (-decimal.exponent).toNat
      let padded := List.replicate (places + 1 - digits.length) '0' ++ digits
      padded.take (padded.length - places) ++ '.' :: padded.drop (padded.length - places)
  String.ofList (if decimal.mantissa < 0 then '-' :: chars else chars)

/-- `strconv.FormatFloat(value, 'f', -1, 64)`. -/
def formatFloat (value : Double) : String :=
  (((nearestDecimals value).find? fun decimal => parseFloat decimal = some value).map
    Decimal.plain).getD ""

end MikroLLM.Go
