import Wavefront.Text.Numeral
set_option autoImplicit false

/-!
Doubles from decimal digits. The digits are read as one whole number of at most 64 bits, the number is
rounded to a double, and the double is multiplied or divided by a power of ten. Digits past 64 bits
only count for the exponent. The result may differ from the nearest double in the last place when the
digits take more than 53 bits.
-/
namespace Wavefront.Decimal
open Wavefront.Text

/-- Appends digits to a significand for as long as it stays within 64 bits; returns the digits left. -/
def absorb : (significand : Nat) → (digits : List Char) → Nat × List Char
  | significand, [] => (significand, [])
  | significand, digit :: rest =>
    let longer := 10 * significand + (digit.toNat - '0'.toNat)
    if longer < wordBound then absorb longer rest else (significand, digit :: rest)

def powerOfTen (k : Nat) : Float := Float.ofScientific 1 false k

/-- `x / 10^k` for large `k`, by steps of `10^308`; a zero stays zero. -/
def descend (x : Float) (k : Nat) : Float :=
  if k ≤ 308 then x / powerOfTen k
  else if x == 0.0 then x
  else descend (x / powerOfTen 308) (k - 308)
termination_by k

/-- A significand scaled by a power of ten; `none` if it lies beyond the largest double. -/
def scale? (significand : Nat) (exponent : Int) : Option Float :=
  let x := Float.ofNat significand
  if exponent < 0 then some (descend x (-exponent).toNat)
  else if exponent ≤ 308 then
    let y := x * powerOfTen exponent.toNat
    if y.isInf then none else some y
  else if significand = 0 then some x
  else none

/-- The double that the digits before and after the point spell, times a power of ten. -/
def ofDigits? (whole fraction : List Char) (power : Int) : Option Float :=
  let (significand, beyond) := absorb 0 whole
  let (significand, rest) := absorb significand fraction
  let taken : Int := fraction.length - rest.length
  scale? significand (beyond.length - taken + power)

end Wavefront.Decimal
