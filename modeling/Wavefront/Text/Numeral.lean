set_option autoImplicit false

/-!
Decimal numerals as they are written in properties and option values: an optional plus sign and at
least one digit, with the value below a bound that the reader of the number fixes.
-/
namespace Wavefront.Text

/-- One more than the largest number of 64 bits. -/
def wordBound : Nat := UInt64.size

/-- One more than the largest number of 32 bits. -/
def halfWordBound : Nat := UInt32.size

/-- One more than the largest number of 128 bits. -/
def doubleWordBound : Nat := wordBound * wordBound

/-- The value of a run of digits, the first digit weighing most. -/
def digitsValue (cs : List Char) : Nat := Nat.ofDigitChars 10 cs 0

/-- The number a text spells, if it is a numeral below `bound`. -/
def numeral? (bound : Nat) (s : String) : Option Nat :=
  let digits := match s.toList with
    | '+' :: rest => rest
    | cs => cs
  if digits.isEmpty || !digits.all Char.isDigit then none
  else if digitsValue digits < bound then some (digitsValue digits) else none

end Wavefront.Text
