set_option autoImplicit false

/-!
Powers of two and of ten with an integer exponent, as numerators: a fraction `a · 10^k / 2^q` is
compared without rounding once `tens k` and `tens (-k)` stand on its two sides.
-/
namespace Wavefront.Decimal

/-- The power `10^k`; one for a negative `k`. -/
def tens (k : Int) : Nat := Nat.pow 10 k.toNat

/-- The power `2^q`; one for a negative `q`. -/
def twos (q : Int) : Nat := Nat.pow 2 q.toNat

end Wavefront.Decimal
