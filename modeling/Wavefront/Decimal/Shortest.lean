import Wavefront.Decimal.Power
set_option autoImplicit false

/-!
The shortest decimal that reads back as a given double. The double is taken apart into `m · 2^q`; the
reals that round to it form an interval whose ends belong to it exactly when `m` is even. For one digit,
two digits and so on the two neighbours of the value on that decimal grid are tested, and the first grid
with a hit decides. All arithmetic is on natural numbers, so no rounding enters.
-/
namespace Wavefront.Decimal

/-- A positive double as `mantissa · 2^exponent`; `lowerGapHalved` marks a mantissa whose lower
neighbour is half as far away as its upper one. -/
structure Binary where
  mantissa : Nat
  exponent : Int
  lowerGapHalved : Bool
deriving DecidableEq, Repr

/-- Takes the bits of a positive finite double apart. -/
def Binary.ofBits (bits : UInt64) : Binary :=
  let fraction : Nat := bits.toNat % twos 52
  let biased : Nat := bits.toNat / twos 52 % twos 11
  if biased = 0 then ⟨fraction, -1074, false⟩
  else ⟨twos 52 + fraction, (biased : Int) - 1075, fraction == 0 && biased != 1⟩

/-- A decimal `digits · 10^exponent`. -/
structure Scientific where
  digits : Nat
  exponent : Int
deriving DecidableEq, Repr

/-- Whether `a · 10^k` is at most `n · 2^q`, decided over a common denominator. -/
def atMost (a : Nat) (k : Int) (n : Nat) (q : Int) : Bool :=
  a * tens k * twos (-q) ≤ n * twos q * tens (-k)

/-- Whether `n · 2^q` is at most `a · 10^k`. -/
def atLeast (a : Nat) (k : Int) (n : Nat) (q : Int) : Bool :=
  n * twos q * tens (-k) ≤ a * tens k * twos (-q)

/-- Four times the lower end of the interval that rounds to the double, over `2^exponent`. -/
def Binary.lower (b : Binary) : Nat := if b.lowerGapHalved then 4 * b.mantissa - 1 else 4 * b.mantissa - 2

/-- Four times the upper end of the interval. -/
def Binary.upper (b : Binary) : Nat := 4 * b.mantissa + 2

/-- Whether a decimal reads back as the double. -/
def Binary.admits (b : Binary) (s : Scientific) : Bool :=
  let q := b.exponent - 2
  if b.mantissa % 2 = 0 then
    atLeast s.digits s.exponent b.lower q && atMost s.digits s.exponent b.upper q
  else
    !atMost s.digits s.exponent b.lower q && !atLeast s.digits s.exponent b.upper q

/-- The floor of the double on the grid of multiples of `10^k`. -/
def Binary.floorAt (b : Binary) (k : Int) : Nat :=
  (b.mantissa * twos b.exponent * tens (-k)) / (twos (-b.exponent) * tens k)

/-- Of two neighbours on a grid the nearer to the double; the even one when both are as near. -/
def Binary.nearer (b : Binary) (k : Int) (below : Nat) : Nat :=
  let q := b.exponent
  let left := 2 * b.mantissa * twos q * tens (-k)
  let right := (2 * below + 1) * tens k * twos (-q)
  if left < right then below
  else if right < left then below + 1
  else if below % 2 = 0 then below else below + 1

/-- The neighbour on the grid `10^k` that reads back as the double, if there is one. -/
def Binary.onGrid? (b : Binary) (k : Int) : Option Scientific :=
  let below := b.floorAt k
  match b.admits ⟨below, k⟩, b.admits ⟨below + 1, k⟩ with
  | true, true => some ⟨b.nearer k below, k⟩
  | true, false => some ⟨below, k⟩
  | false, true => some ⟨below + 1, k⟩
  | false, false => none

/-- The largest `e` with `10^e` at most the double, found downwards from `e`. -/
def Binary.leading (b : Binary) : (fuel : Nat) → (e : Int) → Int
  | 0, e => e
  | fuel + 1, e => if atMost 1 e b.mantissa b.exponent then e else b.leading fuel (e - 1)

/-- The first grid of `count` digits or more with a hit, the leading digit standing at `10^lead`. -/
def Binary.firstHit (b : Binary) (lead : Int) : (fuel : Nat) → (count : Int) → Scientific
  | 0, count => ⟨b.floorAt (lead + 1 - count), lead + 1 - count⟩
  | fuel + 1, count =>
    match b.onGrid? (lead + 1 - count) with
    | some s => s
    | none => b.firstHit lead fuel (count + 1)

/-- Moves the zeros at the end of the digits into the exponent. -/
def Scientific.strip (s : Scientific) : Scientific :=
  if 0 < s.digits ∧ s.digits % 10 = 0 then
    Scientific.strip ⟨s.digits / 10, s.exponent + 1⟩
  else s
termination_by s.digits
decreasing_by omega

/-- The shortest decimal that reads back as a positive finite double. Seventeen digits always do. -/
def shortest (b : Binary) : Scientific := (b.firstHit (b.leading 700 309) 17 1).strip

/-- How decimals are laid out: from `smallest` to `largest` as the power of ten of the leading digit
the point is set in place, elsewhere an exponent follows. -/
structure Layout where
  smallest : Int
  largest : Int
  mark : String
  plus : String
  notFinite : String

/-- Writes the digits with the point in place, and a zero on a side that would stay empty. -/
def positional (digits : List Char) (exponent : Int) : List Char :=
  if 0 ≤ exponent then digits ++ List.replicate exponent.toNat '0' ++ ['.', '0']
  else
    let places := (-exponent).toNat
    if places < digits.length then
      digits.take (digits.length - places) ++ '.' :: digits.drop (digits.length - places)
    else '0' :: '.' :: List.replicate (places - digits.length) '0' ++ digits

/-- Writes one digit before the point, if more than one there are, and the exponent after it. -/
def withExponent (layout : Layout) (digits : List Char) (lead : Int) : List Char :=
  let body := match digits with
    | first :: second :: rest => first :: '.' :: second :: rest
    | short => short
  let power := if lead < 0 then "-" ++ toString (-lead).toNat else layout.plus ++ toString lead.toNat
  body ++ layout.mark.toList ++ power.toList

def positiveText (layout : Layout) (bits : UInt64) : List Char :=
  let s := shortest (Binary.ofBits bits)
  let digits := (toString s.digits).toList
  let lead := s.exponent + digits.length - 1
  if layout.smallest ≤ lead ∧ lead ≤ layout.largest then positional digits s.exponent
  else withExponent layout digits lead

def text (layout : Layout) (x : Float) : String :=
  let bits := x.toBits.toNat
  if bits / twos 52 % twos 11 = twos 11 - 1 then layout.notFinite
  else
    let sign := if bits / twos 63 = 1 then ['-'] else []
    let magnitude := bits % twos 63
    String.ofList (sign ++
      if magnitude = 0 then positional ['0'] 0 else positiveText layout magnitude.toUInt64)

end Wavefront.Decimal
