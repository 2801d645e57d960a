set_option autoImplicit false

/-!
Blank characters and trimming. A character is blank when Unicode gives it the property White_Space;
`trim` drops the blanks at both ends and nothing else.
-/
namespace Wavefront.Text

/-- The characters that Unicode lists under the property White_Space. -/
def isBlank (c : Char) : Bool :=
  let code := c.toNat
  (9 ≤ code && code ≤ 13) || code == 0x20 || code == 0x85 || code == 0xA0 || code == 0x1680 ||
    (0x2000 ≤ code && code ≤ 0x200A) || code == 0x2028 || code == 0x2029 || code == 0x202F ||
    code == 0x205F || code == 0x3000

/-- Drops blanks at the front, then at the back. -/
def trimChars (cs : List Char) : List Char :=
  ((cs.dropWhile isBlank).reverse.dropWhile isBlank).reverse

/-- Drops the blanks at both ends of a text. -/
def trim (s : String) : String := String.ofList (trimChars s.toList)

/-- Lower-cases the letters A to Z and leaves every other character alone. -/
def lower (s : String) : String := String.ofList (s.toList.map Char.toLower)

/-- Drops every copy of `c` at the end of a text. -/
def trimEnd (c : Char) (s : String) : String :=
  String.ofList (s.toList.reverse.dropWhile (· == c)).reverse

end Wavefront.Text
