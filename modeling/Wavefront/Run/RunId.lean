import Wavefront.Json.Reader
set_option autoImplicit false

/-!
The numbers of runs: 128 bits, written as 32 hexadecimal digits in groups of eight, four, four, four and
twelve.
-/
namespace Wavefront

/-- The number of a run. -/
structure RunId where
  bits : BitVec 128
deriving DecidableEq

namespace RunId

/-- The last `count` hexadecimal digits of a number. -/
def digits : Nat → Nat → List Char
  | 0, _ => []
  | count + 1, n => digits count (n / 16) ++ [Nat.digitChar (n % 16)]

/-- Puts hyphens between the groups of digits. -/
def hyphenate (ds : List Char) : List Char :=
  ds.take 8 ++ '-' :: (ds.drop 8).take 4 ++ '-' :: (ds.drop 12).take 4 ++ '-' :: (ds.drop 16).take 4 ++
    '-' :: ds.drop 20

def text (r : RunId) : String := String.ofList (hyphenate (digits 32 r.bits.toNat))

/-- The run number of 32 hexadecimal digits. -/
def ofDigits? (ds : List Char) : Option RunId :=
  if ds.length = 32 then
    (ds.mapM Json.hexValue?).map fun values =>
      ⟨.ofNat 128 (values.foldl (fun n d => n * 16 + d) 0)⟩
  else none

/-- The run number of digits with hyphens between the groups. -/
def ofHyphenated? (cs : List Char) : Option RunId :=
  let ds := cs.take 8 ++ (cs.drop 9).take 4 ++ (cs.drop 14).take 4 ++ (cs.drop 19).take 4 ++ cs.drop 24
  if cs.length = 36 ∧ [8, 13, 18, 23].all (fun i => cs[i]? == some '-') then ofDigits? ds else none

/-- Reads a run number: digits alone, digits in groups, and groups in braces or after a label, whose letters
may be of either case. -/
def ofText? (s : String) : Option RunId :=
  let cs := s.toList
  match cs with
  | '\x7b' :: rest => if rest.getLast? = some '\x7d' then ofHyphenated? rest.dropLast else none
  | _ =>
    if cs.length = 32 then ofDigits? cs
    else if (cs.take 9).map Char.toLower = "urn:uuid:".toList then ofHyphenated? (cs.drop 9)
    else ofHyphenated? cs

/-- The run number of random bits, marked as such in the places that are kept for it. -/
def ofRandom (bits : BitVec 128) : RunId :=
  let version : BitVec 128 := 4#128 <<< 76
  let variantMark : BitVec 128 := 2#128 <<< 62
  let kept : BitVec 128 := ~~~((15#128 <<< 76) ||| (3#128 <<< 62))
  ⟨(bits &&& kept) ||| version ||| variantMark⟩

end RunId

end Wavefront
