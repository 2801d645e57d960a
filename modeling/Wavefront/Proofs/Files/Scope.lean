import Wavefront.Location
import Wavefront.Plan.Fingerprint
import Wavefront.Proofs.Files.Path
set_option autoImplicit false

/-!
The scope of a plan on a path. It has at most twelve hexadecimal digits. Main statement: what can be
followed can be followed below the directory of a plan, if together they are not too long.
-/
namespace Wavefront

theorem Digest.mem_hexChars {bytes : List UInt8} {c : Char} (member : c ∈ hexChars bytes) :
    ∃ digit < 16, c = Nat.digitChar digit := by
  obtain ⟨byte, _, among⟩ := List.mem_flatMap.mp member
  have bound : byte.toNat < 256 := byte.toNat_lt
  rcases List.mem_pair.mp among with rfl | rfl
  · exact ⟨byte.toNat / 16, by omega, rfl⟩
  · exact ⟨byte.toNat % 16, by omega, rfl⟩

theorem digitChar_ordinary : ∀ digit < 16, Nat.digitChar digit ≠ '/' ∧ Nat.digitChar digit ≠ '.' ∧
    Nat.digitChar digit ≠ Char.ofNat 0 ∧ (Nat.digitChar digit).utf8Size = 1 := by
  decide

/-- Where each character takes one byte there are as many bytes as characters. -/
theorem utf8ByteSize_ofList {cs : List Char} (single : ∀ c ∈ cs, c.utf8Size = 1) :
    (String.ofList cs).utf8ByteSize = cs.length := by
  induction cs with
  | nil => rfl
  | cons c rest ih =>
    have split : String.ofList (c :: rest) = String.singleton c ++ String.ofList rest := by
      rw [String.singleton_eq_ofList, ← String.ofList_append]
      rfl
    rw [split, String.utf8ByteSize_append, String.utf8ByteSize_singleton, single c List.mem_cons_self,
      ih fun other later => single other (List.mem_cons_of_mem _ later), List.length_cons, Nat.add_comm]

namespace Plan

variable (p : Plan)

theorem scope_ordinary {c : Char} (member : c ∈ p.scope.toList) :
    c ≠ '/' ∧ c ≠ '.' ∧ c ≠ Char.ofNat 0 ∧ c.utf8Size = 1 := by
  rw [scope, Digest.shortHex, String.toList_ofList] at member
  obtain ⟨digit, bound, rfl⟩ := Digest.mem_hexChars (List.mem_of_mem_take member)
  exact digitChar_ordinary digit bound

theorem scope_short : p.scope.utf8ByteSize ≤ 12 := by
  have single : ∀ c ∈ p.scope.toList, c.utf8Size = 1 := fun c member => (p.scope_ordinary member).2.2.2
  have bytes := utf8ByteSize_ofList single
  rw [String.ofList_toList] at bytes
  rw [bytes, scope, Digest.shortHex, String.toList_ofList, List.length_take]
  exact Nat.min_le_left _ _

/-- The scope of a plan can be followed. -/
theorem scope_passable : Path.Passable p.scope := by
  have unbroken : '/' ∉ p.scope.toList := fun member => (p.scope_ordinary member).1 rfl
  have short := p.scope_short
  refine ⟨?_, by omega, fun name member => ?_⟩
  · rw [List.contains_eq_mem, decide_eq_false_iff_not]
    exact fun member => (p.scope_ordinary member).2.2.1 rfl
  · rw [Path.names_eq, Path.namesOf_unbroken unbroken] at member
    split at member
    · cases member
    · rw [String.ofList_toList, List.mem_singleton] at member
      subst member
      refine ⟨fun dots => ?_, by omega⟩
      have dot : '.' ∈ p.scope.toList := by
        rw [dots]
        decide
      exact (p.scope_ordinary dot).2.1 rfl

end Plan

/-- What can be followed can be followed below the directory of a plan, if it is not too long. -/
theorem Location.plain_below {tempDir rest : String} (p : Plan)
    (passable : Path.Passable (Text.trimEnd '/' tempDir)) (plain : Path.Plain rest)
    (short : (Text.trimEnd '/' tempDir).utf8ByteSize + rest.utf8ByteSize < 4080) :
    Path.Plain (scopeDir tempDir p.scope ++ "/" ++ rest) := by
  have scope := p.scope_short
  have within := passable.append_slash p.scope_passable (by omega)
  refine .append_slash within plain ?_
  have slash : "/".utf8ByteSize = 1 := by decide
  rw [scopeDir, String.utf8ByteSize_append, String.utf8ByteSize_append, slash]
  omega

end Wavefront
