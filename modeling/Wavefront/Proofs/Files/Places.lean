import Wavefront.Location
import Wavefront.Proofs.Files.Output
import Wavefront.Proofs.Lookup
set_option autoImplicit false

/-!
The places of a run. Main statements: the staging outputs of a plan, its temporary outputs and what lies
outside of its temporary directory are not in each other's way, and all of them are bare in a tree that
has nothing there.
-/
namespace Wavefront

namespace Place

theorem apart_of_ne {base first second : Place} {a b : String} (different : a ≠ b) :
    Apart (base ++ a :: first) (base ++ b :: second) := by
  refine ⟨fun within => ?_, fun within => ?_⟩
  · rw [List.prefix_append_right_inj, List.cons_prefix_cons] at within
    exact different within.1
  · rw [List.prefix_append_right_inj, List.cons_prefix_cons] at within
    exact different within.1.symm

theorem Apart.append {first second : Place} (apart : Apart first second) (base : Place) :
    Apart (base ++ first) (base ++ second) :=
  ⟨mt (List.prefix_append_right_inj base).mp apart.1, mt (List.prefix_append_right_inj base).mp apart.2⟩

/-- A way on from a place, through no root and up to no other directory. -/
structure Onward (way : Place) : Prop where
  some : way ≠ []
  ordinary : ∀ name ∈ way, name ≠ "/" ∧ name ≠ ".."

theorem Onward.front {way start : Place} (onward : Onward way) (front : start <+: way)
    (some : start ≠ []) : Onward start :=
  ⟨some, fun name member => onward.ordinary name (front.subset member)⟩

theorem Onward.named {way : Place} (onward : Onward way) (p : Place) : (p ++ way).Named := by
  obtain ⟨name, member⟩ := List.exists_mem_of_ne_nil _ onward.some
  exact ⟨name, List.mem_append_right _ member, onward.ordinary name member⟩

end Place

namespace FileTree

variable {t : FileTree} {p q way : Place}

/-- What lies below a place lies within it, unless only one of the two is outside of the starting
directory. -/
theorem isWithin_below (below : q <+: p) (inside : q = [] → isOutside p = false) :
    isWithin p q = true := by
  rw [isWithin, Bool.and_eq_true, List.isPrefixOf_iff_prefix, beq_iff_eq]
  refine ⟨below, ?_⟩
  cases q with
  | nil => exact inside rfl
  | cons name rest =>
    obtain ⟨more, rfl⟩ := below
    rfl

theorem not_isOutside_of_onward (onward : Place.Onward way) (rest : Place) :
    isOutside (way ++ rest) = false := by
  obtain ⟨name, others, rfl⟩ := List.exists_cons_of_ne_nil onward.some
  have ordinary := onward.ordinary name List.mem_cons_self
  simp [isOutside, ordinary.1, ordinary.2]

theorem isWithin_onward (onward : Place.Onward way) (q rest : Place) :
    isWithin (q ++ (way ++ rest)) q = true := by
  refine isWithin_below (List.prefix_append _ _) ?_
  rintro rfl
  exact not_isOutside_of_onward onward rest

theorem isBelow_onward (onward : Place.Onward way) (q rest : Place) :
    isBelow (q ++ (way ++ rest)) q = true := by
  rw [isBelow, isWithin_onward onward, Bool.and_true, bne_iff_ne]
  intro same
  have empty := List.append_right_eq_self.mp same
  exact onward.some (List.append_eq_nil_iff.mp empty).1

/-- A place outside of another one is out of the way of all that lies below that one. -/
theorem apart_of_outside (onward : Place.Onward way) (named : p.Named)
    (outside : isWithin p q = false) (around : isWithin q p = false) : Place.Apart (q ++ way) p := by
  -- Where one of the two lies below the other, so does one of p and q, and p is in one tree with the way.
  have parted : ¬ q <+: p ∨ q = [] ∧ isOutside p = true := by
    by_cases below : q <+: p
    · refine .inr ?_
      by_contra same
      rw [not_and, Bool.not_eq_true] at same
      rw [isWithin_below below same] at outside
      cases outside
    · exact .inl below
  have other (rest : Place) (front : Place) (start : front <+: way) (some : front ≠ []) :
      q = [] → isOutside p = true → p ≠ front ++ rest := by
    rintro - out rfl
    rw [not_isOutside_of_onward (onward.front start some)] at out
    cases out
  refine ⟨fun within => ?_, fun within => ?_⟩
  · rcases parted with apart | ⟨empty, out⟩
    · exact apart ((List.prefix_append _ _).trans within)
    · rw [empty, List.nil_append] at within
      obtain ⟨rest, whole⟩ := within
      exact other rest way List.prefix_rfl onward.some empty out whole.symm
  · rcases List.prefix_or_prefix_of_prefix within (List.prefix_append q way) with above | below
    · rw [(isWithin_iff named).mpr above] at around
      cases around
    · rcases parted with apart | ⟨empty, out⟩
      · exact apart below
      · rw [empty, List.nil_append] at within
        exact other [] p within named.ne_nil empty out (List.append_nil p).symm

section Entries

theorem vacant_of_entries (named : p.Named) (none : ∀ e ∈ t.entries, isWithin e.1 p = false) :
    t.Vacant p := fun q below => by
  rw [Option.eq_none_iff_forall_ne_some]
  intro e found
  have outside := none _ (mem_of_get? (named.below below) found)
  rw [(isWithin_iff named).mpr below] at outside
  cases outside

theorem open_of_entries (free : ∀ e ∈ t.entries, ∀ text, e.2 = .file text → isWithin p e.1 = false) :
    t.Open p := fun q above text found => by
  have named : Place.Named q := by
    by_contra given
    rw [get?_of_not_named given] at found
    cases found
  have outside := free _ (mem_of_get? named found) text rfl
  rw [(isWithin_iff named).mpr above] at outside
  cases outside

/-- Below a place that holds nothing all ways lead to bare places. -/
theorem bare_onward (onward : Place.Onward way) (free : t.Open q)
    (none : ∀ e ∈ t.entries, isBelow e.1 q = false) : t.Bare (q ++ way) := by
  have vacant {front : Place} (start : front <+: way) (some : front ≠ []) : t.Vacant (q ++ front) := by
    rintro _ ⟨rest, rfl⟩
    have onward' := onward.front start some
    rw [Option.eq_none_iff_forall_ne_some]
    intro e found
    have outside := none _ (mem_of_get? ((onward'.named q).below (List.prefix_append _ rest)) found)
    rw [List.append_assoc, isBelow_onward onward'] at outside
    cases outside
  refine ⟨vacant List.prefix_rfl onward.some, fun r above text found => ?_⟩
  rcases List.prefix_or_prefix_of_prefix above (List.prefix_append q way) with higher | ⟨front, rfl⟩
  · exact free r higher text found
  · have start := (List.prefix_append_right_inj q).mp above
    by_cases empty : front = []
    · rw [empty, List.append_nil] at found
      exact free q List.prefix_rfl text found
    · rw [vacant start empty _ List.prefix_rfl] at found
      cases found

end Entries

end FileTree

namespace Location

open FileTree (place)

theorem jobName_eq (group : String) (id : Nat) : jobName group id = group ++ ("-node-" ++ toString id) := by
  have label : ("-node-" : String) = "-" ++ "node-" := by decide
  rw [jobName, nodeLabel, label, String.append_assoc, String.append_assoc]

theorem exists_names_jobName (group : String) : ∃ front last, ∀ id,
    Path.names (jobName group id) = front ++ [last ++ ("-node-" ++ toString id)] := by
  obtain ⟨front, last, names⟩ := Path.exists_names_append group
  refine ⟨front, last, fun id => ?_⟩
  rw [jobName_eq]
  refine names _ ?_ ?_
  · simp
  · rw [String.toList_append, List.mem_append]
    exact not_or.mpr ⟨by decide, Text.notMem_toString (by decide) id⟩

theorem lastStep_ne_dot (last : String) (id : Nat) : last ++ ("-node-" ++ toString id) ≠ "." := by
  intro dot
  have member : 'n' ∈ (last ++ ("-node-" ++ toString id)).toList := by simp
  rw [dot] at member
  simp at member

variable {tempDir : String}

/-- What lies in the directory of a plan lies in the temporary directory. -/
theorem place_scopeDir (some : tempDir ≠ "") (scope rest : String) :
    place (scopeDir tempDir scope ++ "/" ++ rest) =
        place tempDir ++ (Path.steps scope ++ Path.steps rest) ∧
      Path.steps (scopeDir tempDir scope ++ "/" ++ rest) =
        Path.steps tempDir ++ (Path.steps scope ++ Path.steps rest) := by
  have steps : Path.steps (scopeDir tempDir scope ++ "/" ++ rest) =
      Path.steps tempDir ++ (Path.steps scope ++ Path.steps rest) := by
    rw [scopeDir, Path.steps_append_slash, Path.steps_append_slash, Path.steps_trimEnd, List.append_assoc]
  have absolute : Path.isAbsolute (scopeDir tempDir scope ++ "/" ++ rest) = Path.isAbsolute tempDir := by
    have whole : scopeDir tempDir scope ++ "/" ++ rest =
        Text.trimEnd '/' tempDir ++ "/" ++ (scope ++ "/" ++ rest) := by
      simp only [scopeDir, String.append_assoc]
    rw [whole, Path.isAbsolute_trimEnd some]
  refine ⟨?_, steps⟩
  rw [place, place, FileTree.origin, FileTree.origin, absolute, steps, List.append_assoc]

/-- Where the temporary output of a node lives. -/
theorem place_temporary (some : tempDir ≠ "") (scope : String) (id : Nat) :
    place (temporary tempDir scope id) =
        place tempDir ++ (Path.steps scope ++ ["tmp-" ++ toString id]) ∧
      Path.steps (temporary tempDir scope id) =
        Path.steps tempDir ++ (Path.steps scope ++ ["tmp-" ++ toString id]) := by
  have slash : ("/tmp-" : String) = "/" ++ "tmp-" := by decide
  have whole : temporary tempDir scope id = scopeDir tempDir scope ++ "/" ++ ("tmp-" ++ toString id) := by
    rw [temporary, slash, String.append_assoc, String.append_assoc, String.append_assoc]
  have unbroken : '/' ∉ ("tmp-" ++ toString id).toList := by
    rw [String.toList_append, List.mem_append]
    exact not_or.mpr ⟨by decide, Text.notMem_toString (by decide) id⟩
  have further : "tmp-" ++ toString id ≠ "." := by
    intro dot
    have member : 't' ∈ ("tmp-" ++ toString id).toList := by simp
    rw [dot] at member
    simp at member
  have single : Path.steps ("tmp-" ++ toString id) = ["tmp-" ++ toString id] := by
    rw [Path.steps, Path.names_eq, Path.namesOf_unbroken unbroken, if_neg (by simp), String.ofList_toList,
      List.filter_cons_of_pos (by simpa using further), List.filter_nil]
  rw [whole, ← single]
  exact place_scopeDir some scope _

/-- Where the jobs of a group write. -/
theorem exists_place_staging (some : tempDir ≠ "") (scope group : String) :
    ∃ (front : List String) (last : String), ∀ id,
      place (staging tempDir scope group id) =
          place tempDir ++ (Path.steps scope ++
            "staging" :: (front ++ [last ++ ("-node-" ++ toString id)])) ∧
        Path.steps (staging tempDir scope group id) =
          Path.steps tempDir ++ (Path.steps scope ++
            "staging" :: (front ++ [last ++ ("-node-" ++ toString id)])) ∧
        (Path.names (staging tempDir scope group id)).getLastD "." ≠ "." := by
  obtain ⟨front, last, names⟩ := exists_names_jobName group
  refine ⟨front.filter (· != "."), last, fun id => ?_⟩
  have slash : ("/staging/" : String) = "/" ++ "staging" ++ "/" := by decide
  have whole : staging tempDir scope group id =
      scopeDir tempDir scope ++ "/" ++ ("staging" ++ "/" ++ jobName group id) := by
    rw [staging, slash]
    simp only [String.append_assoc]
  have way : Path.steps ("staging" ++ "/" ++ jobName group id) =
      "staging" :: (front.filter (· != ".") ++ [last ++ ("-node-" ++ toString id)]) := by
    have start : Path.steps "staging" = ["staging"] := by decide
    rw [Path.steps_append_slash, start, Path.steps, names, List.filter_append,
      List.filter_cons_of_pos (by simpa using lastStep_ne_dot last id), List.filter_nil]
    rfl
  obtain ⟨at_, steps⟩ := place_scopeDir some scope ("staging" ++ "/" ++ jobName group id)
  rw [← whole, way] at at_ steps
  refine ⟨at_, steps, ?_⟩
  rw [whole, Path.names_append_slash, Path.names_append_slash, names, ← List.append_assoc,
    ← List.append_assoc, List.getLastD_concat]
  exact lastStep_ne_dot last id

end Location

end Wavefront
