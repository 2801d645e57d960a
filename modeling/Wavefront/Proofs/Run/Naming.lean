import Wavefront.Proofs.Files.Places
import Wavefront.Run.Materialization
set_option autoImplicit false

/-!
Names and paths of a run. The name of a job ends in the number of its node, which no digit precedes, so
it can be taken apart again, whatever the group is called. Main statement: no two jobs share a name or a
staging path unless they share their group and their node, no two nodes share a temporary output, and a
staging path and a temporary output are never in each other's way.
-/
namespace Wavefront

/-- A path goes on below another one. -/
def Path.Continues (path above : String) : Prop := ∃ rest, path = above ++ "/" ++ rest

/-- Two paths are different, and neither goes on below the other. -/
structure Path.Beside (first second : String) : Prop where
  ne : first ≠ second
  first_above : ¬ Path.Continues second first
  second_above : ¬ Path.Continues first second

/-- A text ends in the number that follows the last character that is no digit. -/
theorem Text.append_digits_inj {front front' digits digits' : List Char} {c : Char}
    (mark : c.isDigit = false) (all : ∀ d ∈ digits, d.isDigit = true)
    (all' : ∀ d ∈ digits', d.isDigit = true) (same : front ++ c :: digits = front' ++ c :: digits') :
    front = front' ∧ digits = digits' := by
  -- Read from the end, the digits stop at the mark.
  have taken (front digits : List Char) (all : ∀ d ∈ digits, d.isDigit = true) :
      (front ++ c :: digits).reverse.takeWhile Char.isDigit = digits.reverse := by
    have chars : (front ++ c :: digits).reverse = digits.reverse ++ c :: front.reverse := by simp
    rw [chars, List.takeWhile_append_of_pos fun d member => all d (List.mem_reverse.mp member),
      List.takeWhile_cons_of_neg (by simp [mark]), List.append_nil]
  have ends := taken front digits all
  rw [same, taken front' digits' all', List.reverse_inj] at ends
  subst ends
  exact ⟨List.append_cancel_right same, rfl⟩

namespace Location

variable {tempDir scope : String}

/-- The name of a job tells its group and its node. -/
theorem jobName_inj {group group' : String} {node node' : Nat} :
    jobName group node = jobName group' node' ↔ group = group' ∧ node = node' := by
  constructor
  · intro same
    have chars (group : String) (node : Nat) : (jobName group node).toList =
        (group ++ "-node").toList ++ '-' :: (toString node).toList := by
      rw [jobName_eq]
      simp
    have lists := congrArg String.toList same
    rw [chars, chars] at lists
    obtain ⟨fronts, digits⟩ := Text.append_digits_inj (by decide)
      (fun _ => Text.isDigit_of_mem_toString) (fun _ => Text.isDigit_of_mem_toString) lists
    refine ⟨?_, Text.toString_injective (String.toList_inj.mp digits)⟩
    rw [String.toList_append, String.toList_append] at fronts
    exact String.toList_inj.mp (List.append_cancel_right fronts)
  · rintro ⟨rfl, rfl⟩
    rfl

theorem staging_inj {group group' : String} {node node' : Nat} :
    staging tempDir scope group node = staging tempDir scope group' node' ↔
      group = group' ∧ node = node' := by
  rw [staging, staging, String.append_right_inj, jobName_inj]

theorem temporary_inj {node node' : Nat} :
    temporary tempDir scope node = temporary tempDir scope node' ↔ node = node' := by
  rw [temporary, temporary, String.append_right_inj]
  exact ⟨Text.toString_injective, congrArg _⟩

/-- Paths that part at a character are beside each other. -/
theorem beside_of_ne {first second : String} {base rest rest' : List Char} {c d : Char}
    (different : c ≠ d) (chars : first.toList = base ++ c :: rest)
    (chars' : second.toList = base ++ d :: rest') : Path.Beside first second := by
  have parted (more more' : List Char) : base ++ c :: more ≠ base ++ d :: more' := by
    intro same
    exact different (List.cons.inj (List.append_cancel_left same)).1
  refine ⟨?_, ?_, ?_⟩
  · rintro rfl
    exact parted rest rest' (chars.symm.trans chars')
  · rintro ⟨more, rfl⟩
    simp only [String.toList_append, chars, List.append_assoc, List.cons_append] at chars'
    exact parted _ _ chars'
  · rintro ⟨more, rfl⟩
    simp only [String.toList_append, chars', List.append_assoc, List.cons_append] at chars
    exact parted _ _ chars.symm

/-- What is staged and what is temporary parts right below the directory of the plan. -/
theorem staging_beside_temporary (group : String) (node other : Nat) :
    Path.Beside (staging tempDir scope group node) (temporary tempDir scope other) := by
  have staged : (staging tempDir scope group node).toList = ((scopeDir tempDir scope).toList ++ ['/']) ++
      's' :: ("taging/".toList ++ (jobName group node).toList) := by
    simp [staging]
  have temp : (temporary tempDir scope other).toList = ((scopeDir tempDir scope).toList ++ ['/']) ++
      't' :: ("mp-".toList ++ (toString other).toList) := by
    simp [temporary]
  exact beside_of_ne (by decide) staged temp

end Location

/-- The names and the paths of a run tell its jobs and its temporary outputs apart. -/
structure Location.TellsApart (tempDir scope : String) : Prop where
  spelled : ∀ group node, Location.jobName group node = group ++ "-node-" ++ toString node
  names : ∀ group group' node node',
    Location.jobName group node = Location.jobName group' node' ↔ group = group' ∧ node = node'
  staged : ∀ group group' node node',
    Location.staging tempDir scope group node = Location.staging tempDir scope group' node' ↔
      group = group' ∧ node = node'
  temporary : ∀ node node',
    Location.temporary tempDir scope node = Location.temporary tempDir scope node' ↔ node = node'
  beside : ∀ group node other, Path.Beside (Location.staging tempDir scope group node)
    (Location.temporary tempDir scope other)
  /-- The same of the jobs that nodes become, whatever their numbers in the run are. -/
  jobs : ∀ (c : RunConfig), c.tempDir = tempDir → ∀ (n n' : Node) (group group' : String) (id id' : Nat),
    ((n.job c scope group id).name = (n'.job c scope group' id').name ↔ group = group' ∧ n.id = n'.id) ∧
    ((n.job c scope group id).staging = (n'.job c scope group' id').staging ↔
      group = group' ∧ n.id = n'.id) ∧
    ∀ node, Path.Beside (n.job c scope group id).staging (Location.temporary tempDir scope node)

/-- Jobs of different groups or nodes share no name and no path, and what they stage is never in the way
of a temporary output. -/
theorem Location.tellsApart (tempDir scope : String) : Location.TellsApart tempDir scope := by
  refine ⟨fun group node => ?_, fun _ _ _ _ => jobName_inj, fun _ _ _ _ => staging_inj,
    fun _ _ => temporary_inj, fun group node other => staging_beside_temporary group node other, ?_⟩
  · rw [jobName_eq, String.append_assoc]
  · rintro c rfl n n' group group' id id'
    exact ⟨jobName_inj, staging_inj, fun node => staging_beside_temporary group n.id node⟩

end Wavefront
