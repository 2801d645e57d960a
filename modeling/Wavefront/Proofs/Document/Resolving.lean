import Wavefront.Document.Basic
import Wavefront.Proofs.Plan.Sorting
import Wavefront.Proofs.Plan.Validated
import Wavefront.Proofs.Traversal
set_option autoImplicit false

/-!
How documents resolve. Main statement: a document makes a plan exactly if it has steps, no two of one
name, each reading steps above it only, and the plan of its steps passes the check; otherwise the first
step that is at fault is reported, and the check of the plan only if no step is. The operators of the
plan are the steps in their order, which is also the topological order.
-/
namespace Wavefront

namespace PlanStep

def names (steps : List PlanStep) : List String := steps.map PlanStep.id

/-- What is wrong with a step that comes after steps of some names. A name that is taken goes first, and
of the inputs the first that is not there. -/
inductive Offends (earlier : List String) (s : PlanStep) : DocumentFault → Prop where
  | duplicate (taken : s.id ∈ earlier) : Offends earlier s (.duplicateStep s.id)
  | unknown {known rest : List String} {name : String} (fresh : s.id ∉ earlier)
      (reads : s.inputNames = known ++ name :: rest) (there : ∀ other ∈ known, other ∈ earlier)
      (missing : name ∉ earlier) : Offends earlier s (.unknownInput s.id name)

/-- A property holds of every step and the steps before it. -/
def Throughout (P : List PlanStep → PlanStep → Prop) (steps : List PlanStep) : Prop :=
  ∀ before s after, steps = before ++ s :: after → P before s

/-- No step is at fault. -/
def Sound (steps : List PlanStep) : Prop :=
  Throughout (fun before s => ∀ fault, ¬ s.Offends (names before) fault) steps

/-- What is wrong with the first step that is at fault. -/
def FirstOffence (steps : List PlanStep) (fault : DocumentFault) : Prop :=
  ∃ before s after, steps = before ++ s :: after ∧ Sound before ∧ s.Offends (names before) fault

/-- Every input is a step further up. -/
def Backward (steps : List PlanStep) : Prop :=
  Throughout (fun before s => ∀ name ∈ s.inputNames, ∃ t ∈ before, t.id = name) steps

/-- The operators of some steps, each reading the first steps of the names it asks for. -/
def operators (steps : List PlanStep) : List PlanOp :=
  steps.mapIdx fun i s => ⟨i, s.op, s.inputNames.map (names (steps.take i)).idxOf⟩

end PlanStep

namespace PlanDocument

def plan (d : PlanDocument) : Plan := ⟨PlanStep.operators d.steps⟩

/-- How a document resolves. -/
structure Resolves (d : PlanDocument) : Prop where
  accepted : (∃ p, d.resolve = .ok p) ↔ d.steps ≠ [] ∧ (PlanStep.names d.steps).Nodup ∧
    PlanStep.Backward d.steps ∧ d.plan.validate = .ok ()
  refused : ∀ fault, d.resolve = .error fault ↔
    (d.steps = [] ∧ fault = .empty) ∨ PlanStep.FirstOffence d.steps fault ∨
      (d.steps ≠ [] ∧ PlanStep.Sound d.steps ∧
        ∃ e, d.plan.validate = .error e ∧ fault = .invalid e)
  result : ∀ p, d.resolve = .ok p → p = d.plan
  /-- The operator of a step has its number and reads the steps it names, one by one. -/
  operators : ∀ p, d.resolve = .ok p → p.ops.length = d.steps.length ∧
    ∀ (i : Nat) (s : PlanStep), d.steps[i]? = some s →
      ∃ inputs : List Nat, p.ops[i]? = some ⟨i, s.op, inputs⟩ ∧
        List.Forall₂ (fun name input => input < i ∧ d.steps[input]?.map PlanStep.id = some name)
          s.inputNames inputs
  order : ∀ p, d.resolve = .ok p → p.topologicalOrder = .ok (List.range d.steps.length)
  acyclic : d.resolve ≠ .error (.invalid (.plan .cycle))

end PlanDocument

namespace PlanStep

theorem getElem?_operators (steps : List PlanStep) (i : Nat) :
    (operators steps)[i]? =
      steps[i]?.map fun s => ⟨i, s.op, s.inputNames.map (names (steps.take i)).idxOf⟩ :=
  List.getElem?_mapIdx

/-- A name of a step above a place is found above that place. -/
theorem input_placed {steps : List PlanStep} (backward : Backward steps) {i : Nat} {s : PlanStep}
    (there : steps[i]? = some s) {name : String} (reads : name ∈ s.inputNames) :
    (names (steps.take i)).idxOf name < i ∧
      steps[(names (steps.take i)).idxOf name]?.map PlanStep.id = some name := by
  obtain ⟨inside, here⟩ := List.getElem?_eq_some_iff.mp there
  have split : steps = steps.take i ++ s :: steps.drop (i + 1) := by
    rw [← here, List.cons_getElem_drop_succ, List.take_append_drop]
  obtain ⟨t, above, own⟩ := backward _ s _ split name reads
  have member : name ∈ names (steps.take i) := List.mem_map.mpr ⟨t, above, own⟩
  have placed := List.idxOf_lt_length_iff.mpr member
  have low : (names (steps.take i)).idxOf name < i := by
    have size : (names (steps.take i)).length = min i steps.length := by
      rw [names, List.length_map, List.length_take]
    omega
  refine ⟨low, ?_⟩
  have found : ((steps.take i).map PlanStep.id)[(names (steps.take i)).idxOf name]? = some name :=
    (List.getElem?_eq_getElem placed).trans (congrArg some (List.getElem_idxOf placed))
  rw [List.getElem?_map, List.getElem?_take_of_lt low] at found
  exact found

end PlanStep

namespace Resolution

end Resolution

namespace PlanDocument

variable {d : PlanDocument}

theorem input_lt (backward : PlanStep.Backward d.steps) :
    ∀ op ∈ d.plan.ops, ∀ input ∈ op.inputs, input < op.id := by
  intro op member input reads
  obtain ⟨i, there⟩ := List.mem_iff_getElem?.mp member
  rw [plan, PlanStep.getElem?_operators] at there
  obtain ⟨s, step, rfl⟩ := Option.map_eq_some_iff.mp there
  obtain ⟨name, among, rfl⟩ := List.mem_map.mp reads
  exact (PlanStep.input_placed backward step among).1

/-- A step that reads itself is at fault for a name that is not above it, not for a circle. -/
example : (⟨none, [⟨"a", some "a", [], .distinct⟩]⟩ : PlanDocument).resolve =
    .error (.unknownInput "a" "a") := rfl

end PlanDocument

end Wavefront
