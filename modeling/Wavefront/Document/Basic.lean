import Wavefront.Config.Overlay
import Wavefront.Plan.Validity
set_option autoImplicit false

/-!
Plan documents. A document lists the steps of a plan by name; a step may only read steps above it, so
the names resolve to the numbers of operators in one walk through the list.
-/
namespace Wavefront

structure PlanStep where
  id : String
  /-- The first input, where it is written apart. -/
  input : Option String
  inputs : List String
  op : Operator
deriving DecidableEq, Repr

/-- A plan by named steps, and the settings it asks for. -/
structure PlanDocument where
  config : Option ConfigOverlay
  steps : List PlanStep
deriving DecidableEq

/-- Why a document makes no plan. -/
inductive DocumentFault where
  | unreadable
  | empty
  | duplicateStep (step : String)
  | unknownInput (step input : String)
  | invalid (error : Error)
deriving DecidableEq, Repr

def DocumentFault.message : DocumentFault → String
  | .unreadable => "yaml: the text is no plan document"
  | .empty => "plan document has no steps"
  | .duplicateStep step => "step '" ++ step ++ "' is declared twice"
  | .unknownInput step input =>
    "step '" ++ step ++ "' reads '" ++ input ++ "', which is not declared above it"
  | .invalid error => "invalid plan: " ++ error.message

namespace PlanStep

def inputNames (s : PlanStep) : List String := s.input.toList ++ s.inputs

end PlanStep

/-- The plan of the steps walked through, and their names in the order of their operators. -/
structure Resolution where
  plan : Plan
  names : List String
deriving DecidableEq, Repr

namespace Resolution

def start : Resolution := ⟨Plan.empty, []⟩

def number (r : Resolution) (step : String) (name : String) : Except DocumentFault Nat :=
  match r.names.idxOf? name with
  | some id => .ok id
  | none => .error (.unknownInput step name)

def add (r : Resolution) (s : PlanStep) : Except DocumentFault Resolution :=
  if s.id ∈ r.names then .error (.duplicateStep s.id)
  else do
    let inputs ← s.inputNames.mapM (r.number s.id)
    return ⟨r.plan.add s.op inputs, r.names ++ [s.id]⟩

end Resolution

namespace PlanDocument

def resolve (d : PlanDocument) : Except DocumentFault Plan :=
  if d.steps.isEmpty then .error .empty
  else do
    let r ← d.steps.foldlM Resolution.add Resolution.start
    (r.plan.validate).mapError DocumentFault.invalid
    return r.plan

def overlay (d : PlanDocument) : ConfigOverlay := d.config.getD ConfigOverlay.empty

end PlanDocument

end Wavefront
