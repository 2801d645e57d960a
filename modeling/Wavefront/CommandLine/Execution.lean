import Wavefront.CommandLine.Basic
import Wavefront.Document.Reader
import Wavefront.Optimization.Pipeline
import Wavefront.Run.Launch
import Wavefront.Run.Simulation
set_option autoImplicit false

/-!
Commands at work. A command sees the machine through its files, its environment, its clock and a source of
run numbers, and answers with what is to be printed and the exit status.
-/
namespace Wavefront.CommandLine

/-- What a command works on. -/
structure Machine (m : Type → Type) where
  files : FileSystem m
  environment : String → Option String
  /-- Waits so many milliseconds. -/
  sleep : Nat → m Unit
  newRunId : m RunId

/-- What a command leaves behind. -/
structure Report where
  exit : Nat
  output : String
  complaint : String
deriving DecidableEq

/-- Why a command fails. -/
inductive CommandFault where
  | file (fault : FileFault)
  | document (fault : DocumentFault)
  | error (fault : Error)
  | launch (fault : LaunchFault)
deriving DecidableEq

def CommandFault.message : CommandFault → String
  | .file fault => fault.message
  | .document fault => fault.message
  | .error fault => fault.message
  | .launch fault => fault.message

/-- A run on the simulated cluster is asked for as many waves as there are nodes, and once more for the
end; no script asks for more ticks than fit a half word. -/
def simulationLimits (g : Graph) : Limits := ⟨g.nodes.length + 1, Text.halfWordBound⟩

def RunOptions.simulation (o : RunOptions) : Simulation :=
  o.failNodes.foldl
    (fun s node => s.withScript node (.failing ("scripted failure of " ++ nodeLabel node)))
    (.start .standard o.commit)

def summaryText (run : RunId) (o : Outcome Float) : String :=
  let s := o.summary
  (if o.succeeded then "✓" else "✗") ++ " Run " ++ run.text ++ " finished: " ++ toString s.jobs ++
    " jobs in " ++ toString o.waves.length ++ " waves, " ++ toString s.failedJobs ++ " failed\n" ++
    "  Records: " ++ toString s.recordsIn.toNat ++ " in, " ++ toString s.recordsOut.toNat ++ " out (" ++
    toString s.bytesWritten.toNat ++ " bytes written)\n"

section World

variable {m : Type → Type} [Monad m]

/-- A step that depends on nothing but its arguments. -/
def sound {α : Type} (r : Except Error α) : Step m CommandFault α :=
  Step.ofExcept (r.mapError CommandFault.error)

/-- The plan of a document and the configuration: the settings of the document win over the
environment. -/
def load (machine : Machine m) (path : String) : Step m CommandFault (Plan × RunConfig) := do
  let text ← ExceptT.adapt CommandFault.file (machine.files.readFile path)
  let (plan, overlay) ← Step.ofExcept ((PlanDocument.load text).mapError CommandFault.document)
  return (plan, overlay.apply (RunConfig.ofEnvironment machine.environment))

def launch (machine : Machine m) (o : RunOptions) (config : RunConfig) (graph : Graph) :
    Step m CommandFault (Outcome Float) :=
  let committer : Committer m := if o.commit then .onFiles machine.files else .idle
  let cluster : Cluster (StateT Simulation m) Float := Simulation.cluster machine.files
  let launch : Launch (StateT Schedule (StateT Simulation m)) Float := {
    source := Schedule.waves config committer.widen
    cluster := cluster.widen
    limits := simulationLimits graph
    pause := liftM (m := StateT Simulation m) (liftM (machine.sleep config.pollIntervalMs.toNat))
    graph := graph
    group := o.group }
  ExceptT.adapt CommandFault.launch
    (ExceptT.mk ((StateT.run' (ExceptT.run launch.run) Schedule.start).run' o.simulation))

/-- Runs a plan. The answer tells whether all jobs succeeded. -/
def runPlan (machine : Machine m) (o : RunOptions) : Step m CommandFault (Bool × String) := do
  let (plan, config) ← load machine o.plan
  let config := o.apply config
  sound (config.validate.mapError Error.config)
  let graph ← sound (plan.compile config)
  let outcome ← launch machine o config graph
  let run ← ExceptT.lift machine.newRunId
  return (outcome.succeeded,
    if o.json then outcome.pretty run ++ "\n" else summaryText run outcome)

def validatePlan (machine : Machine m) (path : String) : Step m CommandFault String := do
  let (plan, config) ← load machine path
  let graph ← sound (plan.compile config)
  return "  " ++ toString plan.ops.length ++ " operators → " ++ toString graph.nodes.length ++
    " jobs\n✓ Plan is valid\n"

def explainPlan (machine : Machine m) (path : String) (format : ExplainFormat) (verbose : Bool) :
    Step m CommandFault String := do
  let (plan, config) ← load machine path
  return (← sound (plan.compile config)).explain format verbose

def failed (introduction : String) (fault : CommandFault) : Report :=
  ⟨1, "", introduction ++ ": " ++ fault.message ++ "\n"⟩

def execute (machine : Machine m) : Command → m Report
  | .run o => do
    match ← runPlan machine o with
    | .ok (succeeded, text) => return ⟨if succeeded then 0 else 1, text, ""⟩
    | .error fault => return failed "Error" fault
  | .validate path => do
    match ← validatePlan machine path with
    | .ok text => return ⟨0, text, ""⟩
    | .error fault => return failed "Validation failed" fault
  | .explain path format verbose => do
    match ← explainPlan machine path format verbose with
    | .ok text => return ⟨0, text, ""⟩
    | .error fault => return failed "Error" fault

def serve (machine : Machine m) (words : List String) : m Report :=
  match invocation words with
  | .command command => execute machine command
  | .help topic => pure ⟨0, helpText topic, ""⟩
  | .misuse topic reason => pure ⟨2, "", "error: " ++ reason ++ "\n\n" ++ usageLine topic ++
      "\n\nFor more information, try '--help'.\n"⟩

end World

end Wavefront.CommandLine
