import Wavefront.Files.Basic
import Wavefront.Files.Path
import Wavefront.Run.Cluster
import Wavefront.Run.Progress
set_option autoImplicit false

/-!
A simulated cluster. Every job runs for as many ticks as its script says, a look at the cluster being one
tick, and then succeeds or fails as the script says. A job that succeeds can leave a marker in its
staging directory, so that there is something to commit.
-/
namespace Wavefront

/-- What becomes of a job. -/
structure JobScript where
  /-- The ticks a job takes; no job takes less than one. -/
  ticks : UInt32
  /-- What a job that fails says. -/
  failure : Option String
  /-- The records it reads. -/
  records : UInt64
deriving DecidableEq

namespace JobScript

/-- The script of jobs that nothing is said of. -/
def standard : JobScript := ⟨3, none, 1000⟩

def failing (message : String) : JobScript := { standard with failure := some message }

end JobScript

structure SimulatedJob where
  job : Job
  script : JobScript
  ticksDone : Nat
  status : JobStatus
  message : Option String
deriving DecidableEq

namespace SimulatedJob

def start (job : Job) (script : JobScript) : SimulatedJob := ⟨job, script, 0, .running, none⟩

def advance (s : SimulatedJob) : SimulatedJob := { s with ticksDone := s.ticksDone + 1 }

def isDue (s : SimulatedJob) : Bool := s.script.ticks.toNat ≤ s.ticksDone

def conclude (s : SimulatedJob) : SimulatedJob :=
  match s.script.failure with
  | some message => { s with status := .failed, message := some message }
  | none => { s with status := .succeeded }

def stop (s : SimulatedJob) : SimulatedJob :=
  if s.status.isTerminal then s else { s with status := .failed, message := some "killed by driver" }

def progress {α : Type} [ProgressNumber α] (s : SimulatedJob) : α :=
  if s.status.isTerminal then ((1 : Nat) : α)
  else if s.script.ticks = 0 then ((0 : Nat) : α)
  else (s.ticksDone : α) / (s.script.ticks.toNat : α)

/-- The records that the job has written: a shuffle halves them. -/
def recordsOut (s : SimulatedJob) : UInt64 :=
  if s.status = .succeeded then
    if s.job.isMapOnly then s.script.records else s.script.records / 2
  else 0

/-- What the job reports. A record takes 64 bytes and a tick 100 milliseconds. -/
def stats (s : SimulatedJob) : JobStats where
  job := s.job.id
  nodes := s.job.nodes
  mapTasks := .ofNat s.job.mapTasks
  reduceTasks := .ofNat s.job.reduceTasks
  recordsIn := s.script.records
  recordsOut := s.recordsOut
  bytesWritten := s.recordsOut * 64
  durationMs := .ofNat (s.ticksDone * 100)

end SimulatedJob

structure Simulation where
  defaultScript : JobScript
  /-- The scripts of some nodes, the latest first. -/
  scripts : List (Nat × JobScript)
  /-- Whether jobs that succeed leave a marker. -/
  marks : Bool
  /-- All jobs that were ever submitted, by number. -/
  jobs : List (Nat × SimulatedJob)
  /-- The jobs of the last wave. -/
  current : List Nat
  /-- The jobs of every wave, in the order of submission. -/
  submissions : List (List Nat)

namespace Simulation

def start (defaultScript : JobScript) (marks : Bool) : Simulation := ⟨defaultScript, [], marks, [], [], []⟩

def withScript (s : Simulation) (node : Nat) (script : JobScript) : Simulation :=
  { s with scripts := (node, script) :: s.scripts }

/-- The script of a job: that of its first node that has one. -/
def scriptOf (s : Simulation) (job : Job) : JobScript :=
  (job.nodes.findSome? (s.scripts.lookup ·)).getD s.defaultScript

def job? (s : Simulation) (id : Nat) : Option SimulatedJob := s.jobs.lookup id

/-- Puts a job in the place of what has its number. -/
def putJob (id : Nat) (job : SimulatedJob) : List (Nat × SimulatedJob) → List (Nat × SimulatedJob)
  | [] => [(id, job)]
  | (other, old) :: rest =>
    if other = id then (id, job) :: rest else (other, old) :: putJob id job rest

/-- The cluster with a job in the place of what has its number. -/
def put (s : Simulation) (id : Nat) (job : SimulatedJob) : Simulation :=
  { s with jobs := putJob id job s.jobs }

/-- Whether a number is that of a job that has not ended. -/
def isRunning (s : Simulation) (id : Nat) : Bool := (s.job? id).any fun job => !job.status.isTerminal

/-- The first job of the last wave that has not ended. -/
def running? (s : Simulation) : Option Nat := s.current.find? s.isRunning

def nodeOf? (s : Simulation) (id : Nat) : Option Nat := (s.job? id).bind fun job => job.job.nodes.head?

def submittedJobs (s : Simulation) : Nat := s.submissions.flatten.length

/-- Starts the jobs of a wave, if those of the wave before have ended. -/
def submit (s : Simulation) (wave : Wave) : Except ClusterFault Simulation :=
  match s.running? with
  | some job => .error (.stillRunning job wave.seq)
  | none =>
    let begun := { s with current := wave.jobIds, submissions := s.submissions ++ [wave.jobIds] }
    .ok (wave.jobs.foldl (fun s job => s.put job.id (.start job (s.scriptOf job))) begun)

/-- Ends the jobs of the last wave. -/
def stop (s : Simulation) : Simulation :=
  s.current.foldl (fun s id => match s.job? id with
    | some job => s.put id job.stop
    | none => s) s

def status (s : Simulation) (id : Nat) : JobStatus :=
  match s.job? id with
  | some job => job.status
  | none => .waiting

def progress {α : Type} [ProgressNumber α] (s : Simulation) (id : Nat) : α :=
  match s.job? id with
  | some job => job.progress
  | none => ((0 : Nat) : α)

def stats (s : Simulation) (id : Nat) : Except ClusterFault JobStats :=
  match s.job? id with
  | some job => .ok job.stats
  | none => .error (.neverSubmitted id)

/-- The file that marks an output as complete. -/
def marker : String := "_SUCCESS"

section World

variable {m : Type → Type} [Monad m]

def writeMarker (fs : FileSystem m) (staging : String) : Step m ClusterFault Unit :=
  ExceptT.adapt (fun f => .writeFailed staging f.message) do
    fs.createDirectories staging
    fs.writeFile (Path.join staging marker) ""

/-- One tick of a job. Where the marker cannot be written, the tick counts but the job goes on. -/
def tickJob (fs : FileSystem m) (id : Nat) : Step (StateT Simulation m) ClusterFault Unit := do
  match (← get).job? id with
  | none => pure ()
  | some job =>
    if job.status.isTerminal then pure ()
    else
      let job := job.advance
      modify (·.put id job)
      if job.isDue then
        if (← get).marks ∧ job.script.failure.isNone then
          (writeMarker fs job.job.staging).widen
        modify (·.put id job.conclude)

/-- One tick of the last wave. -/
def tick (fs : FileSystem m) : Step (StateT Simulation m) ClusterFault Unit := do
  (← get).current.forM (tickJob fs)

def cluster {α : Type} [ProgressNumber α] (fs : FileSystem m) : Cluster (StateT Simulation m) α where
  submit wave := do
    set (← Step.ofExcept ((← get).submit wave))
  allFinished := do
    tick fs
    return (← get).running?.isNone
  progress job := return (← get).progress job
  status job := return (← get).status job
  message job := return ((← get).job? job).bind SimulatedJob.message
  stop := modify Simulation.stop
  stats job := do Step.ofExcept ((← get).stats job)

end World

end Simulation

end Wavefront
