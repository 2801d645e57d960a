import Wavefront.Run.Cluster
import Wavefront.Run.Outcome
import Wavefront.Run.Progress
import Wavefront.Run.Schedule
set_option autoImplicit false

/-!
Launches. A wave is submitted, looked at until the cluster says that it has ended, and committed; then
the next wave follows. A failed job ends the run after its wave. Failed jobs are part of the outcome; a
launch itself fails only where a wave cannot be had or committed, or where the cluster refuses.
-/
namespace Wavefront

/-- Why a launch has no outcome. -/
inductive LaunchFault where
  | error (fault : Error)
  | cluster (fault : ClusterFault)
  /-- The limits of the launch are used up. -/
  | unfinished
deriving DecidableEq, Repr

def LaunchFault.message : LaunchFault → String
  | .error fault => fault.message
  | .cluster fault => "substrate: " ++ fault.message
  | .unfinished => "the run did not end within its limits"

/-- How long a launch goes on. -/
structure Limits where
  /-- How many waves are asked for. -/
  waves : Nat
  /-- How often each wave is looked at. -/
  polls : Nat

/-- What a launch has seen. -/
structure Journal (α : Type) where
  tracker : Tracker α
  successful : List JobRecord
  waves : List (List Nat)
  samples : List α
  lines : List String

namespace Journal

variable {α : Type} [ProgressNumber α]

def start (nodes : Nat) : Journal α := ⟨.start nodes, [], [], [], []⟩

def submitted (j : Journal α) (wave : Wave) : Journal α := { j with waves := j.waves ++ [wave.jobIds] }

def observe (j : Journal α) (readings : List α) : Journal α :=
  let (points, tracker) := j.tracker.update (waveDone readings)
  { j with
    tracker := tracker
    samples := j.samples ++ [tracker.value]
    lines := j.lines ++ (points.map fun n => toString n ++ "% complete").toList }

def finished (j : Journal α) (wave : Wave) (successful : List JobRecord) : Journal α :=
  { j with
    tracker := j.tracker.waveFinished wave.jobs.length
    successful := j.successful ++ successful }

def success (j : Journal α) (group : String) (successful : List JobRecord) : Outcome α :=
  ⟨group, true, successful, [], j.waves, j.samples, j.lines ++ ["100% complete", "Success!"]⟩

def failure (j : Journal α) (group : String) (failed : List JobRecord) : Outcome α :=
  ⟨group, false, j.successful, failed, j.waves, j.samples,
    j.lines ++ "Map reduce job failed" :: failed.map JobRecord.failureLine⟩

end Journal

/-- All that a launch works with. -/
structure Launch (m : Type → Type) (α : Type) where
  source : WaveSource m
  cluster : Cluster m α
  limits : Limits
  /-- What happens between two looks at a wave. -/
  pause : m Unit
  graph : Graph
  group : String

namespace Launch

variable {m : Type → Type} [Monad m] {α : Type} [ProgressNumber α]

def ofSource {β : Type} (step : Step m Error β) : Step m LaunchFault β := ExceptT.adapt .error step

def ofCluster {β : Type} (step : Step m ClusterFault β) : Step m LaunchFault β :=
  ExceptT.adapt .cluster step

/-- Looks at a wave until it has ended, at most so many times. -/
def poll (l : Launch m α) (wave : Wave) : Nat → Journal α → Step m LaunchFault (Journal α)
  | 0, _ => throw .unfinished
  | looks + 1, journal => do
    let finished ← ofCluster l.cluster.allFinished
    let readings ← wave.jobs.mapM fun job => (l.cluster.progress job.id : m α)
    let journal := journal.observe readings
    if finished then return journal
    else do
      l.pause
      poll l wave looks journal

def record (l : Launch m α) (job : Job) : m JobRecord := do
  match ← l.cluster.status job.id with
  | .succeeded => return .ofJob job .succeeded none
  | status => return .ofJob job status (← l.cluster.message job.id)

def withStats (l : Launch m α) (r : JobRecord) : Step m LaunchFault JobRecord := do
  return { r with stats := some (← ofCluster (l.cluster.stats r.job)) }

def succeed (l : Launch m α) (journal : Journal α) : Step m LaunchFault (Outcome α) := do
  ofSource l.source.cleanup
  return journal.success l.group (← journal.successful.mapM l.withStats)

def fail (l : Launch m α) (journal : Journal α) (failed : List JobRecord) :
    Step m LaunchFault (Outcome α) := do
  ofCluster l.cluster.stop
  ofSource l.source.cleanup
  return journal.failure l.group (← failed.mapM l.withStats)

/-- Takes a wave from submission to commit. The answer holds the jobs that have failed. -/
def runWave (l : Launch m α) (wave : Wave) (journal : Journal α) :
    Step m LaunchFault (Journal α × List JobRecord) := do
  ofCluster (l.cluster.submit wave)
  let journal ← l.poll wave l.limits.polls (journal.submitted wave)
  let records ← wave.jobs.mapM fun job => (l.record job : m JobRecord)
  let (successful, failed) := records.partition fun r => r.status == .succeeded
  ofSource (l.source.commit wave (successful.map JobRecord.job))
  return (journal.finished wave successful, failed)

/-- Takes wave after wave, at most so many. -/
def runWaves (l : Launch m α) : Nat → Journal α → Step m LaunchFault (Outcome α)
  | 0, _ => throw .unfinished
  | waves + 1, journal => do
    match ← ofSource (l.source.next l.graph l.group) with
    | none => l.succeed journal
    | some wave =>
      let (journal, failed) ← l.runWave wave journal
      if failed.isEmpty then runWaves l waves journal else l.fail journal failed

def run (l : Launch m α) : Step m LaunchFault (Outcome α) :=
  l.runWaves l.limits.waves (.start l.graph.nodes.length)

end Launch

end Wavefront
