import Wavefront.Label
import Wavefront.Run.Job
import Wavefront.Run.Stats
import Wavefront.Step
set_option autoImplicit false

/-!
Clusters as a launch sees them: waves are submitted, and all that can be seen of a wave is what the
cluster reports when it is looked at.
-/
namespace Wavefront

/-- Why a cluster refuses. -/
inductive ClusterFault where
  | stillRunning (job seq : Nat)
  | neverSubmitted (job : Nat)
  | writeFailed (path text : String)
  | other (reason : String)
deriving DecidableEq, Repr

def ClusterFault.message : ClusterFault → String
  | .stillRunning job seq =>
    jobLabel job ++ " is still running; wave " ++ toString seq ++ " submitted too early"
  | .neverSubmitted job => jobLabel job ++ " was never submitted"
  | .writeFailed path text => "write " ++ path ++ ": " ++ text
  | .other reason => reason

/-- A cluster of a world, with the numbers that it reports progress in. -/
structure Cluster (m : Type → Type) (α : Type) where
  /-- Starts the jobs of a wave. -/
  submit : Wave → Step m ClusterFault Unit
  /-- Whether all jobs of the last wave have ended. -/
  allFinished : Step m ClusterFault Bool
  /-- The share of a job that is done. -/
  progress : Nat → m α
  /-- How far a job has come. -/
  status : Nat → m JobStatus
  /-- What a job says of its failure. -/
  message : Nat → m (Option String)
  /-- Ends all jobs that are still running. -/
  stop : Step m ClusterFault Unit
  /-- What a job reports. -/
  stats : Nat → Step m ClusterFault JobStats

/-- A cluster in a world is one in every world around it. -/
def Cluster.widen {m n : Type → Type} [MonadLift m n] {α : Type} (c : Cluster m α) : Cluster n α where
  submit wave := (c.submit wave).widen
  allFinished := c.allFinished.widen
  progress job := MonadLift.monadLift (c.progress job)
  status job := MonadLift.monadLift (c.status job)
  message job := MonadLift.monadLift (c.message job)
  stop := c.stop.widen
  stats job := (c.stats job).widen

end Wavefront
