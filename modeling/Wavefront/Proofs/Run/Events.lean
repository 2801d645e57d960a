import Wavefront.Proofs.Step
import Wavefront.Run.Launch
set_option autoImplicit false

/-!
Events of a launch. Whatever a launch asks of its source of waves and of its cluster, and whatever a
schedule asks of its committer, is written down with the answer, in the order of the answers. Writing
down is done by sources, clusters and committers that pass every call on.
-/
namespace Wavefront

/-- A call and its answer. -/
inductive Event where
  | next (answer : Except Error (Option Wave))
  | submit (wave : Wave) (answer : Except ClusterFault Unit)
  | look (answer : Except ClusterFault Bool)
  | status (job : Nat) (answer : JobStatus)
  | message (job : Nat) (answer : Option String)
  | commit (wave : Wave) (succeeded : List Nat) (answer : Except Error Unit)
  | cleanup (answer : Except Error Unit)
  | stop (answer : Except ClusterFault Unit)
  | stats (job : Nat) (answer : Except ClusterFault JobStats)
  /-- The committer is asked to put the output of a job in place. -/
  | store (job : Job) (answer : Except CommitFault Unit)
  /-- The committer is asked to drop the output of a job. -/
  | discard (job : Job) (answer : Except CommitFault Unit)

/-- A world with a record of events. -/
abbrev Recorded (m : Type → Type) : Type → Type := StateT (List Event) m

section Recording

variable {m : Type → Type} [Monad m] {ε α : Type}

/-- Takes a step and writes down its answer. -/
def recording (event : α → Event) (x : m α) : Recorded m α := do
  let answer ← (MonadLift.monadLift x : Recorded m α)
  modify (· ++ [event answer])
  return answer

def Step.recording (event : Except ε α → Event) (x : Step m ε α) : Step (Recorded m) ε α :=
  ExceptT.mk (Wavefront.recording event (ExceptT.run x))

def WaveSource.recorded (s : WaveSource m) : WaveSource (Recorded m) where
  next g group := .recording .next (s.next g group)
  commit wave succeeded := .recording (.commit wave succeeded) (s.commit wave succeeded)
  cleanup := .recording .cleanup s.cleanup

/-- A cluster whose calls are written down; what it says of progress is not. -/
def Cluster.recorded (c : Cluster m α) : Cluster (Recorded m) α where
  submit wave := .recording (.submit wave) (c.submit wave)
  allFinished := .recording .look c.allFinished
  progress job := MonadLift.monadLift (c.progress job)
  status job := Wavefront.recording (.status job) (c.status job)
  message job := Wavefront.recording (.message job) (c.message job)
  stop := .recording .stop c.stop
  stats job := .recording (.stats job) (c.stats job)

def Committer.recorded (c : Committer m) : Committer (Recorded m) where
  commit job := .recording (.store job) (c.commit job)
  discard job := .recording (.discard job) (c.discard job)

def Launch.recorded (l : Launch m α) : Launch (Recorded m) α where
  source := l.source.recorded
  cluster := l.cluster.recorded
  limits := l.limits
  pause := MonadLift.monadLift l.pause
  graph := l.graph
  group := l.group

variable {W : Type} [Stateful m W]

theorem act_recording (event : α → Event) (x : m α) (log : List Event) (w : W) :
    Stateful.act (recording event x) (log, w) =
      ((Stateful.act x w).1, (log ++ [event (Stateful.act x w).1], (Stateful.act x w).2)) := by
  simp only [recording, Stateful.act_bind, act_monadLift, act_modify, Stateful.act_pure]

theorem Step.act_recording (event : Except ε α → Event) (x : Step m ε α) (log : List Event)
    (w : W) :
    (Step.recording event x).act (log, w) =
      ((x.act w).1, (log ++ [event (x.act w).1], (x.act w).2)) :=
  Wavefront.act_recording event (ExceptT.run x) log w

end Recording

end Wavefront
