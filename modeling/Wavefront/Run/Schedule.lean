import Wavefront.Graph.Basic
import Wavefront.Run.Committer
import Wavefront.Run.Materialization
set_option autoImplicit false

/-!
Schedules. A node is ready when all nodes it reads are complete; a wave takes all ready nodes that no
wave has had yet. Committing a wave puts the outputs of its successful jobs in place and completes their
nodes. Temporary outputs are remembered until the run is over.
-/
namespace Wavefront

/-- How far a run has come on its job graph. -/
structure Schedule where
  /-- The nodes that some wave has had. -/
  scheduled : SortedSet Nat
  /-- The nodes whose outputs are in place. -/
  completed : SortedSet Nat
  /-- The waves that were committed, by number. -/
  committed : SortedSet Nat
  /-- The jobs with temporary outputs in place. -/
  temporaries : List Job
  nextJob : Nat
  nextSeq : Nat
deriving DecidableEq

namespace Schedule

def start : Schedule := ⟨.empty, .empty, .empty, [], 0, 0⟩

def isReady (s : Schedule) (g : Graph) (id : Nat) : Bool :=
  !s.scheduled.contains id && (g.predecessors id).all s.completed.contains

def ready (s : Schedule) (g : Graph) : List Nat := (g.nodes.map Node.id).filter (s.isReady g)

/-- The jobs of some nodes, numbered from `id`. -/
def jobs (s : Schedule) (c : RunConfig) (g : Graph) (group : String) (id : Nat) :
    List Nat → Except Error (List Job)
  | [] => .ok []
  | node :: rest =>
    match g.node? node with
    | none => .error (.invariant (.missingNode node))
    | some n => do
      let job ← n.materialize c g.scope s.completed group id
      return job :: (← jobs s c g group (id + 1) rest)

/-- The next wave with the schedule after it, or nothing once every node has had its wave. A node that
cannot become a job keeps the whole wave back. -/
def next (s : Schedule) (c : RunConfig) (g : Graph) (group : String) :
    Except Error (Option (Wave × Schedule)) :=
  if s.scheduled.size = g.nodes.length then .ok none
  else
    let ready := s.ready g
    if ready.isEmpty then .error (.invariant (.noneReady (g.nodes.length - s.scheduled.size)))
    else do
      let jobs ← s.jobs c g group s.nextJob ready
      return some (⟨group, s.nextSeq, jobs⟩,
        { s with
          scheduled := s.scheduled.insertAll ready
          nextJob := s.nextJob + jobs.length
          nextSeq := s.nextSeq + 1 })

/-- The schedule after the output of a job was put in place. -/
def complete (s : Schedule) (job : Job) : Schedule :=
  { s with
    completed := s.completed.insertAll job.nodes
    temporaries := if job.temporary then s.temporaries ++ [job] else s.temporaries }

section World

variable {m : Type → Type} [Monad m]

def commitJob (committer : Committer m) (job : Job) : Step (StateT Schedule m) Error Unit := do
  ExceptT.adapt (Error.commit job.name) (committer.commit job).widen
  modify (·.complete job)

/-- Commits the jobs of a wave that have succeeded. A wave is committed once. -/
def commit (committer : Committer m) (wave : Wave) (succeeded : List Nat) :
    Step (StateT Schedule m) Error Unit := do
  let s ← get
  if s.committed.contains wave.seq then throw (.invariant (.waveCommitted wave.seq))
  set { s with committed := s.committed.insert wave.seq }
  (wave.jobs.filter fun job => succeeded.contains job.id).forM (commitJob committer)

def discardJob (committer : Committer m) (job : Job) : Step (StateT Schedule m) Error Unit :=
  ExceptT.adapt (Error.commit job.name) (committer.discard job).widen

/-- Drops the temporary outputs. All are forgotten, also those that come after one that cannot be
dropped. -/
def cleanup (committer : Committer m) : Step (StateT Schedule m) Error Unit := do
  let s ← get
  set { s with temporaries := [] }
  s.temporaries.forM (discardJob committer)

end World

end Schedule

/-- Where a launch gets its waves from. -/
structure WaveSource (m : Type → Type) where
  /-- The next wave of a graph, or nothing once every node has had its wave. -/
  next : Graph → String → Step m Error (Option Wave)
  /-- Commits the jobs of a wave that have succeeded. -/
  commit : Wave → List Nat → Step m Error Unit
  /-- Drops the temporary outputs at the end of a run. -/
  cleanup : Step m Error Unit

def Schedule.waves {m : Type → Type} [Monad m] (c : RunConfig) (committer : Committer m) :
    WaveSource (StateT Schedule m) where
  next g group := do
    match ← Step.ofExcept ((← get).next c g group) with
    | none => return none
    | some (wave, s) =>
      set s
      return some wave
  commit := Schedule.commit committer
  cleanup := Schedule.cleanup committer

end Wavefront
