import Wavefront.Error
import Wavefront.Files.Basic
import Wavefront.Files.Path
import Wavefront.Run.Job
set_option autoImplicit false

/-!
Committers put the outputs of jobs where they belong. The committer on files moves the staging output to
the destination in one step, so that a destination is either absent or complete. A final destination is
never replaced; a temporary one that is there was left by an earlier run of the plan and makes way.
-/
namespace Wavefront

/-- What is done with the output of a job that has succeeded. -/
structure Committer (m : Type → Type) where
  /-- Puts the output in its place. -/
  commit : Job → Step m CommitFault Unit
  /-- Drops a temporary output that the run needs no longer. -/
  discard : Job → Step m CommitFault Unit

namespace Committer

/-- A committer in a world is one in every world around it. -/
def widen {m n : Type → Type} [MonadLift m n] (c : Committer m) : Committer n where
  commit job := (c.commit job).widen
  discard job := (c.discard job).widen

/-- Leaves everything in place. -/
def idle {m : Type → Type} [Monad m] : Committer m where
  commit _ := pure ()
  discard _ := pure ()

variable {m : Type → Type} [Monad m]

/-- Rewords what the file system says. -/
def explained {α : Type} (fault : String → CommitFault) (step : Step m FileFault α) :
    Step m CommitFault α :=
  ExceptT.adapt (fun f => fault f.message) step

/-- Makes sure that nothing is at the destination of a job. -/
def clearDestination (fs : FileSystem m) (job : Job) : Step m CommitFault Unit := do
  if ← fs.isPresent job.destination then
    if job.temporary then
      explained (.removeStale job.destination) (fs.remove job.destination)
    else throw (.destinationExists job.destination)

def createParent (fs : FileSystem m) (path : String) : Step m CommitFault Unit :=
  match Path.parent? path with
  | some parent => explained (.createParent parent) (fs.createDirectories parent)
  | none => pure ()

/-- Moves outputs from staging to destination. -/
def onFiles (fs : FileSystem m) : Committer m where
  commit job := do
    if !(← fs.isPresent job.staging) then throw (.stagingMissing job.staging)
    clearDestination fs job
    createParent fs job.destination
    explained (.rename job.destination) (fs.rename job.staging job.destination)
  discard job := do
    if job.temporary then
      if ← fs.isPresent job.destination then
        explained (.removeTemporary job.destination) (fs.remove job.destination)

end Committer

end Wavefront
