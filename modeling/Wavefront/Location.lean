import Wavefront.Label
import Wavefront.Text.Blank
set_option autoImplicit false

/-!
Where a run keeps its files, and how its jobs are named. Temporary and staging outputs of a plan share a
directory that the scope of the plan names.
-/
namespace Wavefront.Location

/-- The directory of a plan under the temporary directory. -/
def scopeDir (tempDir scope : String) : String := Text.trimEnd '/' tempDir ++ "/" ++ scope

/-- Where the temporary output of a node lives. -/
def temporary (tempDir scope : String) (node : Nat) : String :=
  scopeDir tempDir scope ++ "/tmp-" ++ toString node

/-- The name of the job of a node in a group of jobs. -/
def jobName (group : String) (node : Nat) : String := group ++ "-" ++ nodeLabel node

/-- Where a job writes before its output is committed. -/
def staging (tempDir scope group : String) (node : Nat) : String :=
  scopeDir tempDir scope ++ "/staging/" ++ jobName group node

end Wavefront.Location
