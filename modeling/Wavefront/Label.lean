set_option autoImplicit false

/-!
How numbered things are named in messages and paths. The operators of a plan, the nodes of a job graph
and the jobs of a run are numbered apart, each from zero.
-/
namespace Wavefront

def opLabel (id : Nat) : String := "op-" ++ toString id

def nodeLabel (id : Nat) : String := "node-" ++ toString id

def jobLabel (id : Nat) : String := "job-" ++ toString id

end Wavefront
