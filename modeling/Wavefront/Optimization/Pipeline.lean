import Wavefront.Config.Basic
import Wavefront.Optimization.Combine
import Wavefront.Optimization.ExternalCommand
import Wavefront.Optimization.PackageInputs
import Wavefront.Optimization.SchemaFlow
import Wavefront.Optimization.StreamedJoin
import Wavefront.Drafting.Placement
set_option autoImplicit false

/-!
The optimization of a job graph. The passes run in a fixed order, because a later one relies on what an
earlier one has written; `compile` drafts the graph of a plan and runs them all.
-/
namespace Wavefront

/-- A revision of the whole graph. -/
inductive Pass where
  | combiner (chunkSize : Nat)
  | annotatePackages
  | streamDetection
  | lastInputStreaming (chunkSize : Nat)
  | keyTypeDiscovery
deriving DecidableEq, Repr

namespace Pass

def name : Pass → String
  | .combiner _ => "combiner"
  | .annotatePackages => "package-annotation"
  | .streamDetection => "stream-detection"
  | .lastInputStreaming _ => "last-input-streaming"
  | .keyTypeDiscovery => "key-type-discovery"

/-- Revises the nodes of a graph in turn. -/
def onNodes (revise : Node → Revision Node) (g : Graph) : Revision Graph :=
  (Revision.sweep revise g.nodes).map fun nodes => { g with nodes }

def apply : Pass → Graph → Revision Graph
  | .combiner chunkSize => onNodes (Optimization.addCombinePlan chunkSize)
  | .annotatePackages => onNodes Optimization.annotatePackages
  | .streamDetection => onNodes Optimization.markStreams
  | .lastInputStreaming chunkSize => onNodes (Optimization.streamLastInputs chunkSize)
  | .keyTypeDiscovery => Optimization.discoverKeyTypes

/-- The passes that a configuration asks for, in their order. -/
def pipeline (config : RunConfig) : List Pass :=
  let chunkSize := config.lastInputChunkSize.toNat
  (if config.disableCombiner then [] else [.combiner chunkSize]) ++
    [.annotatePackages, .streamDetection, .lastInputStreaming chunkSize, .keyTypeDiscovery]

/-- Runs passes in turn, up to the first that stops. -/
def applyAll (passes : List Pass) (g : Graph) : Revision Graph :=
  passes.foldl (fun r pass => r.bind pass.apply) (.done g)

end Pass

def Plan.compile (p : Plan) (config : RunConfig) : Except Error Graph := do
  let g ← p.toGraph config
  (Pass.applyAll (Pass.pipeline config) g).toExcept

end Wavefront
