import Wavefront.Config.Basic
set_option autoImplicit false

/-!
Settings that a plan document carries. What an overlay leaves open stays as it is in the configuration
under it; its extra properties are added to those already there.
-/
namespace Wavefront

/-- Settings laid over a configuration. -/
structure ConfigOverlay where
  lastInputChunkSize : Option UInt64
  disableCombiner : Option Bool
  pollIntervalMs : Option UInt64
  tempDir : Option String
  defaultParallelism : Option UInt32
  properties : Properties
deriving DecidableEq

namespace ConfigOverlay

def empty : ConfigOverlay := ⟨none, none, none, none, none, Properties.empty⟩

/-- Lays the settings of an overlay over a configuration. -/
def apply (o : ConfigOverlay) (c : RunConfig) : RunConfig :=
  { lastInputChunkSize := o.lastInputChunkSize.getD c.lastInputChunkSize
    disableCombiner := o.disableCombiner.getD c.disableCombiner
    pollIntervalMs := o.pollIntervalMs.getD c.pollIntervalMs
    tempDir := o.tempDir.getD c.tempDir
    cluster := { c.cluster with
      defaultParallelism := o.defaultParallelism.getD c.cluster.defaultParallelism }
    properties := c.properties.insertAll o.properties.entries }

def toJson (o : ConfigOverlay) : Json :=
  .obj [("last_input_chunk_size", Json.option (Json.nat ∘ UInt64.toNat) o.lastInputChunkSize),
    ("disable_combiner", Json.option .bool o.disableCombiner),
    ("poll_interval_ms", Json.option (Json.nat ∘ UInt64.toNat) o.pollIntervalMs),
    ("temp_dir", Json.option .str o.tempDir),
    ("default_parallelism", Json.option (Json.nat ∘ UInt32.toNat) o.defaultParallelism),
    ("properties", o.properties.toJson)]

/-- Reads the document form of an overlay; every field may be left out. -/
def ofJson? (j : Json) : Option ConfigOverlay := do
  let members ← Json.recordUpTo? 6 ["last_input_chunk_size", "disable_combiner", "poll_interval_ms",
    "temp_dir", "default_parallelism", "properties"] j
  return {
    lastInputChunkSize := (← Json.optional? members "last_input_chunk_size" Json.word?).map .ofNat
    disableCombiner := ← Json.optional? members "disable_combiner" Json.bool?
    pollIntervalMs := (← Json.optional? members "poll_interval_ms" Json.word?).map .ofNat
    tempDir := ← Json.optional? members "temp_dir" Json.text?
    defaultParallelism := (← Json.optional? members "default_parallelism" Json.halfWord?).map .ofNat
    properties := ← Json.withDefault? members "properties" Properties.ofJson? Properties.empty }

end ConfigOverlay

end Wavefront
