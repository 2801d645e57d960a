import Wavefront.Config.Basic
import Wavefront.Text.Numeral
set_option autoImplicit false

/-!
Settings by name. Each field of a configuration that a single text can hold is a `Setting`, with a key in
property maps and a name in the environment. A configuration flattens into a property map, and a
property map with sound values makes a configuration: the settings take their keys out of the map and
all else stays behind as extra properties.
-/
namespace Wavefront

/-- A field of a configuration that has a key of its own. -/
inductive Setting where
  | lastInputChunkSize | disableCombiner | pollIntervalMs | tempDir
  | jobTracker | defaultFs | queue | defaultParallelism
deriving DecidableEq, Repr

namespace Setting

def all : List Setting :=
  [.lastInputChunkSize, .disableCombiner, .pollIntervalMs, .tempDir, .jobTracker, .defaultFs, .queue,
    .defaultParallelism]

def key : Setting → String
  | .lastInputChunkSize => "last.input.chunksize"
  | .disableCombiner => "exec.nocombiner"
  | .pollIntervalMs => "exec.poll.interval.ms"
  | .tempDir => "exec.temp.dir"
  | .jobTracker => "cluster.job.tracker"
  | .defaultFs => "cluster.default.fs"
  | .queue => "cluster.queue"
  | .defaultParallelism => "cluster.default.parallelism"

def environmentName : Setting → String
  | .lastInputChunkSize => "JOBWAVE_LAST_INPUT_CHUNKSIZE"
  | .disableCombiner => "JOBWAVE_NO_COMBINER"
  | .pollIntervalMs => "JOBWAVE_POLL_INTERVAL_MS"
  | .tempDir => "JOBWAVE_TEMP_DIR"
  | .jobTracker => "JOBWAVE_JOB_TRACKER"
  | .defaultFs => "JOBWAVE_DEFAULT_FS"
  | .queue => "JOBWAVE_QUEUE"
  | .defaultParallelism => "JOBWAVE_DEFAULT_PARALLELISM"

def ofKey? (key : String) : Option Setting := all.find? (·.key == key)

theorem mem_all (s : Setting) : s ∈ all := by cases s <;> decide

end Setting

/-- The spellings of a switch, blanks at the ends and the case of letters aside. -/
def switch? (s : String) : Option Bool :=
  let word := Text.lower (Text.trim s)
  if word = "true" ∨ word = "1" ∨ word = "yes" then some true
  else if word = "false" ∨ word = "0" ∨ word = "no" then some false
  else none

def switchText (b : Bool) : String := if b then "true" else "false"

/-- A numeral of 64 bits without anything around it. -/
def word64? (s : String) : Option UInt64 := (Text.numeral? Text.wordBound s).map UInt64.ofNat

/-- A numeral of 32 bits without anything around it. -/
def word32? (s : String) : Option UInt32 := (Text.numeral? Text.halfWordBound s).map UInt32.ofNat

namespace RunConfig

/-- The text of a setting; a cluster string that is not set has none. -/
def text? (c : RunConfig) : Setting → Option String
  | .lastInputChunkSize => some (toString c.lastInputChunkSize.toNat)
  | .disableCombiner => some (switchText c.disableCombiner)
  | .pollIntervalMs => some (toString c.pollIntervalMs.toNat)
  | .tempDir => some c.tempDir
  | .jobTracker => c.cluster.jobTracker
  | .defaultFs => c.cluster.defaultFs
  | .queue => c.cluster.queue
  | .defaultParallelism => some (toString c.cluster.defaultParallelism.toNat)

/-- The settings that have a text, by key. -/
def settingEntries (c : RunConfig) : List (String × String) :=
  Setting.all.filterMap fun s => (c.text? s).map fun text => (s.key, text)

/-- All of a configuration as one property map. A setting wins over an extra property of its key. -/
def toProperties (c : RunConfig) : Properties := c.properties.insertAll c.settingEntries

/-- Sets a number read from a property, blanks around it aside. -/
def withNumber {α : Type} (read : String → Option α) (s : Setting) (value : String)
    (set : α → RunConfig) : Except ConfigFault RunConfig :=
  match read (Text.trim value) with
  | some n => .ok (set n)
  | none => .error (.notANumber s.key value)

def setText (c : RunConfig) (s : Setting) (value : String) : Except ConfigFault RunConfig :=
  match s with
  | .lastInputChunkSize => withNumber word64? s value fun n => { c with lastInputChunkSize := n }
  | .disableCombiner =>
    match switch? value with
    | some b => .ok { c with disableCombiner := b }
    | none => .error (.notASwitch s.key value)
  | .pollIntervalMs => withNumber word64? s value fun n => { c with pollIntervalMs := n }
  | .tempDir => .ok { c with tempDir := value }
  | .jobTracker => .ok { c with cluster := { c.cluster with jobTracker := some value } }
  | .defaultFs => .ok { c with cluster := { c.cluster with defaultFs := some value } }
  | .queue => .ok { c with cluster := { c.cluster with queue := some value } }
  | .defaultParallelism =>
    withNumber word32? s value fun n => { c with cluster := { c.cluster with defaultParallelism := n } }

/-- Sets the setting of a key, or else an extra property. -/
def setProperty (c : RunConfig) (key value : String) : Except ConfigFault RunConfig :=
  match Setting.ofKey? key with
  | some s => c.setText s value
  | none => .ok { c with properties := c.properties.insert key value }

/-- The configuration of a property map; of several bad values that of the least key is reported. -/
def ofProperties (p : Properties) : Except ConfigFault RunConfig :=
  p.entries.foldlM (fun c entry => c.setProperty entry.1 entry.2) standard

/-- What the environment says of a setting, if that can be read. -/
def readVariable {α : Type} (lookUp : String → Option String) (read : String → Option α) (s : Setting)
    (otherwise : α) : α :=
  ((lookUp s.environmentName).bind read).getD otherwise

/-- The configuration that an environment asks for. What cannot be read is passed over; a number with
blanks around it cannot. -/
def ofEnvironment (lookUp : String → Option String) : RunConfig :=
  { lastInputChunkSize := readVariable lookUp word64? .lastInputChunkSize standard.lastInputChunkSize
    disableCombiner := readVariable lookUp switch? .disableCombiner standard.disableCombiner
    pollIntervalMs := readVariable lookUp word64? .pollIntervalMs standard.pollIntervalMs
    tempDir := (lookUp Setting.tempDir.environmentName).getD standard.tempDir
    cluster := {
      jobTracker := lookUp Setting.jobTracker.environmentName
      defaultFs := lookUp Setting.defaultFs.environmentName
      queue := lookUp Setting.queue.environmentName
      defaultParallelism :=
        readVariable lookUp word32? .defaultParallelism standard.cluster.defaultParallelism }
    properties := standard.properties }

/-- Refuses the configurations that no run can use. -/
def validate (c : RunConfig) : Except ConfigFault Unit :=
  if c.lastInputChunkSize = 0 then .error (.notPositive Setting.lastInputChunkSize.key)
  else if c.pollIntervalMs = 0 then .error (.notPositive Setting.pollIntervalMs.key)
  else if c.cluster.defaultParallelism = 0 then .error (.notPositive Setting.defaultParallelism.key)
  else if (Text.trim c.tempDir).isEmpty then .error (.blank Setting.tempDir.key)
  else .ok ()

end RunConfig

/-- The properties that one job is handed. -/
abbrev Snapshot := Properties

namespace Snapshot

/-- The number a property spells, if it spells one of 64 bits. -/
def number? (s : Snapshot) (key : String) : Option Nat :=
  (s.get? key).bind (Text.numeral? Text.wordBound)

/-- The switch a property spells, if it spells one. -/
def switch? (s : Snapshot) (key : String) : Option Bool := (s.get? key).bind Wavefront.switch?

def toJson (s : Snapshot) : Json := .obj [("properties", Properties.toJson s)]

end Snapshot

end Wavefront
