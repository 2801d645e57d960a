set_option autoImplicit false

/-!
Progress of a run. What counts is the jobs of earlier waves and what the jobs of this wave report. The
value never falls and stays below one until the run has ended: while jobs are looked at, at least one of
them counts as unfinished. It is worth a line where it has moved by a point since the last line.
-/
namespace Wavefront

/-- Numbers that progress can be counted in. -/
class ProgressNumber (α : Type) extends NatCast α, Add α, Sub α, Div α, LE α where
  /-- The order can be decided; a number that compares with nothing is below nothing. -/
  decideLE : DecidableLE α
  /-- Whether a reading is a number at all. -/
  isFinite : α → Bool
  /-- One point. -/
  hundredth : α
  /-- The whole points of a number, where a billionth less than a point counts as the point. -/
  points : α → Nat

instance ProgressNumber.decidableLE {α : Type} [ProgressNumber α] : DecidableLE α := ProgressNumber.decideLE

instance : ProgressNumber Float where
  natCast := Float.ofNat
  decideLE := inferInstance
  isFinite := Float.isFinite
  hundredth := 0.01
  points x := (x * 100 + 1e-9).toUInt32.toNat

instance : ProgressNumber Rat where
  decideLE := inferInstance
  isFinite _ := true
  hundredth := 1 / 100
  points x := (x * 100 + 1 / 1000000000).floor.toNat

/-- What a job has reported, as a share of the job; what is not finite counts as nothing. -/
def jobFraction {α : Type} [ProgressNumber α] (reading : α) : α :=
  if ProgressNumber.isFinite reading then
    if ((0 : Nat) : α) ≤ reading then
      if reading ≤ ((1 : Nat) : α) then reading else ((1 : Nat) : α)
    else ((0 : Nat) : α)
  else ((0 : Nat) : α)

def waveDone {α : Type} [ProgressNumber α] (readings : List α) : α :=
  readings.foldl (fun sum reading => sum + jobFraction reading) ((0 : Nat) : α)

structure Tracker (α : Type) where
  /-- How many jobs there will be. -/
  total : Nat
  /-- How many jobs the earlier waves had. -/
  completed : Nat
  value : α
  /-- The value at the last line. -/
  lastReported : α

namespace Tracker

variable {α : Type} [ProgressNumber α]

def start (total : Nat) : Tracker α := ⟨total, 0, ((0 : Nat) : α), ((0 : Nat) : α)⟩

/-- What the value stays at or below: all jobs but one. -/
def ceiling (t : Tracker α) : α :=
  if t.total = 0 then ((0 : Nat) : α) else ((t.total - 1 : Nat) : α) / (t.total : α)

/-- The value after a look at a wave, of which the given share is done. -/
def advance (t : Tracker α) (done : α) : α :=
  let raw := ((t.completed : α) + done) / (t.total : α)
  let capped := if raw ≤ t.ceiling then raw else t.ceiling
  if t.value ≤ capped then capped else t.value

/-- Takes in a look at a wave. The answer is the points worth a line, if a line is due. -/
def update (t : Tracker α) (done : α) : Option Nat × Tracker α :=
  if t.total = 0 then (none, t)
  else
    let value := t.advance done
    if ProgressNumber.hundredth ≤ value - t.lastReported then
      (some (ProgressNumber.points value), { t with value := value, lastReported := value })
    else (none, { t with value := value })

def waveFinished (t : Tracker α) (jobs : Nat) : Tracker α :=
  { t with completed := min (t.completed + jobs) t.total }

end Tracker

end Wavefront
