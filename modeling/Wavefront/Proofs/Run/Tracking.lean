import Mathlib.Data.Rat.Floor
import Mathlib.Tactic.Linarith
import Mathlib.Tactic.NormNum
import Mathlib.Tactic.Positivity
import Wavefront.Run.Progress
set_option autoImplicit false

/-!
What a tracker answers over time, counted in exact numbers. Every call keeps the tracker and the value at
the last line together: the value is not below that mark, and the tracker remembers the mark.
Main statement: whatever a tracker is told, its value rises towards its ceiling, and the points it has
logged are whole, distinct and in order.
-/
namespace Wavefront

/-- The points of a number are the whole ones in a hundred times the number and a billionth. -/
theorem points_eq (x : Rat) : ProgressNumber.points x = ⌊100 * x + 1 / 10 ^ 9⌋.toNat := by
  have same : x * 100 + 1 / 1000000000 = 100 * x + 1 / 10 ^ 9 := by
    rw [mul_comm]
    norm_num
  rw [← same]
  rfl

theorem cast_points {x : Rat} (nonneg : 0 ≤ x) :
    (ProgressNumber.points x : Int) = ⌊100 * x + 1 / 10 ^ 9⌋ := by
  rw [points_eq]
  apply Int.toNat_of_nonneg
  apply Int.floor_nonneg.mpr
  positivity

theorem points_lt_points {x y : Rat} (nonneg : 0 ≤ x) (further : x + 1 / 100 ≤ y) :
    ProgressNumber.points x < ProgressNumber.points y := by
  have higher : ⌊100 * x + 1 / 10 ^ 9⌋ + 1 ≤ ⌊100 * y + 1 / 10 ^ 9⌋ := by
    rw [← Int.floor_add_one]
    apply Int.floor_le_floor
    linarith
  rw [← cast_points nonneg, ← cast_points (by linarith : (0 : Rat) ≤ y)] at higher
  omega

theorem one_le_points {x : Rat} (moved : 1 / 100 ≤ x) : 1 ≤ ProgressNumber.points x := by
  have lowest := points_lt_points le_rfl (by linarith : 0 + 1 / 100 ≤ x)
  omega

/-- What all jobs but one come to, of fewer than a hundred billion, is less than a hundred points. -/
theorem points_le {total : Nat} {x : Rat} (few : total < 10 ^ 11) (positive : 0 < x)
    (capped : x ≤ ((total : Rat) - 1) / total) : ProgressNumber.points x ≤ 99 := by
  rcases Nat.eq_zero_or_pos total with rfl | some
  · rw [Nat.cast_zero, div_zero] at capped
    linarith
  · have jobs : (0 : Rat) < total := Nat.cast_pos.mpr some
    have bound : (total : Rat) < 10 ^ 11 := by exact_mod_cast few
    have share : (1 : Rat) / 10 ^ 11 < 1 / total := one_div_lt_one_div_of_lt jobs bound
    rw [sub_div, div_self jobs.ne'] at capped
    have below : ⌊100 * x + 1 / 10 ^ 9⌋ < 100 := by
      apply Int.floor_lt.mpr
      push_cast
      linarith
    rw [← cast_points positive.le] at below
    omega

namespace Tracker

variable {t : Tracker Rat} {total : Nat} {mark : Rat}

/-- What a tracker is told. -/
inductive Call where
  | update (done : Rat)
  | waveFinished (jobs : Nat)

/-- Tells a tracker something. The answer is the points worth a line, if a line is due. -/
def tell (t : Tracker Rat) : Call → Option Nat × Tracker Rat
  | .update done => t.update done
  | .waveFinished jobs => (none, t.waveFinished jobs)

def after (t : Tracker Rat) (calls : List Call) : Tracker Rat :=
  calls.foldl (fun t call => (t.tell call).2) t

/-- The points that are logged, each with the value of that moment. -/
def reports (t : Tracker Rat) : List Call → List (Nat × Rat)
  | [] => []
  | call :: rest =>
    ((t.tell call).1.map fun points => (points, (t.tell call).2.value)).toList ++
      (t.tell call).2.reports rest

/-- The value at the last of some reports, or zero if there is none. -/
def lastMark (reports : List (Nat × Rat)) : Rat := (reports.map Prod.snd).getLastD 0

/-- What becomes of a tracker of so many jobs, whatever it is told. -/
structure Tracks (total : Nat) : Prop where
  begins : (start total : Tracker Rat).value = 0
  rises : ∀ calls more, ((start total).after calls).value ≤ ((start total).after (calls ++ more)).value
  capped : ∀ calls, ((start total).after calls).value ≤ ((total : Rat) - 1) / total
  counted : ∀ calls, ((start total).after calls).completed ≤ total
  climbs : ∀ calls, (((start total).reports calls).map Prod.fst).Pairwise (· < ·)
  whole : ∀ calls, ∀ report ∈ (start total).reports calls,
    (report.1 : Int) = ⌊100 * report.2 + 1 / 10 ^ 9⌋ ∧ 1 ≤ report.1 ∧ report.1 ≤ 99
  due : ∀ calls done, (((start total).after calls).update done).1.isSome = true ↔
    1 / 100 ≤ (((start total).after calls).update done).2.value - lastMark ((start total).reports calls)

/-- A tracker of so many jobs that has logged its last line at a value. -/
structure Sound (t : Tracker Rat) (total : Nat) (mark : Rat) : Prop where
  total_eq : t.total = total
  counted : t.completed ≤ total
  capped : t.value ≤ ((total : Rat) - 1) / total
  reported : t.lastReported = mark
  nonneg : 0 ≤ mark
  mark_le : mark ≤ t.value

theorem ceiling_eq (t : Tracker Rat) : t.ceiling = ((t.total : Rat) - 1) / t.total := by
  rw [ceiling]
  split
  · rename_i none
    rw [none]
    norm_num
  · show ((t.total - 1 : Nat) : Rat) / (t.total : Rat) = _
    rw [Nat.cast_pred (by omega)]

theorem advance_eq (t : Tracker Rat) (done : Rat) :
    t.advance done = max t.value (min (((t.completed : Rat) + done) / t.total) t.ceiling) := by
  rw [max_def, min_def]
  rfl

theorem update_eq (t : Tracker Rat) (done : Rat) (some : t.total ≠ 0) :
    t.update done = if 1 / 100 ≤ t.advance done - t.lastReported then
      (.some (ProgressNumber.points (t.advance done)),
        { t with value := t.advance done, lastReported := t.advance done })
      else (none, { t with value := t.advance done }) := by
  rw [update, if_neg some]
  rfl

theorem after_append (t : Tracker Rat) (calls more : List Call) :
    t.after (calls ++ more) = (t.after calls).after more :=
  List.foldl_append

/-- What a tracker may answer, and what it is then. -/
inductive Told (t : Tracker Rat) (total : Nat) (mark : Rat) : Option Nat × Tracker Rat → Prop where
  | quiet {t' : Tracker Rat} (rises : t.value ≤ t'.value) (sound : t'.Sound total mark) :
      Told t total mark (none, t')
  | line {points : Nat} {t' : Tracker Rat} (whole : points = ProgressNumber.points t'.value)
      (rises : t.value ≤ t'.value) (further : mark + 1 / 100 ≤ t'.value)
      (sound : t'.Sound total t'.value) : Told t total mark (some points, t')

/-- What some calls make of a tracker, with the reports that they have led to. -/
structure Runs (t : Tracker Rat) (total : Nat) (mark : Rat) (t' : Tracker Rat)
    (reports : List (Nat × Rat)) : Prop where
  sound : t'.Sound total ((reports.map Prod.snd).getLastD mark)
  rises : t.value ≤ t'.value
  further : ∀ report ∈ reports, mark + 1 / 100 ≤ report.2
  apart : reports.Pairwise fun first later => first.2 + 1 / 100 ≤ later.2
  capped : ∀ report ∈ reports, report.2 ≤ ((total : Rat) - 1) / total
  whole : ∀ report ∈ reports, report.1 = ProgressNumber.points report.2

theorem start_sound (total : Nat) : (start total : Tracker Rat).Sound total 0 := by
  refine ⟨rfl, Nat.zero_le total, ?_, rfl, le_rfl, le_rfl⟩
  show (0 : Rat) ≤ ((total : Rat) - 1) / total
  rcases Nat.eq_zero_or_pos total with rfl | some
  · norm_num
  · have one : (1 : Rat) ≤ total := by exact_mod_cast some
    exact div_nonneg (by linarith) (by linarith)

namespace Sound

theorem advance_le (sound : t.Sound total mark) (done : Rat) :
    t.advance done ≤ ((total : Rat) - 1) / total := by
  rw [advance_eq, ceiling_eq, sound.total_eq]
  exact max_le sound.capped (min_le_right _ _)

theorem told_update (sound : t.Sound total mark) (done : Rat) : Told t total mark (t.update done) := by
  have rises : t.value ≤ t.advance done := by
    rw [advance_eq]
    exact le_max_left _ _
  have capped := sound.advance_le done
  have mark_le := le_trans sound.mark_le rises
  -- Without jobs nothing is taken in.
  by_cases none : t.total = 0
  · rw [update, if_pos none]
    exact .quiet le_rfl sound
  · rw [update_eq t done none]
    split
    · rename_i moved
      rw [sound.reported] at moved
      have sound' : ({ t with value := t.advance done, lastReported := t.advance done } : Tracker Rat).Sound
          total (t.advance done) :=
        ⟨sound.total_eq, sound.counted, capped, rfl, le_trans sound.nonneg mark_le, le_rfl⟩
      have further : mark + 1 / 100 ≤ t.advance done := by linarith
      exact .line rfl rises further sound'
    · have sound' : ({ t with value := t.advance done } : Tracker Rat).Sound total mark :=
        ⟨sound.total_eq, sound.counted, capped, sound.reported, sound.nonneg, mark_le⟩
      exact .quiet rises sound'

theorem waveFinished (sound : t.Sound total mark) (jobs : Nat) :
    (t.waveFinished jobs).Sound total mark := by
  have counted : min (t.completed + jobs) t.total ≤ total :=
    sound.total_eq ▸ Nat.min_le_right _ _
  exact ⟨sound.total_eq, counted, sound.capped, sound.reported, sound.nonneg, sound.mark_le⟩

theorem told (sound : t.Sound total mark) (call : Call) : Told t total mark (t.tell call) := by
  cases call with
  | update done => exact sound.told_update done
  | waveFinished jobs => exact .quiet le_rfl (sound.waveFinished jobs)

/-- A report moves the mark, and every later report is a point further than that. -/
theorem runs (sound : t.Sound total mark) (calls : List Call) :
    Runs t total mark (t.after calls) (t.reports calls) := by
  induction calls generalizing t mark with
  | nil => exact ⟨sound, le_rfl, by simp [reports], .nil, by simp [reports], by simp [reports]⟩
  | cons call rest ih =>
    have told := sound.told call
    rw [after, List.foldl_cons, reports]
    generalize t.tell call = answer at told
    cases told with
    | quiet rises sound' =>
      have ran := ih sound'
      exact ⟨ran.sound, le_trans rises ran.rises, ran.further, ran.apart, ran.capped, ran.whole⟩
    | @line points t' whole rises further sound' =>
      have ran := ih sound'
      have onward : ∀ report ∈ t'.reports rest, mark + 1 / 100 ≤ report.2 := by
        intro report member
        linarith [ran.further report member]
      have last : ((t'.reports rest).map Prod.snd).getLastD t'.value =
          (((points, t'.value) :: t'.reports rest).map Prod.snd).getLastD mark := by
        rw [List.map_cons, List.getLastD_cons]
      exact ⟨last ▸ ran.sound, le_trans rises ran.rises, List.forall_mem_cons.mpr ⟨further, onward⟩,
        .cons ran.further ran.apart, List.forall_mem_cons.mpr ⟨sound'.capped, ran.capped⟩,
        List.forall_mem_cons.mpr ⟨whole, ran.whole⟩⟩

end Sound

/-- Whatever a tracker of fewer than a hundred billion jobs is told, its value rises below its ceiling, and
a line is due exactly if the value has moved by a point since the last line. -/
theorem tracks (some : 0 < total) (few : total < 10 ^ 11) : Tracks total := by
  have ran := (start_sound total).runs
  have moved {calls : List Call} {report : Nat × Rat}
      (member : report ∈ (start total : Tracker Rat).reports calls) : 1 / 100 ≤ report.2 := by
    linarith [(ran calls).further report member]
  refine ⟨rfl, fun calls more => ?_, fun calls => (ran calls).sound.capped,
    fun calls => (ran calls).sound.counted, fun calls => ?_, fun calls report member => ?_,
    fun calls done => ?_⟩
  · rw [after_append]
    exact ((ran calls).sound.runs more).rises
  · rw [List.pairwise_map]
    apply (ran calls).apart.imp_of_mem
    intro first later member among apart
    rw [(ran calls).whole first member, (ran calls).whole later among]
    exact points_lt_points (by linarith [moved member]) apart
  · have capped := (ran calls).capped report member
    have far := moved member
    rw [(ran calls).whole report member]
    exact ⟨cast_points (by linarith), one_le_points far, points_le few (by linarith) capped⟩
  · have sound := (ran calls).sound
    have positive : ((start total).after calls).total ≠ 0 := by
      rw [sound.total_eq]
      omega
    rw [update_eq _ done positive, sound.reported, lastMark]
    split
    · rename_i far
      simpa using far
    · rename_i near
      simpa using near

/-- With a hundred billion jobs the share of the last one is lost in the rounding. -/
example : (((start (10 ^ 11) : Tracker Rat).waveFinished (10 ^ 11 - 1)).update 0).1 = some 100 := by
  decide +kernel

end Tracker

end Wavefront
