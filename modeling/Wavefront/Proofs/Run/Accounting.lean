import Mathlib.Data.List.Nodup
import Mathlib.Data.List.Perm.Basic
import Wavefront.Proofs.Run.Trace
set_option autoImplicit false

/-!
The account of a run. Main statement: whatever the source of waves and the cluster of a launch do, its
outcome lists each submitted job once, as it was read when its wave had ended, and where jobs have
failed, their wave was the last.
-/
namespace Wavefront

namespace Round

theorem map_unreported (r : Round) (p : JobRecord → Bool) :
    ((r.readings.map Reading.record).filter p).map JobRecord.unreported =
      (r.readings.map Reading.record).filter p := by
  refine (List.map_congr_left fun record member => ?_).trans (List.map_id _)
  obtain ⟨reading, _, rfl⟩ := List.mem_map.mp (List.mem_filter.mp member).1
  rfl

theorem flatMap_unreported (p : JobRecord → Bool) (rounds : List Round) :
    (rounds.flatMap fun r => (r.readings.map Reading.record).filter p).map JobRecord.unreported =
      rounds.flatMap fun r => (r.readings.map Reading.record).filter p := by
  rw [List.map_flatMap]
  exact List.flatMap_congr fun r _ => r.map_unreported p

theorem mem_successful {r : Round} {reading : Reading} (member : reading ∈ r.readings)
    (succeeded : reading.status = .succeeded) : reading.record ∈ r.successful :=
  List.mem_filter.mpr ⟨List.mem_map_of_mem member, beq_iff_eq.mpr succeeded⟩

theorem mem_failed {r : Round} {reading : Reading} (member : reading ∈ r.readings)
    (lost : reading.status ≠ .succeeded) : reading.record ∈ r.failed :=
  List.mem_filter.mpr ⟨List.mem_map_of_mem member,
    Bool.not_eq_true' _ ▸ beq_eq_false_iff_ne.mpr lost⟩

theorem ids_perm (r : Round) :
    ((r.successful ++ r.failed).map JobRecord.job).Perm r.wave.jobIds := by
  have all : (r.readings.map Reading.record).map JobRecord.job = r.wave.jobIds := by
    rw [Wave.jobIds, ← r.complete, List.map_map, List.map_map]
    rfl
  rw [← all]
  exact (List.filter_append_perm _ _).map _

theorem flatMap_ids_perm (rounds : List Round) :
    ((rounds.flatMap successful ++ rounds.flatMap failed).map JobRecord.job).Perm
      (rounds.flatMap fun r => r.wave.jobIds) := by
  refine ((List.flatMap_append_perm rounds successful failed).map JobRecord.job).trans ?_
  rw [List.map_flatMap]
  exact List.Perm.flatMap_left rounds fun r _ => r.ids_perm

end Round

variable {σ α : Type}

theorem map_unreported_reported (answers : List (JobRecord × JobStats)) :
    (answers.map JobRecord.reported).map JobRecord.unreported =
      (answers.map Prod.fst).map JobRecord.unreported := by
  rw [List.map_map, List.map_map]
  rfl

/-- The account of a launch that has an outcome: `rounds` are its waves with what was read of their
jobs when they had ended. -/
structure Accounted (rounds : List Round) (outcome : Outcome α) (events : List Event) : Prop where
  /-- Each wave is handed out, submitted, looked at until it has ended, read and committed, before the
  next is asked for; after the last one nothing is handed out or submitted. -/
  trace : ∃ answers, events =
    rounds.flatMap Round.turn ++ (ending outcome.succeeded ++ reports answers)
  submitted : events.filterMap Event.submitted? = rounds.map Round.wave
  waves : outcome.waves = (events.filterMap Event.submitted?).map Wave.jobIds
  /-- Each wave is committed once, with the jobs that have succeeded. -/
  committed : events.filterMap Event.committed? = rounds.map fun r => (r.wave, r.succeeded)
  /-- Each job that was submitted has one record. -/
  once : ((outcome.successful ++ outcome.failed).map JobRecord.job).Perm
    ((events.filterMap Event.submitted?).flatMap Wave.jobIds)
  distinct : ((outcome.successful ++ outcome.failed).map JobRecord.job).Nodup
  successful_iff : ∀ r ∈ rounds, ∀ reading ∈ r.readings,
    reading.job.id ∈ outcome.successful.map JobRecord.job ↔ reading.status = .succeeded
  /-- The records are in the order of the waves and say what was read. -/
  successful : outcome.successful.map JobRecord.unreported = rounds.flatMap Round.successful
  failed : outcome.failed.map JobRecord.unreported = rounds.flatMap Round.failed
  succeeded_iff : outcome.succeeded = true ↔ outcome.failed = []
  /-- Jobs that have failed are all in the last wave. -/
  failed_last : ∀ r ∈ outcome.failed, ∃ last ∈ rounds.getLast?, r.job ∈ last.wave.jobIds
  stopped : events.filterMap Event.stopped? = if outcome.succeeded then [] else [.ok ()]
  /-- All jobs report after a run that has succeeded, and those that have failed after one that has
  not. -/
  reported : ∀ r ∈ (if outcome.succeeded then outcome.successful else outcome.failed),
    ∃ s, r.stats = some s ∧ .stats r.job (.ok s) ∈ events
  unreported : outcome.succeeded = false → ∀ r ∈ outcome.successful, r.stats = none
  /-- The totals are those of all that was reported. -/
  summary : outcome.summary = (events.filterMap Event.reported?).foldl RunSummary.add
    (.start (rounds.flatMap fun r => r.wave.jobIds).length outcome.failed.length)

namespace Told

variable {rounds : List Round} {outcome : Outcome α}
  {events : List Event}

theorem waves (told : Told rounds outcome events) :
    outcome.waves = rounds.map fun r => r.wave.jobIds := by
  cases told with
  | success _ _ _ _ _ _ _ _ waves => exact waves
  | failure _ _ _ _ _ _ _ _ _ _ waves => exact waves

theorem successful (told : Told rounds outcome events) :
    outcome.successful.map JobRecord.unreported = rounds.flatMap Round.successful := by
  cases told with
  | success _ _ answers _ asked _ successful =>
    rw [successful, map_unreported_reported, asked]
    exact Round.flatMap_unreported _ _
  | failure _ _ _ _ _ _ _ _ successful =>
    rw [successful]
    exact Round.flatMap_unreported _ _

theorem failed (told : Told rounds outcome events) :
    outcome.failed.map JobRecord.unreported = rounds.flatMap Round.failed := by
  cases told with
  | success _ _ _ whole _ _ _ failed =>
    rw [failed, List.map_nil, List.flatMap_eq_nil_iff.mpr whole]
  | failure before last _ answers whole _ asked _ _ failed =>
    rw [failed, map_unreported_reported, asked, List.flatMap_append,
      List.flatMap_eq_nil_iff.mpr whole, List.flatMap_singleton, List.nil_append]
    exact last.map_unreported _

theorem trace (told : Told rounds outcome events) :
    ∃ answers, events = rounds.flatMap Round.turn ++ (ending outcome.succeeded ++ reports answers) ∧
      answers.map JobRecord.reported =
        if outcome.succeeded then outcome.successful else outcome.failed := by
  cases told with
  | success _ _ answers _ _ succeeded successful =>
    exact ⟨answers, by rw [succeeded], by rw [succeeded, if_pos rfl, successful]⟩
  | failure _ _ _ answers _ _ _ succeeded _ failed =>
    exact ⟨answers, by rw [succeeded], by rw [succeeded, if_neg Bool.false_ne_true, failed]⟩

theorem succeeded_iff (told : Told rounds outcome events) :
    outcome.succeeded = true ↔ outcome.failed = [] := by
  cases told with
  | success _ _ _ _ _ succeeded _ failed => simp [succeeded, failed]
  | failure _ _ _ answers _ lost asked succeeded _ failed =>
    have some : answers ≠ [] := fun none => lost (by rw [← asked, none, List.map_nil])
    simp [succeeded, failed, some]

theorem failed_last (told : Told rounds outcome events) :
    ∀ r ∈ outcome.failed, ∃ last ∈ rounds.getLast?, r.job ∈ last.wave.jobIds := by
  cases told with
  | success _ _ _ _ _ _ _ failed => simp [failed]
  | failure before last _ answers _ _ asked _ _ failed =>
    intro r member
    rw [failed] at member
    obtain ⟨answer, among, rfl⟩ := List.mem_map.mp member
    have own : answer.1 ∈ last.failed := asked ▸ List.mem_map_of_mem among
    have listed : answer.1.job ∈ (last.successful ++ last.failed).map JobRecord.job :=
      List.mem_map_of_mem (List.mem_append_right _ own)
    exact ⟨last, by simp, last.ids_perm.subset listed⟩

theorem unreported (told : Told rounds outcome events)
    (lost : outcome.succeeded = false) : ∀ r ∈ outcome.successful, r.stats = none := by
  cases told with
  | success _ _ _ _ _ succeeded => simp [succeeded] at lost
  | failure before last _ _ _ _ _ _ successful =>
    have plain : outcome.successful = _ := successful.trans (Round.flatMap_unreported _ _).symm
    intro r member
    rw [plain] at member
    obtain ⟨record, _, rfl⟩ := List.mem_map.mp member
    rfl

end Told

section Trace

variable {β : Type} {rounds : List Round} {succeeded : Bool}
  {answers : List (JobRecord × JobStats)}

/-- What is of interest at each turn, at the end and in the reports makes up what is of interest. -/
theorem filterMap_trace (f : Event → Option β) (each : Round → List β)
    (looks : ∀ answer, f (.look answer) = none)
    (statuses : ∀ job answer, f (.status job answer) = none)
    (messages : ∀ job answer, f (.message job answer) = none)
    (turns : ∀ r : Round, (f (.next (.ok (some r.wave)))).toList ++
      (f (.submit r.wave (.ok ()))).toList ++ (f (.commit r.wave r.succeeded (.ok ()))).toList =
        each r) :
    (rounds.flatMap Round.turn ++ (ending succeeded ++ reports answers)).filterMap f =
      rounds.flatMap each ++ ((ending succeeded).filterMap f ++ (reports answers).filterMap f) := by
  rw [List.filterMap_append, List.filterMap_append, Round.filterMap_turns f looks statuses messages]
  exact congrArg (· ++ _) (List.flatMap_congr fun r _ => turns r)

theorem filterMap_reports (f : Event → Option β) (silent : ∀ job s, f (.stats job (.ok s)) = none)
    (answers : List (JobRecord × JobStats)) : (reports answers).filterMap f = [] := by
  rw [reports, List.filterMap_map, List.filterMap_eq_nil_iff]
  exact fun answer _ => silent _ _

theorem handedOut_trace : (rounds.flatMap Round.turn ++ (ending succeeded ++ reports answers)).filterMap
    Event.handedOut? = rounds.map Round.wave := by
  rw [filterMap_trace _ (fun r => [r.wave]) (fun _ => rfl) (fun _ _ => rfl) (fun _ _ => rfl)
    fun _ => rfl, filterMap_reports _ fun _ _ => rfl, List.map_eq_flatMap]
  cases succeeded <;> simp [ending, Event.handedOut?]

theorem submitted_trace : (rounds.flatMap Round.turn ++ (ending succeeded ++ reports answers)).filterMap
    Event.submitted? = rounds.map Round.wave := by
  rw [filterMap_trace _ (fun r => [r.wave]) (fun _ => rfl) (fun _ _ => rfl) (fun _ _ => rfl)
    fun _ => rfl, filterMap_reports _ fun _ _ => rfl, List.map_eq_flatMap]
  cases succeeded <;> simp [ending, Event.submitted?]

theorem committed_trace : (rounds.flatMap Round.turn ++ (ending succeeded ++ reports answers)).filterMap
    Event.committed? = rounds.map fun r => (r.wave, r.succeeded) := by
  rw [filterMap_trace _ (fun r => [(r.wave, r.succeeded)]) (fun _ => rfl) (fun _ _ => rfl)
    (fun _ _ => rfl) fun _ => rfl, filterMap_reports _ fun _ _ => rfl, List.map_eq_flatMap]
  cases succeeded <;> simp [ending, Event.committed?]

theorem stopped_trace : (rounds.flatMap Round.turn ++ (ending succeeded ++ reports answers)).filterMap
    Event.stopped? = if succeeded then [] else [.ok ()] := by
  rw [filterMap_trace _ (fun _ => []) (fun _ => rfl) (fun _ _ => rfl) (fun _ _ => rfl) fun _ => rfl,
    filterMap_reports _ fun _ _ => rfl, List.flatMap_eq_nil_iff.mpr fun _ _ => rfl]
  cases succeeded <;> rfl

theorem reported_trace : (rounds.flatMap Round.turn ++ (ending succeeded ++ reports answers)).filterMap
    Event.reported? = answers.map Prod.snd := by
  have told : (reports answers).filterMap Event.reported? = answers.map Prod.snd := by
    rw [reports, List.filterMap_map, ← List.filterMap_eq_map]
    rfl
  rw [filterMap_trace _ (fun _ => []) (fun _ => rfl) (fun _ _ => rfl) (fun _ _ => rfl) fun _ => rfl,
    told, List.flatMap_eq_nil_iff.mpr fun _ _ => rfl]
  cases succeeded <;> rfl

end Trace

namespace Told

variable {rounds : List Round} {outcome : Outcome α}
  {events : List Event}

/-- No two records are of jobs of the same number. -/
theorem successful_iff (told : Told rounds outcome events)
    (apart : ((outcome.successful ++ outcome.failed).map JobRecord.job).Nodup) {r : Round}
    (among : r ∈ rounds) {reading : Reading} (member : reading ∈ r.readings) :
    reading.job.id ∈ outcome.successful.map JobRecord.job ↔ reading.status = .succeeded := by
  have listed {records : List JobRecord} {each : Round → List JobRecord}
      (same : records.map JobRecord.unreported = rounds.flatMap each)
      (own : reading.record ∈ each r) : reading.job.id ∈ records.map JobRecord.job := by
    obtain ⟨record, there, is⟩ := List.mem_map.mp
      (same ▸ List.mem_flatMap.mpr ⟨r, among, own⟩ : reading.record ∈ records.map _)
    exact List.mem_map.mpr ⟨record, there, congrArg JobRecord.job is⟩
  constructor
  · intro there
    by_contra lost
    rw [List.map_append] at apart
    exact (List.disjoint_of_nodup_append apart) there
      (listed told.failed (Round.mem_failed member lost))
  · exact fun succeeded => listed told.successful (Round.mem_successful member succeeded)

/-- What the records hold is what was reported, in its order. -/
theorem reported_eq (told : Told rounds outcome events)
    {answers : List (JobRecord × JobStats)} (asked : answers.map JobRecord.reported =
      if outcome.succeeded then outcome.successful else outcome.failed) :
    (outcome.successful ++ outcome.failed).filterMap JobRecord.stats = answers.map Prod.snd := by
  have told' : (answers.map JobRecord.reported).filterMap JobRecord.stats = answers.map Prod.snd := by
    rw [List.filterMap_map, ← List.filterMap_eq_map]
    rfl
  rw [List.filterMap_append, ← told', asked]
  cases succeeded : outcome.succeeded with
  | true => rw [told.succeeded_iff.mp succeeded, if_pos rfl, List.filterMap_nil, List.append_nil]
  | false =>
    rw [List.filterMap_eq_nil_iff.mpr (told.unreported succeeded), if_neg Bool.false_ne_true,
      List.nil_append]

/-- What is told is accounted for, if no two jobs that are handed out have the same number. -/
theorem accounted (told : Told rounds outcome events)
    (distinct : ((events.filterMap Event.handedOut?).flatMap Wave.jobIds).Nodup) :
    Accounted rounds outcome events := by
  obtain ⟨answers, rfl, asked⟩ := told.trace
  have ids : (outcome.successful ++ outcome.failed).map JobRecord.job =
      (rounds.flatMap Round.successful ++ rounds.flatMap Round.failed).map JobRecord.job := by
    rw [← told.successful, ← told.failed, ← List.map_append, List.map_map]
    rfl
  have once : ((outcome.successful ++ outcome.failed).map JobRecord.job).Perm
      (rounds.flatMap fun r => r.wave.jobIds) := ids ▸ Round.flatMap_ids_perm rounds
  rw [handedOut_trace, List.flatMap_map] at distinct
  have apart := once.nodup_iff.mpr distinct
  refine ⟨⟨answers, rfl⟩, submitted_trace, ?_, committed_trace, ?_, apart,
    fun r among reading member => told.successful_iff apart among member, told.successful,
    told.failed, told.succeeded_iff, told.failed_last, stopped_trace, ?_, told.unreported, ?_⟩
  · rw [told.waves, submitted_trace, List.map_map]
    rfl
  · rw [submitted_trace, List.flatMap_map]
    exact once
  · rw [← asked]
    intro r member
    obtain ⟨answer, among, rfl⟩ := List.mem_map.mp member
    refine ⟨answer.2, rfl, List.mem_append_right _ (List.mem_append_right _ ?_)⟩
    exact List.mem_map.mpr ⟨answer, among, rfl⟩
  · rw [Outcome.summary, told.reported_eq asked, reported_trace, ← once.length_eq, List.length_map,
      List.length_append]

end Told

namespace Launch

/-- Whatever its source of waves and its cluster do, a launch accounts for each job that is submitted,
as long as no two jobs that it is handed have the same number. -/
theorem run_accounted [ProgressNumber α] (l : Launch (StateM σ) α) (world world' : σ)
    (outcome : Outcome α) (ran : l.run.act world = (.ok outcome, world'))
    (distinct : ((l.handedOut world).flatMap Wave.jobIds).Nodup) :
    ∃ rounds, Accounted rounds outcome (l.events world) := by
  obtain ⟨rounds, told⟩ := l.run_told ran
  exact ⟨rounds, told.accounted distinct⟩

def pairWave : Wave :=
  ⟨"run", 0, [⟨0, "run-node-0", "run", [0], ["in"], "stage/0", "out/0", false, 0, .empty⟩,
    ⟨1, "run-node-1", "run", [1], ["in"], "stage/1", "out/1", false, 0, .empty⟩]⟩

/-- A launch that is handed waves from a list, on a cluster that says of a wave that it has ended while
its second job still waits. -/
def waitingLaunch : Launch (StateM (List Wave)) Rat where
  source := {
    next := fun _ _ => ExceptT.mk fun waves => (.ok waves.head?, waves.tail)
    commit := fun _ _ => pure ()
    cleanup := pure () }
  cluster := {
    submit := fun _ => pure ()
    allFinished := pure true
    progress := fun _ => pure 1
    status := fun job => pure (if job = 0 then .succeeded else .waiting)
    message := fun _ => pure none
    stop := pure ()
    stats := fun job => pure ⟨job, [job], 1, 0, 1, 1, 64, 100⟩ }
  limits := ⟨3, 3⟩
  pause := pure ()
  graph := ⟨"scope", [], .empty⟩
  group := "run"

/-- A job that does not say that it has succeeded counts as failed, and no wave follows. -/
theorem run_accounted_waiting : ∃ outcome waves rounds,
    waitingLaunch.run.act [pairWave, pairWave] = (.ok outcome, waves) ∧
    outcome.successful.map JobRecord.job = [0] ∧ outcome.failed.map JobRecord.job = [1] ∧
    ((waitingLaunch.handedOut [pairWave, pairWave]).flatMap Wave.jobIds).Nodup ∧
    Accounted rounds outcome (waitingLaunch.events [pairWave, pairWave]) := by
  obtain ⟨outcome, waves, ran, successful, failed⟩ : ∃ outcome waves,
      waitingLaunch.run.act [pairWave, pairWave] = (.ok outcome, waves) ∧
      outcome.successful.map JobRecord.job = [0] ∧ outcome.failed.map JobRecord.job = [1] :=
    ⟨_, _, rfl, rfl, rfl⟩
  have handed : waitingLaunch.handedOut [pairWave, pairWave] = [pairWave] := rfl
  have distinct : ((waitingLaunch.handedOut [pairWave, pairWave]).flatMap Wave.jobIds).Nodup := by
    rw [handed]
    decide
  obtain ⟨rounds, accounted⟩ :=
    run_accounted waitingLaunch [pairWave, pairWave] waves outcome ran distinct
  exact ⟨outcome, waves, rounds, ran, successful, failed, distinct, accounted⟩

end Launch

end Wavefront
