import Wavefront.Proofs.Run.Projection
import Wavefront.Proofs.Run.Turns
set_option autoImplicit false

/-!
Traces of launches. Whatever its source of waves and its cluster do, a launch that ends with an outcome
has taken each wave it was handed through one round and one commit, before it asked for the next wave;
then it has cleaned up, and some jobs have reported. Main statement: the events of such a launch, from
any journal on, are told wave by wave, and its outcome is what is told.
-/
namespace Wavefront

def Event.handedOut? : Event → Option Wave
  | .next (.ok found) => found
  | _ => none

def Event.submitted? : Event → Option Wave
  | .submit wave _ => some wave
  | _ => none

/-- The wave that a source was told the end of, and its jobs that have succeeded. -/
def Event.committed? : Event → Option (Wave × List Nat)
  | .commit wave succeeded _ => some (wave, succeeded)
  | _ => none

def Event.stopped? : Event → Option (Except ClusterFault Unit)
  | .stop answer => some answer
  | _ => none

def Event.reported? : Event → Option JobStats
  | .stats _ (.ok s) => some s
  | _ => none

/-- All that happens to a wave: it is handed out, goes through its round and is committed. -/
def Round.turn (r : Round) : List Event :=
  .next (.ok (some r.wave)) :: (r.events ++ [.commit r.wave r.succeeded (.ok ())])

theorem Round.filterMap_turn {β : Type} (f : Event → Option β)
    (looks : ∀ answer, f (.look answer) = none)
    (statuses : ∀ job answer, f (.status job answer) = none)
    (messages : ∀ job answer, f (.message job answer) = none) (r : Round) :
    r.turn.filterMap f = (f (.next (.ok (some r.wave)))).toList ++
      (f (.submit r.wave (.ok ()))).toList ++ (f (.commit r.wave r.succeeded (.ok ()))).toList := by
  rw [turn, List.filterMap_cons, List.filterMap_append, filterMap_events f looks statuses messages,
    List.filterMap_cons]
  cases f (.next (.ok (some r.wave))) <;> cases f (.commit r.wave r.succeeded (.ok ())) <;> rfl

theorem Round.filterMap_turns {β : Type} (f : Event → Option β)
    (looks : ∀ answer, f (.look answer) = none)
    (statuses : ∀ job answer, f (.status job answer) = none)
    (messages : ∀ job answer, f (.message job answer) = none) (rounds : List Round) :
    (rounds.flatMap Round.turn).filterMap f = rounds.flatMap fun r =>
      (f (.next (.ok (some r.wave)))).toList ++ (f (.submit r.wave (.ok ()))).toList ++
        (f (.commit r.wave r.succeeded (.ok ()))).toList := by
  induction rounds with
  | nil => rfl
  | cons r rest ih =>
    rw [List.flatMap_cons, List.filterMap_append, filterMap_turn f looks statuses messages, ih,
      List.flatMap_cons]

def JobRecord.reported (answer : JobRecord × JobStats) : JobRecord :=
  { answer.1 with stats := some answer.2 }

def JobRecord.unreported (r : JobRecord) : JobRecord := { r with stats := none }

def reports (answers : List (JobRecord × JobStats)) : List Event :=
  answers.map fun a => .stats a.1.job (.ok a.2)

/-- What comes after the last wave, before jobs report. -/
def ending (succeeded : Bool) : List Event :=
  [if succeeded then .next (.ok none) else .stop (.ok ()), .cleanup (.ok ())]

variable {σ α : Type}

/-- The journal of a launch after some rounds in which no job has failed. -/
structure Tells (rounds : List Round) (journal : Journal α) : Prop where
  whole : ∀ r ∈ rounds, r.failed = []
  waves : journal.waves = rounds.map fun r => r.wave.jobIds
  successful : journal.successful = rounds.flatMap Round.successful

/-- What a launch that has an outcome tells. -/
inductive Told : List Round → Outcome α → List Event → Prop where
  | success (rounds : List Round) (outcome : Outcome α) (answers : List (JobRecord × JobStats))
      (whole : ∀ r ∈ rounds, r.failed = [])
      (asked : answers.map Prod.fst = rounds.flatMap Round.successful)
      (succeeded : outcome.succeeded = true)
      (successful : outcome.successful = answers.map JobRecord.reported)
      (failed : outcome.failed = [])
      (waves : outcome.waves = rounds.map fun r => r.wave.jobIds) :
      Told rounds outcome (rounds.flatMap Round.turn ++ (ending true ++ reports answers))
  | failure (before : List Round) (last : Round) (outcome : Outcome α)
      (answers : List (JobRecord × JobStats)) (whole : ∀ r ∈ before, r.failed = [])
      (lost : last.failed ≠ []) (asked : answers.map Prod.fst = last.failed)
      (succeeded : outcome.succeeded = false)
      (successful : outcome.successful = (before ++ [last]).flatMap Round.successful)
      (failed : outcome.failed = answers.map JobRecord.reported)
      (waves : outcome.waves = (before ++ [last]).map fun r => r.wave.jobIds) :
      Told (before ++ [last]) outcome ((before ++ [last]).flatMap Round.turn ++
        (ending false ++ reports answers))

namespace Launch

theorem recorded_records (l : Launch (StateM σ) α) :
    l.recorded.Records (seen (W := σ)) where
  toRecords := l.cluster.recorded_records
  pause := .monadLift l.pause

/-- A run that closes with an outcome has cleaned up, and all that were asked have reported. -/
theorem Closing.reports_of_ok {m : Type → Type} [Monad m] {W S : Type} [Stateful m W] {l : Launch m α}
    {view : W → S × List Event} {asked : List JobRecord} {finish : List JobRecord → Outcome α}
    {w w' : W} {r : Except LaunchFault (Outcome α) × W} {outcome : Outcome α}
    (closing : Closing l view asked finish w r) (ended : r = (.ok outcome, w')) :
    ∃ (answers : List (JobRecord × JobStats)) (w₁ : W), answers.map Prod.fst = asked ∧
      outcome = finish (answers.map JobRecord.reported) ∧ l.source.cleanup.act w = (.ok (), w₁) ∧
      Adds view w₁ w' (reports answers) := by
  cases closing with
  | uncleaned e w₁ cleaned => cases ended
  | cleaned w₁ w₂ records events cleaned added reported =>
    cases reported with
    | refused answers job fault => cases ended
    | all answers complete =>
      cases ended
      exact ⟨answers, w₁, complete, rfl, cleaned, added⟩

section Recorded

variable {l : Launch (StateM σ) α} {journal journal' : Journal α} {round : Round} {rounds : List Round}
  {w w₁ w₂ w₃ : List Event × σ}

theorem Passes.turn_added (passes : Passes l.recorded seen journal journal' round w w₁ w₂ w₃) :
    Adds seen w w₃ round.turn :=
  (Adds.answered passes.asked).trans (passes.added.trans (Adds.answered passes.committed))

theorem Passes.waves_append (passes : Passes l.recorded seen journal journal' round w w₁ w₂ w₃)
    (tells : Tells rounds journal) :
    journal'.waves = (rounds ++ [round]).map fun r => r.wave.jobIds := by
  rw [passes.waves, tells.waves, List.map_append, List.map_singleton]

theorem Passes.successful_append (passes : Passes l.recorded seen journal journal' round w w₁ w₂ w₃)
    (tells : Tells rounds journal) :
    journal'.successful = (rounds ++ [round]).flatMap Round.successful := by
  rw [passes.successful, tells.successful, List.flatMap_append, List.flatMap_singleton]

/-- A launch that ends with an outcome has told all. -/
theorem Ending.told {r : Except LaunchFault (Outcome α) × (List Event × σ)} {outcome : Outcome α}
    (last : Ending l.recorded seen journal w r) (ended : r = (.ok outcome, w₃))
    (tells : Tells rounds journal) {start : List Event × σ}
    (added : Adds seen start w (rounds.flatMap Round.turn)) :
    ∃ rounds events, Told rounds outcome events ∧ Adds seen start w₃ events := by
  cases last with
  | stuck | brokenOff | uncommitted | unstopped => cases ended
  | exhausted w₁ _ asked closing =>
    obtain ⟨answers, w₂, complete, rfl, cleaned, reported⟩ := closing.reports_of_ok ended
    refine ⟨rounds, _, .success rounds _ answers tells.whole (complete.trans tells.successful) rfl rfl
      rfl tells.waves, added.trans ?_⟩
    exact (Adds.answered asked).trans ((Adds.answered cleaned).trans reported)
  | stopped round journal' w₁ w₂ w₄ w₅ _ passes lost halted closing =>
    obtain ⟨answers, w₆, complete, rfl, cleaned, reported⟩ := closing.reports_of_ok ended
    refine ⟨rounds ++ [round], _, .failure rounds round _ answers tells.whole lost complete rfl
      (passes.successful_append tells) rfl (passes.waves_append tells), ?_⟩
    rw [List.flatMap_append, List.flatMap_singleton]
    exact (added.trans passes.turn_added).trans
      (halted.trans ((Adds.answered cleaned).trans reported))

end Recorded

variable [ProgressNumber α]

def events (l : Launch (StateM σ) α) (world : σ) : List Event :=
  (l.recorded.run.act ([], world)).2.1

/-- The waves that a launch is handed, from a state of the world. -/
def handedOut (l : Launch (StateM σ) α) (world : σ) : List Wave :=
  (l.events world).filterMap Event.handedOut?

/-- A launch that has an outcome tells what it does. -/
theorem run_told (l : Launch (StateM σ) α) {world world' : σ} {outcome : Outcome α}
    (ran : l.run.act world = (.ok outcome, world')) :
    ∃ rounds, Told rounds outcome (l.events world) := by
  let start : List Event × σ := ([], world)
  have same : l.run.act world = _ := l.recorded_projects.run start
  rw [ran] at same
  obtain ⟨left, journal, w, ⟨rounds, tells, added⟩, halt⟩ := runWaves_invariant l.recorded_records
    (fun _ journal w => ∃ rounds, Tells rounds journal ∧
      Adds seen start w (rounds.flatMap Round.turn))
    (fun _ journal journal' round w w₁ w₂ w₃ before passes whole => by
      obtain ⟨rounds, tells, added⟩ := before
      refine ⟨rounds ++ [round], ⟨?_, passes.waves_append tells, passes.successful_append tells⟩, ?_⟩
      · simpa [or_imp, forall_and, whole] using tells.whole
      · rw [List.flatMap_append, List.flatMap_singleton]
        exact added.trans passes.turn_added)
    l.limits.waves (.start l.graph.nodes.length) start
    ⟨[], ⟨by simp, rfl, rfl⟩, Adds.refl seen start⟩
  have answer : ((l.recorded.runWaves l.limits.waves (.start l.graph.nodes.length)).act start).1 =
    .ok outcome := (congrArg Prod.fst same).symm
  rcases halt with ⟨_, spent⟩ | ending
  · rw [spent] at answer
    cases answer
  · obtain ⟨rounds, events, told, all⟩ := ending.told (Prod.ext answer rfl) tells added
    have written : l.events world = events := (congrArg Prod.snd all).trans (List.nil_append events)
    exact ⟨rounds, written ▸ told⟩

end Launch

end Wavefront
