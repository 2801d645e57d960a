import Wavefront.Proofs.Run.Events
set_option autoImplicit false

/-!
Rounds of a launch. Between the submission of a wave and its commit a launch only looks and reads:
it looks until the cluster says that the wave has ended, and then reads the status of each job, once,
and the message of each job that has not succeeded. Main statement: a wave either breaks off at a
failure of the cluster, or comes to its commit with such a round behind it.
-/
namespace Wavefront

/-- What was read of a job that has ended. -/
structure Reading where
  job : Job
  status : JobStatus
  message : Option String
  /-- A job that has succeeded is not asked for a message. -/
  silent : status = .succeeded → message = none

namespace Reading

def record (r : Reading) : JobRecord := .ofJob r.job r.status r.message

/-- Reading a job. -/
def events (r : Reading) : List Event :=
  if r.status = .succeeded then [.status r.job.id .succeeded]
  else [.status r.job.id r.status, .message r.job.id r.message]

end Reading

/-- What a launch does with a wave before it is committed. -/
structure Round where
  wave : Wave
  /-- How often the launch looked before the wave had ended. -/
  waits : Nat
  readings : List Reading
  complete : readings.map Reading.job = wave.jobs

namespace Round

def successful (r : Round) : List JobRecord :=
  (r.readings.map Reading.record).filter fun record => record.status == .succeeded

def failed (r : Round) : List JobRecord :=
  (r.readings.map Reading.record).filter fun record => !(record.status == .succeeded)

/-- The jobs that are to be committed. -/
def succeeded (r : Round) : List Nat := r.successful.map JobRecord.job

/-- Looking at a wave until it has ended. -/
def looks (waits : Nat) : List Event := .replicate waits (.look (.ok false)) ++ [.look (.ok true)]

/-- All that happens before the commit. -/
def events (r : Round) : List Event :=
  .submit r.wave (.ok ()) :: (looks r.waits ++ r.readings.flatMap Reading.events)

theorem filterMap_looks {β : Type} (f : Event → Option β)
    (looks : ∀ answer, f (.look answer) = none) (waits : Nat) :
    (Round.looks waits).filterMap f = [] := by
  refine List.filterMap_eq_nil_iff.mpr fun e member => ?_
  rcases List.mem_append.mp member with wait | last
  · rw [List.eq_of_mem_replicate wait, looks]
  · rw [List.mem_singleton.mp last, looks]

/-- Looking and reading left aside, a round is a submission. -/
theorem filterMap_events {β : Type} (f : Event → Option β) (looks : ∀ answer, f (.look answer) = none)
    (statuses : ∀ job answer, f (.status job answer) = none)
    (messages : ∀ job answer, f (.message job answer) = none) (r : Round) :
    r.events.filterMap f = (f (.submit r.wave (.ok ()))).toList := by
  have readings : (r.readings.flatMap Reading.events).filterMap f = [] := by
    refine List.filterMap_eq_nil_iff.mpr fun e member => ?_
    obtain ⟨reading, _, own⟩ := List.mem_flatMap.mp member
    unfold Reading.events at own
    split at own
    · rw [List.mem_singleton.mp own, statuses]
    · rcases List.mem_pair.mp own with rfl | rfl
      · exact statuses _ _
      · exact messages _ _
  have rest : (Round.looks r.waits ++ r.readings.flatMap Reading.events).filterMap f = [] := by
    rw [List.filterMap_append, filterMap_looks f looks, readings, List.append_nil]
  rw [events, List.filterMap_cons, rest]
  cases f (.submit r.wave (.ok ())) <;> rfl

end Round

section View

variable {W S : Type}

/-- From one state to the next some events are written down, and what else is seen stays as it is. -/
def Adds (view : W → S × List Event) (w w' : W) (events : List Event) : Prop :=
  view w' = ((view w).1, (view w).2 ++ events)

theorem Adds.refl (view : W → S × List Event) (w : W) : Adds view w w [] := by
  rw [Adds, List.append_nil]

theorem Adds.trans {view : W → S × List Event} {w w' w'' : W} {first second : List Event}
    (before : Adds view w w' first) (after : Adds view w' w'' second) :
    Adds view w w'' (first ++ second) := by
  rw [Adds, after, before, List.append_assoc]

variable {m : Type → Type} [Monad m] [Stateful m W] {ε α : Type}

/-- The calls to a cluster are written down and touch nothing else that is seen. -/
structure Cluster.Records (c : Cluster m α) (view : W → S × List Event) : Prop where
  submit : ∀ wave w, Adds view w ((c.submit wave).act w).2 [.submit wave ((c.submit wave).act w).1]
  look : ∀ w, Adds view w (c.allFinished.act w).2 [.look (c.allFinished.act w).1]
  progress : ∀ job w, Adds view w (Stateful.act (c.progress job) w).2 []
  status : ∀ job w, Adds view w (Stateful.act (c.status job) w).2
    [.status job (Stateful.act (c.status job) w).1]
  message : ∀ job w, Adds view w (Stateful.act (c.message job) w).2
    [.message job (Stateful.act (c.message job) w).1]
  stop : ∀ w, Adds view w (c.stop.act w).2 [.stop (c.stop.act w).1]
  stats : ∀ job w, Adds view w ((c.stats job).act w).2 [.stats job ((c.stats job).act w).1]

def seen (w : List Event × W) : Unit × List Event := ((), w.1)

def seenBeside (w : S × (List Event × W)) : S × List Event := (w.1, w.2.1)

theorem Adds.recording (event : α → Event) (x : m α) (w : List Event × W) :
    Adds seen w (Stateful.act (Wavefront.recording event x) w).2
      [event (Stateful.act (Wavefront.recording event x) w).1] := by
  obtain ⟨log, w⟩ := w
  rw [act_recording]
  rfl

theorem Adds.answered {event : Except ε α → Event} {x : Step m ε α} {w w' : List Event × W}
    {answer : Except ε α} (answered : (Step.recording event x).act w = (answer, w')) :
    Adds seen w w' [event answer] := by
  obtain ⟨log, w⟩ := w
  rw [Step.act_recording] at answered
  cases answered
  rfl

theorem Adds.monadLift (x : m α) (w : List Event × W) :
    Adds seen w (Stateful.act (MonadLift.monadLift x : Recorded m α) w).2 [] := by
  obtain ⟨log, w⟩ := w
  rw [act_monadLift, Adds, List.append_nil]
  rfl

theorem Cluster.recorded_records (c : Cluster m α) : c.recorded.Records (seen (W := W)) where
  submit _ := .recording _ _
  look := .recording _ _
  progress _ := .monadLift _
  status _ := .recording _ _
  message _ := .recording _ _
  stop := .recording _ _
  stats _ := .recording _ _

theorem Adds.beside {n : Type → Type} [Monad n] [Stateful n (List Event × W)] {x : n α}
    (event : α → List Event)
    (added : ∀ w, Adds seen w (Stateful.act x w).2 (event (Stateful.act x w).1))
    (w : S × (List Event × W)) :
    Adds seenBeside w (Stateful.act (MonadLift.monadLift x : StateT S n α) w).2
      (event (Stateful.act (MonadLift.monadLift x : StateT S n α) w).1) := by
  obtain ⟨s, w⟩ := w
  rw [act_monadLift]
  exact congrArg (fun seen : Unit × List Event => (s, seen.2)) (added w)

theorem Cluster.widen_records {n : Type → Type} [Monad n] [Stateful n (List Event × W)]
    {c : Cluster n α} (records : c.Records seen) :
    (c.widen : Cluster (StateT S n) α).Records seenBeside where
  submit wave := .beside (fun answer => [.submit wave answer]) (records.submit wave)
  look := .beside (fun answer => [.look answer]) records.look
  progress job := .beside (fun _ => []) (records.progress job)
  status job := .beside (fun answer => [.status job answer]) (records.status job)
  message job := .beside (fun answer => [.message job answer]) (records.message job)
  stop := .beside (fun answer => [.stop answer]) records.stop
  stats job := .beside (fun answer => [.stats job answer]) (records.stats job)

end View

namespace Launch

variable {m : Type → Type} [Monad m] {W S α : Type} [Stateful m W]

/-- What happens in a launch besides its calls to the source of waves is written down and touches
nothing else that is seen. -/
structure Records (l : Launch m α) (view : W → S × List Event) : Prop extends
    Cluster.Records l.cluster view where
  pause : ∀ w, Adds view w (Stateful.act l.pause w).2 []

variable {l : Launch m α} {view : W → S × List Event}

/-- A job is read once. -/
theorem record_spec (records : l.Records view) (job : Job) (w : W) :
    ∃ reading : Reading, reading.job = job ∧ ∃ w',
      Stateful.act (l.record job) w = (reading.record, w') ∧ Adds view w w' reading.events := by
  have status := records.status job.id w
  rw [record, Stateful.act_bind]
  obtain ⟨⟨answer, w₁⟩, read⟩ : ∃ r, Stateful.act (l.cluster.status job.id) w = r := ⟨_, rfl⟩
  rw [read] at status ⊢
  have unread : answer ≠ .succeeded → ∃ reading : Reading, reading.job = job ∧ ∃ w',
      Stateful.act (do
        let message ← l.cluster.message job.id
        return JobRecord.ofJob job answer message) w₁ = (reading.record, w') ∧
      Adds view w w' reading.events := by
    intro different
    have message := records.message job.id w₁
    rw [Stateful.act_bind, Stateful.act_pure]
    refine ⟨⟨job, answer, _, fun same => absurd same different⟩, rfl, _, rfl, ?_⟩
    simp only [Reading.events, different, ↓reduceIte]
    exact status.trans message
  cases answer with
  | succeeded =>
    refine ⟨⟨job, .succeeded, none, fun _ => rfl⟩, rfl, w₁, Stateful.act_pure _ _, ?_⟩
    simpa only [Reading.events, ↓reduceIte] using status
  | waiting => exact unread (by simp)
  | running => exact unread (by simp)
  | failed => exact unread (by simp)

variable [LawfulMonad m]

theorem ofCluster_act {β : Type} (step : Step m ClusterFault β) (w : W) :
    (ofCluster step).act w = ((step.act w).1.mapError .cluster, (step.act w).2) :=
  Step.act_adapt _ _ _

theorem ofSource_act {β : Type} (step : Step m Error β) (w : W) :
    (ofSource step).act w = ((step.act w).1.mapError .error, (step.act w).2) :=
  Step.act_adapt _ _ _

/-- The progress of a wave is read without a trace. -/
theorem readProgress_spec (records : l.Records view) (jobs : List Job) (w : W) :
    ∃ readings w', (jobs.mapM fun job =>
        (liftM (l.cluster.progress job.id) : Step m LaunchFault α)).act w = (.ok readings, w') ∧
      Adds view w w' [] := by
  induction jobs generalizing w with
  | nil => exact ⟨[], w, Step.act_mapM_nil _ w, Adds.refl view w⟩
  | cons job rest ih =>
    obtain ⟨readings, w', read, later⟩ := ih (Stateful.act (l.cluster.progress job.id) w).2
    refine ⟨(Stateful.act (l.cluster.progress job.id) w).1 :: readings, w', ?_,
      (records.progress job.id w).trans later⟩
    rw [Step.act_mapM_cons, Step.act_liftM]
    simp only [read]

section Polling

variable [ProgressNumber α]

/-- How the looks at a wave come out. -/
inductive Polled (journal : Journal α) : Except LaunchFault (Journal α) → List Event → Prop where
  | finished (waits : Nat) (journal' : Journal α) (waves : journal'.waves = journal.waves)
      (successful : journal'.successful = journal.successful) :
      Polled journal (.ok journal') (Round.looks waits)
  | failed (fault : LaunchFault) (events : List Event)
      (only : ∀ e ∈ events, ∃ answer, e = .look answer) (foreign : ∀ e, fault ≠ .error e) :
      Polled journal (.error fault) events

theorem poll_spec (records : l.Records view) (wave : Wave) (looks : Nat) (journal : Journal α)
    (w : W) :
    ∃ result w' events, (l.poll wave looks journal).act w = (result, w') ∧ Adds view w w' events ∧
      Polled journal result events := by
  induction looks generalizing journal w with
  | zero =>
    exact ⟨_, w, [], Step.act_throw _ w, Adds.refl view w, .failed _ _ (by simp) (by simp)⟩
  | succ looks ih =>
    have looked := records.look w
    rw [poll]
    cases answer : l.cluster.allFinished.act w with
    | mk result w₁ =>
      rw [answer] at looked
      cases result with
      | error fault =>
        refine ⟨_, w₁, _, ?_, looked, .failed (.cluster fault) _ (by simp) (by simp)⟩
        exact Step.act_bind_error (by rw [ofCluster_act, answer]; rfl)
      | ok finished =>
        obtain ⟨readings, w₂, read, silent⟩ := readProgress_spec records wave.jobs w₁
        have settled : (ofCluster l.cluster.allFinished).act w = (.ok finished, w₁) := by
          rw [ofCluster_act, answer]
          rfl
        rw [Step.act_bind_ok settled, Step.act_bind_ok read]
        cases finished with
        | true =>
          refine ⟨_, w₂, _, Step.act_pure _ _, looked.trans silent, ?_⟩
          exact .finished 0 _ rfl rfl
        | false =>
          have paused := records.pause w₂
          obtain ⟨result, w', events, ran, added, polled⟩ :=
            ih (journal.observe readings) (Stateful.act l.pause w₂).2
          refine ⟨result, w', _, ?_, looked.trans (silent.trans (paused.trans added)), ?_⟩
          · exact (Step.act_bind_ok (Step.act_liftM _ _)).trans ran
          · cases polled with
            | finished waits journal' waves successful =>
              exact .finished (waits + 1) journal' waves successful
            | failed fault events only foreign =>
              exact .failed fault _ (by simpa using only) foreign

end Polling

/-- All jobs of a wave are read in their order. -/
theorem records_spec (records : l.Records view) (jobs : List Job) (w : W) :
    ∃ (readings : List Reading) (w' : W), readings.map Reading.job = jobs ∧
      (jobs.mapM fun job => (liftM (l.record job) : Step m LaunchFault JobRecord)).act w =
        (.ok (readings.map Reading.record), w') ∧
      Adds view w w' (readings.flatMap Reading.events) := by
  induction jobs generalizing w with
  | nil => exact ⟨[], w, rfl, Step.act_mapM_nil _ w, Adds.refl view w⟩
  | cons job rest ih =>
    obtain ⟨reading, rfl, w₁, read, first⟩ := record_spec records job w
    obtain ⟨readings, w', jobs, others, later⟩ := ih w₁
    refine ⟨reading :: readings, w', by rw [List.map_cons, jobs], ?_, first.trans later⟩
    rw [Step.act_mapM_cons, Step.act_liftM, read]
    simp only [others, List.map_cons]

/-- How the jobs of some records report. -/
inductive Reported (asked : List JobRecord) : Except LaunchFault (List JobRecord) → List Event → Prop where
  | all (answers : List (JobRecord × JobStats)) (complete : answers.map Prod.fst = asked) :
      Reported asked (.ok (answers.map fun a => { a.1 with stats := some a.2 }))
        (answers.map fun a => .stats a.1.job (.ok a.2))
  | refused (answers : List (JobRecord × JobStats)) (job : Nat) (fault : ClusterFault) :
      Reported asked (.error (.cluster fault))
        ((answers.map fun a => .stats a.1.job (.ok a.2)) ++ [.stats job (.error fault)])

theorem withStats_spec (records : l.Records view) (asked : List JobRecord) (w : W) :
    ∃ result w' events, (asked.mapM l.withStats).act w = (result, w') ∧ Adds view w w' events ∧
      Reported asked result events := by
  induction asked generalizing w with
  | nil => exact ⟨_, w, [], Step.act_mapM_nil _ w, Adds.refl view w, .all [] rfl⟩
  | cons r rest ih =>
    have reported := records.stats r.job w
    rw [Step.act_mapM_cons]
    cases answer : (l.cluster.stats r.job).act w with
    | mk result w₁ =>
      rw [answer] at reported
      cases result with
      | error fault =>
        refine ⟨_, w₁, _, ?_, reported, .refused [] r.job fault⟩
        rw [withStats, Step.act_bind_error (by rw [ofCluster_act, answer]; rfl)]
      | ok s =>
        obtain ⟨result, w', events, ran, added, others⟩ := ih w₁
        have first : (l.withStats r).act w = (.ok { r with stats := some s }, w₁) := by
          rw [withStats, Step.act_bind_ok (by rw [ofCluster_act, answer]; rfl), Step.act_pure]
        simp only [first, ran]
        cases others with
        | all answers complete =>
          exact ⟨_, w', _, rfl, reported.trans added,
            .all ((r, s) :: answers) (by rw [List.map_cons, complete])⟩
        | refused answers job fault =>
          exact ⟨_, w', _, rfl, reported.trans added, .refused ((r, s) :: answers) job fault⟩

section Waves

variable [ProgressNumber α]

/-- How a wave breaks off before its commit. -/
def BrokenOff (wave : Wave) (events : List Event) : Prop :=
  ∃ answer looks, events = .submit wave answer :: looks ∧ ∀ e ∈ looks, ∃ answer, e = .look answer

/-- A wave breaks off because the cluster refuses or the limits are used up, or it comes to its commit
after a round. -/
theorem runWave_spec (records : l.Records view) (wave : Wave) (journal : Journal α) (w : W) :
    (∃ fault w' events, (l.runWave wave journal).act w = (.error fault, w') ∧
      Adds view w w' events ∧ BrokenOff wave events ∧ ∀ e, fault ≠ .error e) ∨
    ∃ (round : Round) (w' : W) (journal' : Journal α), round.wave = wave ∧
      Adds view w w' round.events ∧ journal'.waves = journal.waves ++ [wave.jobIds] ∧
      journal'.successful = journal.successful ++ round.successful ∧
      (l.runWave wave journal).act w =
        match (l.source.commit wave round.succeeded).act w' with
        | (.ok _, w') => (.ok (journal', round.failed), w')
        | (.error e, w') => (.error (.error e), w') := by
  have submitted := records.submit wave w
  rw [runWave]
  cases answer : (l.cluster.submit wave).act w with
  | mk result w₁ =>
    rw [answer] at submitted
    cases result with
    | error fault =>
      refine .inl ⟨.cluster fault, w₁, _, ?_, submitted, ⟨.error fault, [], rfl, by simp⟩,
        by simp⟩
      exact Step.act_bind_error (by rw [ofCluster_act, answer]; rfl)
    | ok accepted =>
      have begun : (ofCluster (l.cluster.submit wave)).act w = (.ok accepted, w₁) := by
        rw [ofCluster_act, answer]
        rfl
      rw [Step.act_bind_ok begun]
      obtain ⟨result, w₂, looks, ran, looked, polled⟩ :=
        poll_spec records wave l.limits.polls (journal.submitted wave) w₁
      cases polled with
      | failed fault _ only foreign =>
        exact .inl ⟨fault, w₂, _, Step.act_bind_error ran, submitted.trans looked,
          ⟨.ok accepted, looks, rfl, only⟩, foreign⟩
      | finished waits journal' waves successful =>
        obtain ⟨readings, w₃, complete, read, added⟩ := records_spec records wave.jobs w₂
        rw [Step.act_bind_ok ran, Step.act_bind_ok read]
        let round : Round := ⟨wave, waits, readings, complete⟩
        refine .inr ⟨round, w₃, journal'.finished wave round.successful, rfl,
          submitted.trans (looked.trans added), waves, ?_, ?_⟩
        · show journal'.successful ++ round.successful = _
          rw [successful]
          rfl
        · rw [List.partition_eq_filter_filter]
          show Step.act (ofSource (l.source.commit wave round.succeeded) >>= _) w₃ = _
          rw [Step.act_bind, ofSource_act]
          rcases (l.source.commit wave round.succeeded).act w₃ with ⟨_ | _, _⟩
          · rfl
          · exact Step.act_pure _ _

end Waves

end Launch

end Wavefront
