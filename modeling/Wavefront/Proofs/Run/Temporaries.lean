import Mathlib.Data.List.Nodup
import Wavefront.Proofs.Run.Readiness
import Wavefront.Proofs.Run.Stages
set_option autoImplicit false

/-!
Temporary outputs. A schedule remembers the temporary outputs that were put in place, and a launch drops
them when it cleans up. It cleans up where it has an outcome, and where only the reports of its jobs are
missing for one; a launch that breaks off earlier drops nothing. Main statement: if the committer drops
whatever it is asked to, exactly these are the two cases in which each temporary output is dropped, once.
-/
namespace Wavefront

/-- The jobs with temporary outputs that were put in place, in order. -/
def temporaries (events : List Event) : List Job :=
  (events.filterMap Event.placed?).filter Job.temporary

/-- A schedule remembers what has happened to outputs. -/
structure Tally (s : Schedule) (log : List Event) : Prop where
  kept : log.filterMap Event.dropped? = []
  silent : ∀ job answer, .stats job answer ∉ log
  remembered : s.temporaries = temporaries log
  distinct : ((log.filterMap Event.stored?).map Job.id).Nodup
  numbered : ∀ job ∈ log.filterMap Event.stored?, job.id < s.nextJob

/-- Quiet events are of no account where looks, readings and stops are of none. -/
theorem Quiet.filterMap {β : Type} {events : List Event} (quiet : Quiet events) (f : Event → Option β)
    (looks : ∀ answer, f (.look answer) = none) (statuses : ∀ job answer, f (.status job answer) = none)
    (messages : ∀ job answer, f (.message job answer) = none)
    (stops : ∀ answer, f (.stop answer) = none) : events.filterMap f = [] := by
  refine List.filterMap_eq_nil_iff.mpr fun e member => ?_
  have silent := quiet e member
  cases e with
  | look answer => exact looks answer
  | status job answer => exact statuses job answer
  | message job answer => exact messages job answer
  | stop answer => exact stops answer
  | _ => cases silent

theorem Quiet.submitted_eq_nil {events : List Event} (quiet : Quiet events) :
    events.filterMap Event.submitted? = [] :=
  quiet.filterMap _ (fun _ => rfl) (fun _ _ => rfl) (fun _ _ => rfl) fun _ => rfl

namespace Schedule.Asked

variable {refuses : Job → CommitFault → Prop} {jobs accepted : List Job} {result : Except Error Unit}
  {events : List Event}

/-- The committer is asked about nothing but the jobs. -/
theorem exists_job {event : Job → Except CommitFault Unit → Event}
    (asked : Asked event refuses jobs result accepted events) {e : Event} (member : e ∈ events) :
    ∃ job ∈ jobs, ∃ answer, e = event job answer := by
  cases asked with
  | all =>
    obtain ⟨job, among, rfl⟩ := List.mem_map.mp member
    exact ⟨job, among, _, rfl⟩
  | refused _ job rest fault tried =>
    rcases List.mem_append.mp member with before | last
    · obtain ⟨job, among, rfl⟩ := List.mem_map.mp before
      exact ⟨job, tried ▸ List.mem_append_left _ among, _, rfl⟩
    · exact ⟨job, by simp [tried], _, List.mem_singleton.mp last⟩

theorem placed (asked : Asked .store refuses jobs result accepted events) :
    events.filterMap Event.placed? = accepted := by
  have all (jobs : List Job) :
      (jobs.map fun job => Event.store job (.ok ())).filterMap Event.placed? = jobs := by
    rw [List.filterMap_map]
    exact List.filterMap_some
  cases asked with
  | all => exact all jobs
  | refused _ job rest fault => rw [List.filterMap_append, all]; exact List.append_nil accepted

/-- The committer is asked about the jobs in their order. -/
theorem stored (asked : Asked .store refuses jobs result accepted events) :
    events.filterMap Event.stored? <+: jobs := by
  have all (jobs : List Job) :
      (jobs.map fun job => Event.store job (.ok ())).filterMap Event.stored? = jobs := by
    rw [List.filterMap_map]
    exact List.filterMap_some
  cases asked with
  | all => exact ⟨[], (List.append_nil _).trans (all jobs)⟩
  | refused _ job rest fault tried =>
    rw [List.filterMap_append, all, tried]
    exact ⟨rest, List.append_assoc _ _ _⟩

end Schedule.Asked

namespace Tally

variable {σ : Type} {s s' : Schedule} {log log' events : List Event} {c : RunConfig} {g : Graph}
  {group : String}

theorem start : Tally .start [] := ⟨rfl, by simp, rfl, .nil, by simp⟩

/-- What does not concern outputs changes nothing. -/
theorem append (tally : Tally s log) (remembered : s'.temporaries = s.temporaries)
    (numbered : s.nextJob ≤ s'.nextJob) (stored : events.filterMap Event.stored? = [])
    (placed : events.filterMap Event.placed? = []) (dropped : events.filterMap Event.dropped? = [])
    (silent : ∀ job answer, .stats job answer ∉ events) : Tally s' (log ++ events) where
  kept := by rw [List.filterMap_append, tally.kept, dropped, List.append_nil]
  silent job answer member := (List.mem_append.mp member).elim (tally.silent job answer) (silent job answer)
  remembered := by
    rw [remembered, tally.remembered, temporaries, temporaries, List.filterMap_append, placed,
      List.append_nil]
  distinct := by
    rw [List.filterMap_append, stored, List.append_nil]
    exact tally.distinct
  numbered job member := by
    rw [List.filterMap_append, stored, List.append_nil] at member
    exact Nat.lt_of_lt_of_le (tally.numbered job member) numbered

theorem quiet (tally : Tally s log) (quiet : Quiet events) : Tally s (log ++ events) :=
  tally.append rfl (Nat.le_refl _)
    (quiet.filterMap Event.stored? (fun _ => rfl) (fun _ _ => rfl) (fun _ _ => rfl) fun _ => rfl)
    (quiet.filterMap Event.placed? (fun _ => rfl) (fun _ _ => rfl) (fun _ _ => rfl) fun _ => rfl)
    (quiet.filterMap Event.dropped? (fun _ => rfl) (fun _ _ => rfl) (fun _ _ => rfl) fun _ => rfl)
    fun _ _ member => Bool.false_ne_true (quiet _ member)

theorem submitted (tally : Tally s log) {wave : Wave} (answer : Except ClusterFault Unit)
    (handed : s.next c g group = .ok (some (wave, s'))) : Tally s' (log ++ [.submit wave answer]) := by
  obtain ⟨_, _, _, rfl⟩ := Schedule.next_made handed
  exact tally.append rfl (Nat.le_add_right _ _) rfl rfl rfl (by simp)

/-- The outputs of jobs that were not stored before are put in place. -/
theorem stored {refuses : Job → CommitFault → Prop} {jobs accepted : List Job}
    {result : Except Error Unit} (tally : Tally s log) (committed : SortedSet Nat)
    (asked : Schedule.Asked .store refuses jobs result accepted events)
    (distinct : (jobs.map Job.id).Nodup)
    (fresh : ∀ job ∈ jobs, ∀ old ∈ log.filterMap Event.stored?, old.id < job.id)
    (numbered : ∀ job ∈ jobs, job.id < s.nextJob) :
    Tally (accepted.foldl Schedule.complete { s with committed }) (log ++ events) where
  kept := by
    rw [List.filterMap_append, tally.kept, List.nil_append, List.filterMap_eq_nil_iff]
    intro e member
    obtain ⟨job, _, answer, rfl⟩ := asked.exists_job member
    rfl
  silent job answer member := by
    rcases List.mem_append.mp member with before | now
    · exact tally.silent job answer before
    · obtain ⟨_, _, _, is⟩ := asked.exists_job now
      cases is
  remembered := by
    rw [Schedule.temporaries_foldl_complete, tally.remembered, temporaries, temporaries,
      List.filterMap_append, asked.placed, List.filter_append]
  distinct := by
    rw [List.filterMap_append, List.map_append]
    refine List.nodup_append.mpr ⟨tally.distinct, (asked.stored.sublist.map _).nodup distinct, ?_⟩
    intro id old id' now same
    obtain ⟨before, earlier, rfl⟩ := List.mem_map.mp old
    obtain ⟨job, later, rfl⟩ := List.mem_map.mp now
    exact Nat.ne_of_lt (fresh job (asked.stored.subset later) before earlier) same
  numbered job member := by
    rw [(Schedule.foldl_complete accepted { s with committed }).2.2.1]
    rw [List.filterMap_append] at member
    exact (List.mem_append.mp member).elim (tally.numbered job) fun now =>
      numbered job (asked.stored.subset now)

/-- The numbers of the jobs that are stored after a round are new. -/
theorem advances {committer : Committer (StateM σ)} {round : Round} {result : Except Error Unit}
    (tally : Tally s log)
    (advances : Advances committer c g group s log round result s' log') : Tally s' log' := by
  obtain ⟨next, result, accepted, events, handed, asked⟩ := advances
  have rounded : Tally next (log ++ round.events) := by
    have submitted := (tally.submitted (.ok ()) handed).quiet
      ((Round.quiet_looks round.waits).append round.quiet_readings)
    rwa [List.append_assoc] at submitted
  obtain ⟨_, _, made, rfl⟩ := Schedule.next_made handed
  have ids : round.wave.jobs.map Job.id = _ := (Schedule.jobs_made made).1
  have inside : ∀ job ∈ round.wave.jobs, s.nextJob ≤ job.id ∧
      job.id < s.nextJob + round.wave.jobs.length := fun job member => by
    have among : job.id ∈ round.wave.jobs.map Job.id := List.mem_map_of_mem member
    rwa [ids, List.mem_range'_1] at among
  rw [← List.append_assoc]
  refine rounded.stored _ asked ?_ (fun job member old earlier => ?_) fun job member =>
    (inside job (List.mem_filter.mp member).1).2
  · exact (List.filter_sublist.map Job.id).nodup (ids ▸ List.nodup_range')
  · rw [List.filterMap_append, Round.filterMap_events _ (fun _ => rfl) (fun _ _ => rfl)
      fun _ _ => rfl] at earlier
    have before := tally.numbered old (by simpa [Event.stored?] using earlier)
    exact Nat.lt_of_lt_of_le before (inside job (List.mem_filter.mp member).1).1

theorem kept_tally (committer : Committer (StateM σ)) (c : RunConfig) (g : Graph) (group : String) :
    Kept committer c g group Tally where
  quiet _ _ _ tally events := tally.quiet events
  submitted _ _ _ _ answer tally handed := tally.submitted answer handed
  advances _ _ _ _ _ _ tally advances := Tally.advances tally advances

end Tally

namespace Shuts

variable {σ α : Type} {committer : Committer (StateM σ)} {s : Schedule}
  {result : Except LaunchFault (Outcome α)} {rest : List Event}

/-- Nothing happens at the end but that outputs are dropped and jobs report. -/
theorem eq_of_mem (shuts : Shuts committer s result rest) {e : Event} (member : e ∈ rest) :
    (∃ job ∈ s.temporaries, ∃ answer, e = .discard job answer) ∨ ∃ job answer, e = .stats job answer := by
  have dropped (member : e ∈ s.temporaries.map fun job => Event.discard job (.ok ())) :
      ∃ job ∈ s.temporaries, ∃ answer, e = .discard job answer := by
    obtain ⟨job, among, rfl⟩ := List.mem_map.mp member
    exact ⟨job, among, _, rfl⟩
  have told (answers : List (JobRecord × JobStats)) (member : e ∈ reports answers) :
      ∃ job answer, e = .stats job answer := by
    obtain ⟨answer, _, rfl⟩ := List.mem_map.mp member
    exact ⟨_, _, rfl⟩
  cases shuts with
  | undropped _ _ _ asked => exact .inl (asked.exists_job member)
  | unreported answers last fault =>
    rcases List.mem_append.mp member with before | after
    · exact .inl (dropped before)
    · rcases List.mem_append.mp after with report | refusal
      · exact .inr (told answers report)
      · exact .inr ⟨last, _, List.mem_singleton.mp refusal⟩
  | reported outcome answers =>
    exact (List.mem_append.mp member).imp dropped (told answers)

theorem not_store (shuts : Shuts committer s result rest) (job : Job)
    (answer : Except CommitFault Unit) : .store job answer ∉ rest := by
  intro member
  rcases shuts.eq_of_mem member with ⟨_, _, _, is⟩ | ⟨_, _, is⟩ <;> cases is

/-- Where the committer drops what it is asked to, all that is remembered is dropped. -/
theorem dropped (shuts : Shuts committer s result rest)
    (willing : (∃ outcome, result = .ok outcome) ∨ ∀ job fault, ¬ committer.RefusesDiscard job fault) :
    rest.filterMap Event.dropped? = s.temporaries := by
  have all (jobs : List Job) :
      (jobs.map fun job => Event.discard job (.ok ())).filterMap Event.dropped? = jobs := by
    rw [List.filterMap_map]
    exact List.filterMap_some
  have silent (answers : List (JobRecord × JobStats)) :
      (reports answers).filterMap Event.dropped? = [] := by
    rw [reports, List.filterMap_map, List.filterMap_eq_nil_iff]
    exact fun _ _ => rfl
  cases shuts with
  | undropped e dropped _ asked => cases asked with
    | refused _ last after fault tried refusal =>
      rcases willing with ⟨_, is⟩ | willing
      · cases is
      · exact absurd refusal (willing last fault)
  | unreported answers last fault =>
    rw [List.filterMap_append, List.filterMap_append, all, silent]
    exact List.append_nil _
  | reported outcome answers => rw [List.filterMap_append, all, silent, List.append_nil]

theorem refused (shuts : Shuts committer s result rest)
    (willing : ∀ job fault, ¬ committer.RefusesDiscard job fault) {fault : LaunchFault}
    (failed : result = .error fault) : ∃ job refusal, .stats job (.error refusal) ∈ rest := by
  cases shuts with
  | undropped e dropped _ asked => cases asked with
    | refused _ last after fault tried refusal => exact absurd refusal (willing last fault)
  | unreported answers last fault => exact ⟨last, fault, by simp⟩
  | reported outcome answers => cases failed

theorem temporaries_append (shuts : Shuts committer s result rest) (log : List Event) :
    temporaries (log ++ rest) = temporaries log := by
  have none : rest.filterMap Event.placed? = [] := by
    refine List.filterMap_eq_nil_iff.mpr fun e member => ?_
    cases e with
    | store job answer => exact absurd member (shuts.not_store job answer)
    | _ => rfl
  rw [temporaries, temporaries, List.filterMap_append, none, List.append_nil]

end Shuts

/-- What is put in place was asked to be. -/
theorem placed_sublist (events : List Event) :
    (events.filterMap Event.placed?).Sublist (events.filterMap Event.stored?) := by
  induction events with
  | nil => exact .slnil
  | cons e rest ih =>
    rw [List.filterMap_cons, List.filterMap_cons]
    cases e with
    | store job answer =>
      cases answer with
      | ok _ => exact ih.cons_cons job
      | error fault => exact ih.cons job
    | _ => exact ih

/-- What becomes of the temporary outputs of a launch: all are dropped, once, where the launch has an
outcome or lacks no more than the report of a job, and none otherwise. -/
structure DroppedAtEnd {α : Type} (result : Except LaunchFault (Outcome α)) (events : List Event) :
    Prop where
  distinct : ((temporaries events).map Job.id).Nodup
  ended : ∀ outcome, result = .ok outcome → events.filterMap Event.dropped? = temporaries events
  unreported : ∀ job fault, .stats job (.error fault) ∈ events →
    events.filterMap Event.dropped? = temporaries events
  brokenOff : ∀ fault, result = .error fault → (∀ job refusal, .stats job (.error refusal) ∉ events) →
    events.filterMap Event.dropped? = []

namespace Tally

variable {σ α : Type} {committer : Committer (StateM σ)} {s : Schedule} {log rest : List Event}
  {result : Except LaunchFault (Outcome α)}

theorem distinct_temporaries (tally : Tally s log) : ((temporaries log).map Job.id).Nodup :=
  ((List.filter_sublist.trans (placed_sublist log)).map Job.id).nodup tally.distinct

theorem droppedAtEnd_of_error (tally : Tally s log) {fault : LaunchFault}
    (failed : result = .error fault) : DroppedAtEnd result log where
  distinct := tally.distinct_temporaries
  ended outcome is := by
    rw [failed] at is
    cases is
  unreported job refusal member := absurd member (tally.silent job _)
  brokenOff _ _ _ := tally.kept

/-- Where a launch cleans up all is dropped. -/
theorem droppedAtEnd_of_shuts (tally : Tally s log) (shuts : Shuts committer s result rest)
    (willing : ∀ job fault, ¬ committer.RefusesDiscard job fault) :
    DroppedAtEnd result (log ++ rest) := by
  have all : (log ++ rest).filterMap Event.dropped? = temporaries (log ++ rest) := by
    rw [List.filterMap_append, tally.kept, shuts.dropped (.inr willing), shuts.temporaries_append,
      ← tally.remembered, List.nil_append]
  refine ⟨?_, fun _ _ => all, fun _ _ _ => all, fun fault failed reported => ?_⟩
  · rw [shuts.temporaries_append]
    exact tally.distinct_temporaries
  · obtain ⟨job, refusal, member⟩ := shuts.refused willing failed
    exact absurd (List.mem_append_right log member) (reported job refusal)

end Tally

/-- If the committer drops whatever it is asked to, a launch on a schedule drops each temporary output
once where it has an outcome or lacks no more than the report of a job, and none otherwise. -/
theorem Site.launch_droppedAtEnd {σ α : Type} [ProgressNumber α] (site : Site (StateM σ) α)
    (c : RunConfig) (g : Graph) (group : String)
    (willing : ∀ job world, ((site.committer.discard job).act world).1 = .ok ()) (world : σ) :
    DroppedAtEnd (site.result c g group world) (site.events c g group world) := by
  have willing : ∀ job fault, ¬ site.committer.RefusesDiscard job fault := by
    rintro job fault ⟨world, refused⟩
    rw [willing] at refused
    cases refused
  obtain ⟨s, log, tally, ⟨⟨fault, failed⟩, is⟩ | ⟨rest, shuts, is⟩⟩ :=
    site.closes c g group (Tally.kept_tally site.committer c g group) Tally.start world
  · rw [is]
    exact tally.droppedAtEnd_of_error failed
  · rw [is]
    exact tally.droppedAtEnd_of_shuts shuts willing

/-- A site at which nothing is moved and every job succeeds at once, on a cluster that accepts so many
waves and counts them. -/
def Site.admitting (waves : Nat) : Site (StateM Nat) Rat where
  committer := .idle
  cluster := {
    submit := fun wave => ExceptT.mk fun accepted =>
      if accepted < waves then (.ok (), accepted + 1)
      else (.error (.other ("no wave " ++ toString wave.seq)), accepted)
    allFinished := pure true
    progress := fun _ => pure 1
    status := fun _ => pure .succeeded
    message := fun _ => pure none
    stop := pure ()
    stats := fun job => pure ⟨job, [job], 1, 0, 1, 1, 64, 100⟩ }
  limits := ⟨4, 4⟩
  pause := pure ()

/-- Two nodes, the second of which reads what the first writes. -/
def Graph.pair : Graph where
  scope := "scope"
  nodes := [
    ⟨0, [⟨.file "in" none, []⟩], none, [], .temporary "tmp/0", none, .none⟩,
    ⟨1, [⟨.temp 0 "tmp/0", []⟩], none, [], .final "out" "json", none, .none⟩]
  edges := .ofList [⟨0, 1⟩]

/-- The second wave is refused, and the temporary output of the first is left. -/
theorem Site.launch_droppedAtEnd_admitting :
    (∀ job world, (((Site.admitting 1).committer.discard job).act world).1 = .ok ()) ∧
    (Site.admitting 1).result .standard .pair "run" 0 = .error (.cluster (.other "no wave 1")) ∧
    DroppedAtEnd ((Site.admitting 1).result .standard .pair "run" 0)
      ((Site.admitting 1).events .standard .pair "run" 0) := by
  have willing : ∀ job world, (((Site.admitting 1).committer.discard job).act world).1 = .ok () :=
    fun _ _ => rfl
  exact ⟨willing, rfl, (Site.admitting 1).launch_droppedAtEnd .standard .pair "run" willing 0⟩

/-- Temporary outputs can outlive a launch without outcome, even if the committer drops whatever it is
asked to. -/
theorem Site.temporary_outlives_launch :
    Graph.ofNodes Graph.pair.scope Graph.pair.nodes = .ok .pair ∧
    (∀ job world, (((Site.admitting 1).committer.discard job).act world).1 = .ok ()) ∧
    (Site.admitting 1).result .standard .pair "run" 0 = .error (.cluster (.other "no wave 1")) ∧
    (temporaries ((Site.admitting 1).events .standard .pair "run" 0)).map Job.id = [0] ∧
    ((Site.admitting 1).events .standard .pair "run" 0).filterMap Event.dropped? = [] :=
  ⟨rfl, fun _ _ => rfl, rfl, rfl, rfl⟩

end Wavefront
