import Wavefront.Proofs.Run.Sourcing
import Wavefront.Proofs.Run.Trace
set_option autoImplicit false

/-!
Stages of a launch on a schedule. Waves are handed out, submitted and committed one after another; a
launch that breaks off does so at one of these stages, and one that does not drops the temporary outputs
that its schedule remembers and asks jobs to report. Main statement: what holds at the start and is kept
at every stage holds where a launch breaks off, and where it begins to clean up.
-/
namespace Wavefront

def Event.stored? : Event → Option Job
  | .store job _ => some job
  | _ => none

def Event.placed? : Event → Option Job
  | .store job (.ok _) => some job
  | _ => none

def Event.dropped? : Event → Option Job
  | .discard job _ => some job
  | _ => none

/-- Looking at a wave, reading a job and stopping the cluster. -/
def Event.isQuiet : Event → Bool
  | .look _ | .status _ _ | .message _ _ | .stop _ => true
  | _ => false

/-- Nothing is submitted or reported, and the committer has no part. -/
def Quiet (events : List Event) : Prop := ∀ e ∈ events, e.isQuiet = true

section Stages

variable {σ α : Type} (committer : Committer (StateM σ))

/-- A wave is handed out by a schedule and goes through a round, and the committer is asked about its
jobs that have succeeded. -/
inductive Advances (c : RunConfig) (g : Graph) (group : String) (s : Schedule) (log : List Event)
    (round : Round) : Except Error Unit → Schedule → List Event → Prop where
  | intro (s' : Schedule) (result : Except Error Unit) (accepted : List Job) (events : List Event)
      (handed : s.next c g group = .ok (some (round.wave, s')))
      (asked : Schedule.Asked .store committer.RefusesCommit
        (round.wave.jobs.filter fun job => round.succeeded.contains job.id) result accepted events) :
      Advances c g group s log round result
        (accepted.foldl Schedule.complete
          { s' with committed := s'.committed.insert round.wave.seq })
        (log ++ (round.events ++ events))

/-- How a launch ends once it cleans up after a schedule. -/
inductive Shuts (s : Schedule) : Except LaunchFault (Outcome α) → List Event → Prop where
  | undropped (e : Error) (dropped : List Job) (events : List Event)
      (asked : Schedule.Asked .discard committer.RefusesDiscard s.temporaries (.error e) dropped
        events) :
      Shuts s (.error (.error e)) events
  | unreported (answers : List (JobRecord × JobStats)) (job : Nat) (fault : ClusterFault) :
      Shuts s (.error (.cluster fault)) (s.temporaries.map (.discard · (.ok ())) ++
        (reports answers ++ [.stats job (.error fault)]))
  | reported (outcome : Outcome α) (answers : List (JobRecord × JobStats)) :
      Shuts s (.ok outcome) (s.temporaries.map (.discard · (.ok ())) ++ reports answers)

/-- What is kept at every stage of a launch. -/
structure Kept (c : RunConfig) (g : Graph) (group : String)
    (Holds : Schedule → List Event → Prop) : Prop where
  quiet : ∀ s log events, Holds s log → Quiet events → Holds s (log ++ events)
  submitted : ∀ s s' log wave answer, Holds s log → s.next c g group = .ok (some (wave, s')) →
    Holds s' (log ++ [.submit wave answer])
  advances : ∀ s s' log log' round result, Holds s log →
    Advances committer c g group s log round result s' log' → Holds s' log'

end Stages

namespace Round

theorem quiet_looks (waits : Nat) : Quiet (looks waits) := by
  intro e member
  rcases List.mem_append.mp member with wait | last
  · rw [List.eq_of_mem_replicate wait]
    rfl
  · rw [List.mem_singleton.mp last]
    rfl

theorem quiet_readings (r : Round) : Quiet (r.readings.flatMap Reading.events) := by
  intro e member
  obtain ⟨reading, _, own⟩ := List.mem_flatMap.mp member
  unfold Reading.events at own
  split at own
  · rw [List.mem_singleton.mp own]
    rfl
  · rcases List.mem_pair.mp own with rfl | rfl <;> rfl

end Round

theorem Quiet.append {first second : List Event} (before : Quiet first) (after : Quiet second) :
    Quiet (first ++ second) := by
  intro e member
  exact (List.mem_append.mp member).elim (before e) (after e)

theorem quiet_stop (answer : Except ClusterFault Unit) : Quiet [.stop answer] := by
  intro e member
  rw [List.mem_singleton.mp member]
  rfl

namespace Site

variable {σ α : Type} (site : Site (StateM σ) α) (c : RunConfig) (g : Graph) (group : String)

theorem recorded_records :
    (site.recorded.launch c g group).Records (seenBeside (W := σ) (S := Schedule)) where
  toRecords := Cluster.widen_records site.cluster.recorded_records
  pause := .beside (fun _ => []) (Adds.monadLift site.pause)

variable {site c g group} {w w₁ w₂ w₃ : Schedule × (List Event × σ)}

/-- A launch hears what its schedule says, and only a wave that is handed out changes something. -/
theorem next_cases {answer : Except Error (Option Wave)}
    (asked : ((site.recorded.launch c g group).source.next g group).act w = (answer, w₁)) :
    (∃ e, answer = .error e ∧ w.1.next c g group = .error e ∧ w₁ = w) ∨
      (answer = .ok none ∧ w.1.next c g group = .ok none ∧ w₁ = w) ∨
      ∃ wave s', answer = .ok (some wave) ∧ w.1.next c g group = .ok (some (wave, s')) ∧
        w₁ = (s', w.2) := by
  obtain ⟨s, w⟩ := w
  have acts := asked.symm.trans (Schedule.next_act site.recorded.committer s w)
  dsimp only
  generalize s.next c g group = found at acts ⊢
  rcases found with e | _ | ⟨wave, s'⟩ <;> cases acts
  · exact .inl ⟨e, rfl, rfl, rfl⟩
  · exact .inr (.inl ⟨rfl, rfl, rfl⟩)
  · exact .inr (.inr ⟨wave, s', rfl, rfl, rfl⟩)

theorem next_refused {e : Error}
    (asked : ((site.recorded.launch c g group).source.next g group).act w = (.error e, w₁)) :
    w.1.next c g group = .error e ∧ w₁ = w := by
  rcases next_cases asked with ⟨_, ⟨⟩, found, same⟩ | ⟨⟨⟩, _⟩ | ⟨_, _, ⟨⟩, _⟩
  exact ⟨found, same⟩

theorem next_exhausted
    (asked : ((site.recorded.launch c g group).source.next g group).act w = (.ok none, w₁)) :
    w.1.next c g group = .ok none ∧ w₁ = w := by
  rcases next_cases asked with ⟨_, ⟨⟩, _⟩ | ⟨_, found, same⟩ | ⟨_, _, ⟨⟩, _⟩
  exact ⟨found, same⟩

theorem next_handed {wave : Wave}
    (asked : ((site.recorded.launch c g group).source.next g group).act w = (.ok (some wave), w₁)) :
    ∃ s', w.1.next c g group = .ok (some (wave, s')) ∧ w₁ = (s', w.2) := by
  rcases next_cases asked with ⟨_, ⟨⟩, _⟩ | ⟨⟨⟩, _⟩ | ⟨_, s', ⟨⟩, found, same⟩
  exact ⟨s', found, same⟩

/-- A commit advances the launch, or the schedule refuses to commit a wave again. -/
theorem commit_advances {round : Round} {result : Except Error Unit}
    (asked : ((site.recorded.launch c g group).source.next g group).act w =
      (.ok (some round.wave), w₁))
    (added : Adds seenBeside w₁ w₂ round.events)
    (committed : ((site.recorded.launch c g group).source.commit round.wave round.succeeded).act w₂ =
      (result, w₃)) :
    Advances site.committer c g group w.1 w.2.1 round result w₃.1 w₃.2.1 ∨
      ∃ s' e, result = .error e ∧ w.1.next c g group = .ok (some (round.wave, s')) ∧
        s'.committed.contains round.wave.seq = true ∧ w₃.1 = s' ∧
        w₃.2.1 = w.2.1 ++ round.events := by
  obtain ⟨s', handed, rfl⟩ := next_handed asked
  obtain ⟨s₂, log, w₂⟩ := w₂
  obtain ⟨rfl, rfl⟩ : s₂ = s' ∧ log = w.2.1 ++ round.events := Prod.ext_iff.mp added
  rcases Schedule.commit_act site.committer round.wave round.succeeded s₂ (w.2.1 ++ round.events) w₂
    with ⟨again, refused⟩ | ⟨result', accepted, events, w', ran, tried⟩
  · cases refused.symm.trans committed
    exact .inr ⟨s₂, _, rfl, handed, again, rfl, rfl⟩
  · cases ran.symm.trans committed
    refine .inl ?_
    rw [List.append_assoc]
    exact .intro s₂ _ accepted events handed tried

/-- A run that closes drops what its schedule remembers. -/
theorem closing_shuts {asked : List JobRecord} {finish : List JobRecord → Outcome α}
    {r : Except LaunchFault (Outcome α) × (Schedule × (List Event × σ))}
    (closing : Launch.Closing (site.recorded.launch c g group) seenBeside asked finish w r) :
    ∃ rest, Shuts site.committer w.1 r.1 rest ∧ r.2.2.1 = w.2.1 ++ rest := by
  obtain ⟨s, log, w⟩ := w
  obtain ⟨result, dropped, events, w', ran, tried⟩ := Schedule.cleanup_act site.committer s log w
  cases closing with
  | uncleaned e w₁ cleaned =>
    cases ran.symm.trans cleaned
    exact ⟨events, .undropped e dropped events tried, rfl⟩
  | cleaned w₁ w₂ records events' cleaned added reported =>
    cases ran.symm.trans cleaned
    obtain ⟨s₂, log₂, w₂⟩ := w₂
    obtain ⟨-, rfl⟩ : _ ∧ log₂ = log ++ events ++ events' := Prod.ext_iff.mp added
    cases tried with
    | all =>
      cases reported with
      | all answers complete => exact ⟨_, .reported _ answers, List.append_assoc _ _ _⟩
      | refused answers job fault => exact ⟨_, .unreported answers job fault, List.append_assoc _ _ _⟩

section Kept

variable {Holds : Schedule → List Event → Prop} (kept : Kept site.committer c g group Holds)
include kept

theorem kept_submission {log rest : List Event} {s s' : Schedule} {wave : Wave}
    {answer : Except ClusterFault Unit} (holds : Holds s log)
    (handed : s.next c g group = .ok (some (wave, s'))) (quiet : Quiet rest) :
    Holds s' (log ++ .submit wave answer :: rest) := by
  have submitted := kept.submitted s s' log wave answer holds handed
  simpa using kept.quiet s' _ rest submitted quiet

theorem kept_passes {journal journal' : Journal α} {round : Round}
    (passes : Launch.Passes (site.recorded.launch c g group) seenBeside journal journal' round
      w w₁ w₂ w₃) (holds : Holds w.1 w.2.1) : Holds w₃.1 w₃.2.1 := by
  rcases commit_advances passes.asked passes.added passes.committed with advances | ⟨_, _, is, _⟩
  · exact kept.advances _ _ _ _ _ _ holds advances
  · cases is

/-- A launch that ends has broken off at some stage, or it cleans up. -/
theorem ending_closes {journal : Journal α}
    {r : Except LaunchFault (Outcome α) × (Schedule × (List Event × σ))}
    (ending : Launch.Ending (site.recorded.launch c g group) seenBeside journal w r)
    (holds : Holds w.1 w.2.1) :
    ∃ s log, Holds s log ∧ (((∃ fault, r.1 = .error fault) ∧ r.2.2.1 = log) ∨
      ∃ rest, Shuts site.committer s r.1 rest ∧ r.2.2.1 = log ++ rest) := by
  cases ending with
  | stuck e w₁ asked =>
    obtain ⟨_, rfl⟩ := next_refused asked
    exact ⟨_, _, holds, .inl ⟨⟨_, rfl⟩, rfl⟩⟩
  | exhausted w₁ _ asked closing =>
    obtain ⟨_, rfl⟩ := next_exhausted asked
    exact ⟨_, _, holds, .inr (closing_shuts closing)⟩
  | brokenOff wave w₁ w₂ fault events asked added broken _ =>
    obtain ⟨s', handed, rfl⟩ := next_handed asked
    obtain ⟨answer, looks, rfl, only⟩ := broken
    have quiet : Quiet looks := by
      intro e member
      obtain ⟨answer, rfl⟩ := only e member
      rfl
    exact ⟨_, _, kept_submission kept holds handed quiet, .inl ⟨⟨_, rfl⟩, congrArg Prod.snd added⟩⟩
  | uncommitted round w₁ w₂ w₃ e asked added committed =>
    rcases commit_advances asked added committed with advances | ⟨s', _, _, handed, _, _, log⟩
    · exact ⟨_, _, kept.advances _ _ _ _ _ _ holds advances, .inl ⟨⟨_, rfl⟩, rfl⟩⟩
    · exact ⟨_, _, kept_submission kept holds handed
        ((Round.quiet_looks _).append (Round.quiet_readings _)), .inl ⟨⟨_, rfl⟩, log⟩⟩
  | unstopped round journal' w₁ w₂ w₃ w₄ fault passes lost added =>
    exact ⟨_, _, kept.quiet _ _ _ (kept_passes kept passes holds) (quiet_stop _),
      .inl ⟨⟨_, rfl⟩, congrArg Prod.snd added⟩⟩
  | stopped round journal' w₁ w₂ w₃ w₄ _ passes lost added closing =>
    have stopped := kept.quiet _ _ _ (kept_passes kept passes holds) (quiet_stop (.ok ()))
    obtain ⟨s, log, w₄⟩ := w₄
    obtain ⟨rfl, rfl⟩ : s = w₃.1 ∧ log = w₃.2.1 ++ [Event.stop (.ok ())] := Prod.ext_iff.mp added
    exact ⟨_, _, stopped, .inr (closing_shuts closing)⟩

end Kept

variable [ProgressNumber α] (site c g group)

def result (world : σ) : Except LaunchFault (Outcome α) :=
  ((site.launch c g group).run.act (.start, world)).1

/-- What happens in a launch on a schedule that has not begun. -/
def events (world : σ) : List Event :=
  ((site.recorded.launch c g group).run.act (.start, ([], world))).2.2.1

theorem result_eq (world : σ) : site.result c g group world =
    ((site.recorded.launch c g group).run.act (.start, ([], world))).1 :=
  congrArg Prod.fst ((site.launch_projects c g group).run (.start, ([], world)))

/-- What is kept at every stage holds where a launch breaks off, and where it begins to clean up. -/
theorem closes {Holds : Schedule → List Event → Prop} (kept : Kept site.committer c g group Holds)
    (start : Holds .start []) (world : σ) :
    ∃ s log, Holds s log ∧
      (((∃ fault, site.result c g group world = .error fault) ∧ site.events c g group world = log) ∨
        ∃ rest, Shuts site.committer s (site.result c g group world) rest ∧
          site.events c g group world = log ++ rest) := by
  obtain ⟨left, journal, w, holds, halt⟩ := Launch.runWaves_invariant
    (site.recorded_records c g group) (fun _ _ w => Holds w.1 w.2.1)
    (fun _ _ _ _ _ _ _ _ before passes _ => kept_passes kept passes before)
    site.limits.waves (.start g.nodes.length) (.start, ([], world)) start
  rw [site.result_eq]
  rcases halt with ⟨_, spent⟩ | ending
  · have ran : (site.recorded.launch c g group).run.act (.start, ([], world)) = _ := spent
    exact ⟨_, _, holds, .inl ⟨⟨.unfinished, by rw [ran]⟩, by rw [events, ran]⟩⟩
  · exact ending_closes kept ending holds

end Site

end Wavefront
