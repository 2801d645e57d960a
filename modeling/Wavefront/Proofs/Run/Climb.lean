import Wavefront.Proofs.Run.Ledger
import Wavefront.Proofs.Run.Levels
set_option autoImplicit false

/-!
Launches level by level. A launch on a schedule takes the levels of its graph one after another: it goes
up by one with each wave whose jobs all succeed. Main statement: if the committer does whatever it is
asked to, the waves that are submitted are those of the lowest levels, a launch that succeeds has taken
all levels, and no wave is kept back but by a node of the next level that cannot become a job.
-/
namespace Wavefront

theorem Round.succeeded_of_whole {r : Round} (whole : r.failed = []) {job : Job}
    (member : job ∈ r.wave.jobs) : job.id ∈ r.succeeded := by
  rw [← r.complete] at member
  obtain ⟨reading, read, rfl⟩ := List.mem_map.mp member
  have among : reading.record ∈ r.readings.map Reading.record := List.mem_map_of_mem read
  have won : reading.record.status == .succeeded := by
    simpa using List.filter_eq_nil_iff.mp whole _ among
  exact List.mem_map.mpr ⟨_, List.mem_filter.mpr ⟨among, won⟩, rfl⟩

/-- The nodes of all levels are those of the graph. -/
theorem Graph.below_perm (g : Graph) (k : Nat) :
    (g.below k).Perm (g.nodes.filter fun n => g.level n.id < k) := by
  induction k with
  | zero => simp [below]
  | succ k ih =>
    have lower : (g.nodes.filter fun n => g.level n.id < k + 1).filter (fun n => g.level n.id < k) =
        g.nodes.filter fun n => g.level n.id < k := by
      rw [List.filter_filter]
      refine List.filter_congr fun n _ => ?_
      rw [Bool.eq_iff_iff]
      simp only [Bool.and_eq_true, decide_eq_true_eq]
      omega
    have last : (g.nodes.filter fun n => g.level n.id < k + 1).filter (fun n => !(g.level n.id < k)) =
        g.stage k := by
      rw [List.filter_filter, stage]
      refine List.filter_congr fun n _ => ?_
      rw [Bool.eq_iff_iff]
      simp only [Bool.and_eq_true, Bool.not_eq_true', decide_eq_true_eq, decide_eq_false_iff_not,
        beq_iff_eq]
      omega
    rw [below_succ, ← last]
    refine (ih.append_right _).trans ?_
    rw [← lower]
    exact List.filter_append_perm _ _

/-- What a launch has seen that has taken the waves of the first levels, where all jobs of these have
succeeded. -/
structure Climbed {α : Type} (c : RunConfig) (g : Graph) (group : String) (level : Nat)
    (journal : Journal α) (s : Schedule) (log : List Event) : Prop where
  reaches : s.Reaches g level
  seq : s.nextSeq = level
  low : level ≤ g.height
  submitted : log.filterMap Event.submitted? = (List.range level).map (g.wave c group)
  noted : journal.waves = ((List.range level).map (g.wave c group)).map Wave.jobIds

/-- How a launch of so many waves ends that has submitted those of the first levels. -/
structure Halted {α : Type} (c : RunConfig) (g : Graph) (group : String) (limit levels : Nat)
    (result : Except LaunchFault (Outcome α)) (events : List Event) : Prop where
  low : levels ≤ g.height
  submitted : events.filterMap Event.submitted? = (List.range levels).map (g.wave c group)
  /-- An error comes from a node of the next level that cannot become a job. -/
  refused : ∀ e, result = .error (.error e) → ∃ n ∈ g.stage levels, ∃ completed fault,
    n.jobFault? c completed group = some fault ∧
      (∀ producer ∈ n.producers, producer ∈ completed.toList) ∧ e = .job n.id fault
  /-- A launch that succeeds has taken all levels. -/
  whole : ∀ outcome, result = .ok outcome → outcome.succeeded = true →
    levels = g.height ∧ outcome.waves = ((List.range levels).map (g.wave c group)).map Wave.jobIds
  /-- A launch that could go on looks at a wave. -/
  looking : g.height < limit → result = .error .unfinished → ∃ before wave answer looks,
    events = before ++ .submit wave answer :: looks ∧ ∀ e ∈ looks, ∃ answer, e = .look answer

variable {σ α : Type}

/-- A committer that agrees to whatever it is asked to refuses no wave. -/
theorem Advances.result_eq {committer : Committer (StateM σ)} {c : RunConfig} {g : Graph}
    {group : String} {s s' : Schedule} {log log' : List Event} {round : Round}
    {result : Except Error Unit} (advances : Advances committer c g group s log round result s' log')
    (stores : ∀ job fault, ¬ committer.RefusesCommit job fault) : result = .ok () := by
  cases advances with
  | intro _ _ _ _ _ asked =>
    cases asked with
    | all => rfl
    | refused _ job _ fault _ refusal => exact absurd refusal (stores job fault)

namespace Climbed

variable {c : RunConfig} {g : Graph} {group : String} {level : Nat} {s s' : Schedule}
  {log : List Event} {journal journal' : Journal α} {site : Site (StateM σ) α}
  {w w₁ w₂ w₃ : Schedule × (List Event × σ)} {round : Round} {wave : Wave}

theorem start [ProgressNumber α] (c : RunConfig) (g : Graph) (group : String) (nodes : Nat) :
    Climbed c g group 0 (Journal.start nodes : Journal α) .start [] :=
  ⟨.start g, rfl, Nat.zero_le _, rfl, rfl⟩

/-- The wave that is handed out is that of the level. -/
theorem handed (built : g.Built) (climbed : Climbed c g group level journal s log)
    (found : s.next c g group = .ok (some (wave, s'))) :
    level < g.height ∧ wave = g.wave c group level ∧ s'.committed.contains wave.seq = false ∧
      (wave.jobs.foldl Schedule.complete
        { s' with committed := s'.committed.insert wave.seq }).Reaches g (level + 1) ∧
      s'.nextSeq = level + 1 := by
  obtain ⟨below, is, fresh, higher⟩ := climbed.reaches.handed built found
  obtain ⟨_, seq, _, after⟩ := Schedule.next_made found
  rw [seq]
  refine ⟨below, ?_, fresh, higher, ?_⟩
  · rw [is, climbed.seq, Graph.wave]
  · rw [after, climbed.seq]

theorem submitted_append (climbed : Climbed c g group level journal s log)
    (is : wave = g.wave c group level) {answer : Except ClusterFault Unit} {rest : List Event}
    (silent : rest.filterMap Event.submitted? = []) :
    (log ++ .submit wave answer :: rest).filterMap Event.submitted? =
      (List.range (level + 1)).map (g.wave c group) := by
  rw [List.filterMap_append, climbed.submitted, List.range_succ, List.map_append, List.map_singleton, is]
  simp [Event.submitted?, silent]

/-- A wave that was committed takes a launch past its level, and one level higher if none of its jobs
has failed. -/
theorem advanced {committer : Committer (StateM σ)} {result : Except Error Unit} {log' : List Event}
    (built : g.Built) (climbed : Climbed c g group level journal s log)
    (advances : Advances committer c g group s log round result s' log') :
    level < g.height ∧ round.wave = g.wave c group level ∧
      log'.filterMap Event.submitted? = (List.range (level + 1)).map (g.wave c group) ∧
      (result = .ok () → round.failed = [] → s'.Reaches g (level + 1) ∧ s'.nextSeq = level + 1) := by
  cases advances with
  | intro s' _ accepted events found asked =>
    obtain ⟨below, is, _, higher, seq⟩ := climbed.handed built found
    have silent : events.filterMap Event.submitted? = [] := by
      refine List.filterMap_eq_nil_iff.mpr fun e member => ?_
      obtain ⟨job, _, answer, rfl⟩ := asked.exists_job member
      rfl
    refine ⟨below, is, ?_, fun accepts whole => ?_⟩
    · have quiet := (Round.quiet_looks round.waits).append (Round.quiet_readings round)
      rw [Round.events, List.cons_append]
      refine climbed.submitted_append is ?_
      rw [List.filterMap_append, quiet.submitted_eq_nil, silent, List.append_nil]
    · have all : (round.wave.jobs.filter fun job => round.succeeded.contains job.id) = round.wave.jobs :=
        List.filter_eq_self.mpr fun job member => by simpa using Round.succeeded_of_whole whole member
      subst accepts
      cases asked
      rw [all]
      exact ⟨higher, by rw [(Schedule.foldl_complete _ _).2.2.2.1, seq]⟩

/-- The commit of a wave that was handed out is accepted. -/
theorem committed {result : Except Error Unit} (built : g.Built)
    (stores : ∀ job fault, ¬ site.committer.RefusesCommit job fault)
    (climbed : Climbed c g group level journal w.1 w.2.1)
    (asked : ((site.recorded.launch c g group).source.next g group).act w = (.ok (some round.wave), w₁))
    (added : Adds seenBeside w₁ w₂ round.events)
    (committed : ((site.recorded.launch c g group).source.commit round.wave round.succeeded).act w₂ =
      (result, w₃)) :
    result = .ok () ∧ Advances site.committer c g group w.1 w.2.1 round result w₃.1 w₃.2.1 := by
  rcases Site.commit_advances asked added committed with advances | ⟨s', _, _, found, again, _⟩
  · exact ⟨advances.result_eq stores, advances⟩
  · obtain ⟨_, _, fresh, _⟩ := climbed.handed built found
    exact absurd (again.symm.trans fresh) (by simp)

/-- With a wave whose jobs all succeed a launch goes up one level. -/
theorem passed (built : g.Built) (stores : ∀ job fault, ¬ site.committer.RefusesCommit job fault)
    (climbed : Climbed c g group level journal w.1 w.2.1)
    (passes : Launch.Passes (site.recorded.launch c g group) seenBeside journal journal' round
      w w₁ w₂ w₃) (whole : round.failed = []) :
    Climbed c g group (level + 1) journal' w₃.1 w₃.2.1 := by
  have advances := (committed built stores climbed passes.asked passes.added passes.committed).2
  obtain ⟨below, is, submitted, higher⟩ := climbed.advanced built advances
  obtain ⟨reaches, seq⟩ := higher rfl whole
  refine ⟨reaches, seq, below, submitted, ?_⟩
  rw [passes.waves, climbed.noted, List.range_succ, List.map_append, List.map_append, is]
  rfl

/-- Cleaning up submits nothing, and is not refused by a committer that drops whatever it is asked to. -/
theorem closing (willing : ∀ job fault, ¬ site.committer.RefusesDiscard job fault)
    {asked : List JobRecord} {finish : List JobRecord → Outcome α}
    {r : Except LaunchFault (Outcome α) × (Schedule × (List Event × σ))}
    (closing : Launch.Closing (site.recorded.launch c g group) seenBeside asked finish w r) :
    (∃ rest, rest.filterMap Event.submitted? = [] ∧ r.2.2.1 = w.2.1 ++ rest) ∧
      ((∃ answers, r.1 = .ok (finish answers)) ∨ ∃ fault, r.1 = .error (.cluster fault)) := by
  obtain ⟨rest, shuts, is⟩ := Site.closing_shuts closing
  refine ⟨⟨rest, List.filterMap_eq_nil_iff.mpr fun e member => ?_, is⟩, ?_⟩
  · rcases shuts.eq_of_mem member with ⟨_, _, _, rfl⟩ | ⟨_, _, rfl⟩ <;> rfl
  cases closing with
  | uncleaned e w₁ cleaned =>
    cases shuts with
    | undropped _ _ _ asked =>
      cases asked with
      | refused _ job _ fault _ refusal => exact absurd refusal (willing job fault)
  | cleaned w₁ w₂ records events cleaned added reported =>
    cases reported with
    | all answers => exact .inl ⟨_, rfl⟩
    | refused _ _ fault => exact .inr ⟨fault, rfl⟩

/-- Wherever a launch ends that has climbed so far, it has submitted the waves of the lowest levels. -/
theorem halted (limit : Nat) (built : g.Built) (stores : ∀ job fault, ¬ site.committer.RefusesCommit job fault)
    (drops : ∀ job fault, ¬ site.committer.RefusesDiscard job fault)
    (climbed : Climbed c g group level journal w.1 w.2.1)
    {r : Except LaunchFault (Outcome α) × (Schedule × (List Event × σ))}
    (ending : Launch.Ending (site.recorded.launch c g group) seenBeside journal w r) :
    ∃ levels, Halted c g group limit levels r.1 r.2.2.1 := by
  cases ending with
  | stuck e w₁ asked =>
    obtain ⟨failed, rfl⟩ := Site.next_refused asked
    obtain ⟨n, stage, fault, refused, supplied, rfl⟩ := climbed.reaches.next_error built failed
    refine ⟨level, climbed.low, climbed.submitted, fun e is => ?_, by simp, by simp⟩
    cases is
    exact ⟨n, stage, _, fault, refused, supplied, rfl⟩
  | exhausted w₁ _ asked closed =>
    obtain ⟨done, rfl⟩ := Site.next_exhausted asked
    have top : level = g.height := Nat.le_antisymm climbed.low
      ((climbed.reaches.size_eq_iff built).mp (Schedule.next_eq_none.mp done))
    obtain ⟨⟨rest, silent, is⟩, ended⟩ := closing drops closed
    refine ⟨level, climbed.low, ?_, fun e is => ?_, fun outcome is _ => ⟨top, ?_⟩, fun _ is => ?_⟩
    · rw [is, List.filterMap_append, silent, List.append_nil, climbed.submitted]
    · rcases ended with ⟨_, ok⟩ | ⟨_, ok⟩ <;> cases ok.symm.trans is
    · rcases ended with ⟨answers, ok⟩ | ⟨_, ok⟩ <;> cases ok.symm.trans is
      exact climbed.noted
    · rcases ended with ⟨_, ok⟩ | ⟨_, ok⟩ <;> cases ok.symm.trans is
  | brokenOff wave w₁ w₂ fault events asked added broken foreign =>
    obtain ⟨s', found, rfl⟩ := Site.next_handed asked
    obtain ⟨below, is, _⟩ := climbed.handed built found
    obtain ⟨answer, looks, rfl, only⟩ := broken
    have log : w₂.2.1 = w.2.1 ++ .submit wave answer :: looks := congrArg Prod.snd added
    have silent : looks.filterMap Event.submitted? = [] := by
      refine List.filterMap_eq_nil_iff.mpr fun e member => ?_
      obtain ⟨answer, rfl⟩ := only e member
      rfl
    refine ⟨level + 1, below, ?_, fun e is => ?_, by simp,
      fun _ _ => ⟨_, wave, answer, looks, log, only⟩⟩
    · rw [log]
      exact climbed.submitted_append is silent
    · exact absurd (Except.error.inj is) (foreign e)
  | uncommitted round w₁ w₂ w₃ e asked added refused =>
    cases (committed built stores climbed asked added refused).1
  | unstopped round journal' w₁ w₂ w₃ w₄ fault passes lost added =>
    have advances := (committed built stores climbed passes.asked passes.added passes.committed).2
    obtain ⟨below, _, submitted, _⟩ := climbed.advanced built advances
    have log : w₄.2.1 = w₃.2.1 ++ [.stop (.error fault)] := congrArg Prod.snd added
    refine ⟨level + 1, below, ?_, by simp, by simp, by simp⟩
    rw [log, List.filterMap_append, submitted]
    exact List.append_nil _
  | stopped round journal' w₁ w₂ w₃ w₄ _ passes lost added closed =>
    have advances := (committed built stores climbed passes.asked passes.added passes.committed).2
    obtain ⟨below, _, submitted, _⟩ := climbed.advanced built advances
    have log : w₄.2.1 = w₃.2.1 ++ [.stop (.ok ())] := congrArg Prod.snd added
    obtain ⟨⟨rest, silent, is⟩, ended⟩ := closing drops closed
    refine ⟨level + 1, below, ?_, fun e is => ?_, fun outcome is succeeded => ?_, fun _ is => ?_⟩
    · rw [is, log, List.filterMap_append, List.filterMap_append, silent, submitted]
      exact (List.append_nil _).trans (List.append_nil _)
    · rcases ended with ⟨_, ok⟩ | ⟨_, ok⟩ <;> cases ok.symm.trans is
    · rcases ended with ⟨answers, ok⟩ | ⟨_, ok⟩ <;> cases ok.symm.trans is
      cases succeeded
    · rcases ended with ⟨_, ok⟩ | ⟨_, ok⟩ <;> cases ok.symm.trans is

end Climbed

/-- If the committer does whatever it is asked to, a launch submits the waves of the lowest levels. -/
theorem Site.halted [ProgressNumber α] (site : Site (StateM σ) α) (c : RunConfig) {g : Graph}
    (built : g.Built) (stores : ∀ job fault, ¬ site.committer.RefusesCommit job fault)
    (drops : ∀ job fault, ¬ site.committer.RefusesDiscard job fault) (group : String)
    (world : σ) :
    ∃ levels, Halted c g group site.limits.waves levels (site.result c g group world)
      (site.events c g group world) := by
  obtain ⟨left, journal, w, ⟨level, climbed, together⟩, halt⟩ := Launch.runWaves_invariant
    (site.recorded_records c g group)
    (fun left journal w => ∃ level, Climbed c g group level journal w.1 w.2.1 ∧
      left + level = site.limits.waves)
    (fun _ _ _ _ _ _ _ _ before passes whole => by
      obtain ⟨level, climbed, together⟩ := before
      exact ⟨level + 1, climbed.passed built stores passes whole, by omega⟩)
    site.limits.waves (.start g.nodes.length) (.start, ([], world))
    ⟨0, .start c g group _, Nat.add_zero _⟩
  rw [site.result_eq]
  rcases halt with ⟨rfl, spent⟩ | ending
  · have ran : (site.recorded.launch c g group).run.act (.start, ([], world)) = _ := spent
    rw [Site.events, ran]
    -- The limit is used up, so it was no higher than the graph.
    refine ⟨level, climbed.low, climbed.submitted, by simp, by simp, fun enough _ => ?_⟩
    have low := climbed.low
    omega
  · exact climbed.halted site.limits.waves built stores drops ending

end Wavefront
