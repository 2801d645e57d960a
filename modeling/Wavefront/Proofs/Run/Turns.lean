import Wavefront.Proofs.Run.Rounds
set_option autoImplicit false

/-!
Turns of a launch. A launch asks for a wave, takes it through a round and has it committed, or it comes
to an end: because there is no wave left, because jobs have failed, or because somebody refuses. Main
statement: these are all ways that a turn can go, with what is done on each of them.
-/
namespace Wavefront.Launch

variable {m : Type → Type} [Monad m] {W S α : Type} [Stateful m W]

/-- The end of a run: the source cleans up and some jobs report. -/
inductive Closing (l : Launch m α) (view : W → S × List Event) (asked : List JobRecord)
    (finish : List JobRecord → Outcome α) (w : W) : Except LaunchFault (Outcome α) × W → Prop where
  | uncleaned (e : Error) (w₁ : W) (cleaned : l.source.cleanup.act w = (.error e, w₁)) :
      Closing l view asked finish w (.error (.error e), w₁)
  | cleaned (w₁ w₂ : W) (reports : Except LaunchFault (List JobRecord)) (events : List Event)
      (cleaned : l.source.cleanup.act w = (.ok (), w₁)) (added : Adds view w₁ w₂ events)
      (reported : Reported asked reports events) :
      Closing l view asked finish w (reports.map finish, w₂)

/-- A wave is asked for, goes through its round and is committed. -/
structure Passes (l : Launch m α) (view : W → S × List Event) (journal journal' : Journal α)
    (round : Round) (w w₁ w₂ w₃ : W) : Prop where
  asked : (l.source.next l.graph l.group).act w = (.ok (some round.wave), w₁)
  added : Adds view w₁ w₂ round.events
  committed : (l.source.commit round.wave round.succeeded).act w₂ = (.ok (), w₃)
  waves : journal'.waves = journal.waves ++ [round.wave.jobIds]
  successful : journal'.successful = journal.successful ++ round.successful

variable {l : Launch m α} {view : W → S × List Event}

/-- Both ends of a run clean up and ask some jobs to report. -/
theorem closing_spec [LawfulMonad m] (records : l.Records view) (asked : List JobRecord)
    (finish : List JobRecord → Outcome α) (w : W) :
    Closing l view asked finish w (Step.act (do
      ofSource l.source.cleanup
      return finish (← asked.mapM l.withStats)) w) := by
  cases cleaned : l.source.cleanup.act w with
  | mk result w₁ =>
    cases result with
    | error e =>
      rw [Step.act_bind_error (by rw [ofSource_act, cleaned]; rfl)]
      exact .uncleaned e w₁ cleaned
    | ok _ =>
      rw [Step.act_bind_ok (by rw [ofSource_act, cleaned]; rfl)]
      obtain ⟨reports, w₂, events, ran, added, reported⟩ := withStats_spec records asked w₁
      have closing : Closing l view asked finish w (reports.map finish, w₂) :=
        .cleaned w₁ w₂ reports events cleaned added reported
      cases reports with
      | error fault =>
        rw [Step.act_bind_error ran]
        exact closing
      | ok answers =>
        rw [Step.act_bind_ok ran, Step.act_pure]
        exact closing

variable [ProgressNumber α]

/-- The ways a run can end at a turn. -/
inductive Ending (l : Launch m α) (view : W → S × List Event) (journal : Journal α) (w : W) :
    Except LaunchFault (Outcome α) × W → Prop where
  | stuck (e : Error) (w₁ : W)
      (asked : (l.source.next l.graph l.group).act w = (.error e, w₁)) :
      Ending l view journal w (.error (.error e), w₁)
  | exhausted (w₁ : W) (r : Except LaunchFault (Outcome α) × W)
      (asked : (l.source.next l.graph l.group).act w = (.ok none, w₁))
      (closing : Closing l view journal.successful (journal.success l.group) w₁ r) :
      Ending l view journal w r
  | brokenOff (wave : Wave) (w₁ w₂ : W) (fault : LaunchFault) (events : List Event)
      (asked : (l.source.next l.graph l.group).act w = (.ok (some wave), w₁))
      (added : Adds view w₁ w₂ events) (broken : BrokenOff wave events)
      (foreign : ∀ e, fault ≠ .error e) :
      Ending l view journal w (.error fault, w₂)
  | uncommitted (round : Round) (w₁ w₂ w₃ : W) (e : Error)
      (asked : (l.source.next l.graph l.group).act w = (.ok (some round.wave), w₁))
      (added : Adds view w₁ w₂ round.events)
      (committed : (l.source.commit round.wave round.succeeded).act w₂ = (.error e, w₃)) :
      Ending l view journal w (.error (.error e), w₃)
  | unstopped (round : Round) (journal' : Journal α) (w₁ w₂ w₃ w₄ : W) (fault : ClusterFault)
      (passes : Passes l view journal journal' round w w₁ w₂ w₃) (lost : round.failed ≠ [])
      (added : Adds view w₃ w₄ [.stop (.error fault)]) :
      Ending l view journal w (.error (.cluster fault), w₄)
  | stopped (round : Round) (journal' : Journal α) (w₁ w₂ w₃ w₄ : W)
      (r : Except LaunchFault (Outcome α) × W)
      (passes : Passes l view journal journal' round w w₁ w₂ w₃) (lost : round.failed ≠ [])
      (added : Adds view w₃ w₄ [.stop (.ok ())])
      (closing : Closing l view round.failed (journal'.failure l.group) w₄ r) :
      Ending l view journal w r

/-- The ways a turn can go. -/
inductive Turn (l : Launch m α) (view : W → S × List Event) (waves : Nat) (journal : Journal α)
    (w : W) : Except LaunchFault (Outcome α) × W → Prop where
  | passed (round : Round) (journal' : Journal α) (w₁ w₂ w₃ : W)
      (passes : Passes l view journal journal' round w w₁ w₂ w₃) (whole : round.failed = []) :
      Turn l view waves journal w ((l.runWaves waves journal').act w₃)
  | ended (r : Except LaunchFault (Outcome α) × W) (ending : Ending l view journal w r) :
      Turn l view waves journal w r

/-- Every turn goes one of these ways. -/
theorem turn_spec [LawfulMonad m] (records : l.Records view) (waves : Nat) (journal : Journal α) (w : W) :
    Turn l view waves journal w ((l.runWaves (waves + 1) journal).act w) := by
  rw [runWaves]
  cases asked : (l.source.next l.graph l.group).act w with
  | mk answer w₁ =>
    cases answer with
    | error e =>
      rw [Step.act_bind_error (by rw [ofSource_act, asked]; rfl)]
      exact .ended _ (.stuck e w₁ asked)
    | ok found =>
      have answered : (ofSource (l.source.next l.graph l.group)).act w = (.ok found, w₁) := by
        rw [ofSource_act, asked]
        rfl
      rw [Step.act_bind_ok answered]
      cases found with
      | none => exact .ended _ (.exhausted w₁ _ asked (closing_spec records journal.successful _ w₁))
      | some wave =>
        rcases runWave_spec records wave journal w₁ with
          ⟨fault, w₂, events, ran, added, broken, foreign⟩ |
            ⟨round, w₂, journal', rfl, added, waves', successful, ran⟩
        · dsimp only
          rw [Step.act_bind_error ran]
          exact .ended _ (.brokenOff wave w₁ w₂ fault events asked added broken foreign)
        · cases committed : (l.source.commit round.wave round.succeeded).act w₂ with
          | mk answer w₃ =>
            rw [committed] at ran
            cases answer with
            | error e =>
              dsimp only at ran ⊢
              rw [Step.act_bind_error ran]
              exact .ended _ (.uncommitted round w₁ w₂ w₃ e asked added committed)
            | ok _ =>
              have passes : Passes l view journal journal' round w w₁ w₂ w₃ :=
                ⟨asked, added, committed, waves', successful⟩
              dsimp only at ran ⊢
              rw [Step.act_bind_ok ran]
              dsimp only
              by_cases whole : round.failed = []
              · rw [if_pos (by simp [whole])]
                exact .passed round journal' w₁ w₂ w₃ passes whole
              · rw [if_neg (by simpa using whole)]
                have stopped := records.stop w₃
                cases answer : l.cluster.stop.act w₃ with
                | mk result w₄ =>
                  rw [answer] at stopped
                  rw [fail]
                  cases result with
                  | error fault =>
                    rw [Step.act_bind_error (by rw [ofCluster_act, answer]; rfl)]
                    exact .ended _ (.unstopped round journal' w₁ w₂ w₃ w₄ fault passes whole stopped)
                  | ok _ =>
                    rw [Step.act_bind_ok (by rw [ofCluster_act, answer]; rfl)]
                    exact .ended _ (.stopped round journal' w₁ w₂ w₃ w₄ _ passes whole stopped
                      (closing_spec records round.failed _ w₄))

/-- What holds at the start and is kept by every turn that passes holds where the run comes to its end,
or where its limits are used up. -/
theorem runWaves_invariant [LawfulMonad m] (records : l.Records view)
    (Holds : Nat → Journal α → W → Prop)
    (kept : ∀ waves journal journal' round w w₁ w₂ w₃, Holds (waves + 1) journal w →
      Passes l view journal journal' round w w₁ w₂ w₃ → round.failed = [] → Holds waves journal' w₃)
    (waves : Nat) (journal : Journal α) (w : W) (start : Holds waves journal w) :
    ∃ left journal' w', Holds left journal' w' ∧
      (left = 0 ∧ (l.runWaves waves journal).act w = (.error .unfinished, w') ∨
        Ending l view journal' w' ((l.runWaves waves journal).act w)) := by
  induction waves generalizing journal w with
  | zero => exact ⟨0, journal, w, start, .inl ⟨rfl, Step.act_throw _ w⟩⟩
  | succ waves ih =>
    have turn := turn_spec records waves journal w
    generalize (l.runWaves (waves + 1) journal).act w = r at turn ⊢
    cases turn with
    | passed round journal' w₁ w₂ w₃ passes whole =>
      exact ih journal' w₃ (kept _ _ _ _ _ _ _ _ start passes whole)
    | ended _ ending => exact ⟨waves + 1, journal, w, start, .inr ending⟩

end Wavefront.Launch
