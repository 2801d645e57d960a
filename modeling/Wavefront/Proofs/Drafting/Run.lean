import Wavefront.Proofs.Drafting.Step
set_option autoImplicit false

/-!
All operators in their order. Placing an operator after its visit keeps what holds between two
visits, so it holds in the end, unless an aggregate without a group of its own is met first.
-/
namespace Wavefront.Drafting

variable {p : Plan} {order : List Nat} {s : State} {id : Nat} {op : PlanOp}

theorem Arrives.not_closed {d : Draft} {phase : Phase} (arrives : Arrives p d id phase) :
    d.output ≠ some .temporary := by
  cases arrives with
  | map waits => simp [waits]
  | reduce waits => simp [waits]
  | closed found store output => simp [output]

theorem Arrives.stands {d : Draft} {phase : Phase} (arrives : Arrives p d id phase)
    (single : ¬ p.IsStore id → (p.consumers id).length = 1) : Stands p d id phase := by
  cases arrives with
  | map waits empty first reads => exact .map (single reads) empty first
  | reduce waits shuffled past group reads => exact .reduce (single reads) shuffled past group
  | closed found store output =>
    exact .closed (.inl ⟨_, found, by rw [store]; rfl⟩) (by simp [output])

theorem Arrives.settled {used : Nat → Prop} {d : Draft} {phase : Phase}
    (arrives : Arrives p d id phase) (fresh : ¬ used id) : Settled p used d id := by
  cases arrives with
  | map waits empty first reads =>
    simp only [Settled, waits]
    exact ⟨fresh, reads⟩
  | reduce waits shuffled past group reads =>
    simp only [Settled, waits]
    exact ⟨fresh, reads⟩
  | closed found store output =>
    simp only [Settled, output]
    exact ⟨_, found, store⟩

theorem Arrives.close_output {d : Draft} {phase : Phase} (arrives : Arrives p d id phase)
    (reads : ¬ p.IsStore id) : d.close.output = some .temporary := by
  cases arrives with
  | map waits => simp [Draft.close, waits]
  | reduce waits => simp [Draft.close, waits]
  | closed found store output => exact absurd ⟨_, found, by rw [store]; rfl⟩ reads

theorem not_taken (validated : p.Validated order) {before after : List Nat}
    (split : order = before ++ id :: after) : ¬ Taken p (before ++ [id]) id := by
  rintro ⟨_, consumer, reads, placed⟩
  apply validated.consumer_not_placed split reads
  rcases List.mem_append.mp placed with earlier | now
  · exact List.mem_cons_of_mem _ earlier
  · rw [List.mem_singleton.mp now]
    exact List.mem_cons_self

/-- An operator is placed on the draft that its visit leaves in focus. -/
theorem Visited.reached {before : List Nat} {place : Place} {d : Draft} (d' : Draft) (phase : Phase)
    (visited : Visited p (Taken p (before ++ [id])) s place d id)
    (placed : ∀ other, other ∈ before ↔ ∃ place, s.places.lookup other = some place)
    (new : id ∉ before) (computes : Computes p s place.slot d' id) (stands : Stands p d' id phase)
    (settled : Settled p (Taken p (before ++ [id])) d' id) :
    Reached p (before ++ [id])
      ⟨s.drafts.set place.slot (some d'), (id, ⟨place.slot, phase⟩) :: s.places⟩ := by
  have absent : s.places.lookup id = none := by
    cases there : s.places.lookup id with
    | none => rfl
    | some at_ => exact absurd ((placed id).mpr ⟨at_, there⟩) new
  have inside := (List.getElem?_eq_some_iff.mp visited.there).1
  have notClosed := State.not_isClosed visited.there visited.arrives.not_closed
  refine ⟨visited.sound.place inside notClosed absent computes stands settled, fun other => ?_⟩
  by_cases is : other = id
  · simp [is]
  · simp only [List.mem_append, List.mem_singleton, is, or_false, List.lookup_cons,
      beq_eq_false_iff_ne.mpr is]
    exact placed other

/-- One more operator is placed, unless it is refused for its group. -/
theorem step_spec (validated : p.Validated order) {before after : List Nat}
    (split : order = before ++ id :: after) (reached : Reached p before s)
    (found : p.op? id = some op) :
    (p.OwnsGroup op → ∃ s', State.step p s id = .ok s' ∧ Reached p (before ++ [id]) s') ∧
      (¬ p.OwnsGroup op → State.step p s id = .error (.plan (aggregateFault p op))) := by
  obtain ⟨succeeds, fails⟩ :=
    visit_spec validated (reached.awaits validated split found) reached.sound
  refine ⟨fun owned => ?_, fun foreign => ?_⟩
  · obtain ⟨s', place, d, ran, places, visited⟩ := succeeds owned
    rw [usedBy_taken validated before found] at visited
    have new : id ∉ before := fun again =>
      (List.nodup_append.mp (split ▸ validated.nodup)).2.2 id again id List.mem_cons_self rfl
    have placed : ∀ other, other ∈ before ↔ ∃ place, s'.places.lookup other = some place := by
      rw [places]
      exact reached.placed
    have isStore : p.IsStore id ↔ op.kind.isStore = true := Plan.isStore_iff found
    by_cases closes : op.kind.isStore = false ∧ 1 < (p.consumers id).length
    · -- Several others read it: its draft is closed at once.
      have closed := visited.arrives.close_output (by simp [isStore, closes.1])
      have computes : Computes p s' place.slot d.close id :=
        ⟨visited.computes.shaped, visited.computes.reads, visited.computes.value⟩
      have after := visited.reached d.close .closed placed new computes
        (.closed (.inr closes.2) (by simp [closed]))
        (by simpa only [Settled, closed] using Plan.IsCut.of_many found closes.1 closes.2)
      refine ⟨_, ?_, after⟩
      simp only [State.step, found, ran, bind, Except.bind, closes.1, closes.2, State.close,
        State.modify_eq visited.there, Bool.not_false, Bool.true_and, decide_true, ↓reduceIte]
      rfl
    · -- It is a store or has one reader: its draft stays as the visit leaves it.
      have single (reads : ¬ p.IsStore id) : (p.consumers id).length = 1 := by
        have notStore : op.kind.isStore = false := by simpa [isStore] using reads
        have positive := validated.consumers_pos found notStore
        have few : ¬ 1 < (p.consumers id).length := fun many => closes ⟨notStore, many⟩
        omega
      have after := visited.reached d place.phase placed new visited.computes
        (visited.arrives.stands single) (visited.arrives.settled (not_taken validated split))
      have put : s'.drafts = s'.drafts.set place.slot (some d) := by
        obtain ⟨inside, equal⟩ := List.getElem?_eq_some_iff.mp visited.there
        rw [← equal, List.set_getElem_self]
      refine ⟨_, ?_, after⟩
      have skip : (!op.kind.isStore && decide (1 < (p.consumers id).length)) = false := by
        simpa using closes
      simp only [State.step, found, ran, bind, Except.bind, skip, Bool.false_eq_true,
        ↓reduceIte, ← put]
      rfl
  · simp only [State.step, found, bind, Except.bind, fails foreign]

/-- From any point on, the operators that are left are placed one by one, or one is refused for its
group. -/
theorem foldlM_spec (validated : p.Validated order) {before after : List Nat}
    (split : order = before ++ after) (reached : Reached p before s) :
    (∃ s', after.foldlM (State.step p) s = .ok s' ∧ Reached p order s' ∧
      ∀ id ∈ after, ∀ op, p.op? id = some op → p.OwnsGroup op) ∨
    (∃ fault, after.foldlM (State.step p) s = .error (.plan fault) ∧
      ∃ id ∈ after, ∃ op, p.op? id = some op ∧ ¬ p.OwnsGroup op) := by
  induction after generalizing s before with
  | nil =>
    rw [List.append_nil] at split
    subst split
    exact .inl ⟨s, rfl, reached, fun _ member => by cases member⟩
  | cons id rest ih =>
    obtain ⟨op, found⟩ := validated.exists_op (show id ∈ order by simp [split])
    obtain ⟨succeeds, fails⟩ := step_spec validated split reached found
    have split' : order = (before ++ [id]) ++ rest := by simp [split]
    rw [List.foldlM_cons]
    by_cases owned : p.OwnsGroup op
    · obtain ⟨s₁, stepped, next⟩ := succeeds owned
      rw [stepped]
      rcases ih split' next with ⟨s', ran, final, others⟩ | ⟨fault, ran, other, member, foreign⟩
      · refine .inl ⟨s', ran, final, fun other member reader there => ?_⟩
        rcases List.mem_cons.mp member with rfl | later
        · rw [found] at there
          cases there
          exact owned
        · exact others other later reader there
      · exact .inr ⟨fault, ran, other, List.mem_cons_of_mem _ member, foreign⟩
    · rw [fails owned]
      exact .inr ⟨_, rfl, id, List.mem_cons_self, op, found, owned⟩

end Wavefront.Drafting
