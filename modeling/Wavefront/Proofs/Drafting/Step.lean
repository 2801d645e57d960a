import Wavefront.Proofs.Drafting.Merge
set_option autoImplicit false

/-!
One operator after the other. A visit leaves a draft that computes its operator, or refuses an
aggregate without a group of its own; placing the operator there restores what holds between two
visits.
-/
namespace Wavefront.Drafting

variable {p : Plan} {order : List Nat} {used : Nat → Prop} {s : State} {id : Nat} {op : PlanOp}

theorem load_spec (validated : p.Validated order) (found : p.op? id = some op)
    (sound : Sound p used none s) {location : String} {schema : Option Schema}
    (kind : op.kind = .load location schema) (nothing : op.inputs = []) :
    Succeeds p used s (s.visit p op) id := by
  let d : Draft := .ofBranches [⟨.file location schema, []⟩]
  obtain ⟨added, _⟩ := sound.add d
  have meant : p.meaning id = some (.load location schema) :=
    validated.meaning_of_inputs found (by rw [nothing]; exact .nil) (by rw [kind]; rfl)
  refine ⟨(s.add d).1, ⟨s.drafts.length, .map⟩, d, by rw [State.visit, kind]; rfl, rfl, added,
    by simp [State.add], ?_, ?_⟩
  · refine ⟨.mapOnly .nil, fun b member source is => ?_, _, meant, rfl⟩
    rw [List.mem_singleton.mp member] at is
    cases is
  · have before : ¬ p.InReduce id := by
      rw [Plan.inReduce_iff found, kind]
      simp [Operator.isShuffle, Operator.isAggregate, RecordOp.ofOperator?]
    exact .map rfl rfl before (not_isStore_of_kind found (by rw [kind]; rfl))

theorem store_spec (validated : p.Validated order) {input : Nat}
    (awaits : Awaits p used s id op [input]) (only : op.inputs = [input])
    (sound : Sound p used none s) {location format : String}
    (kind : op.kind = .store location format) :
    Succeeds p (UsedBy p used [input]) s (s.visit p op) id := by
  obtain ⟨s', place, d, opened, places, turned, _⟩ :=
    openPlace_spec validated awaits only sound (by simp [kind, Operator.isShuffle])
  let d' : Draft := { d with output := some (.final location format) }
  obtain ⟨x, meant, value⟩ := turned.computes.value
  have stored : p.meaning id = some x :=
    validated.meaning_of_input awaits.found only meant (by rw [kind]; rfl)
  have computes : Computes p s' place.slot d' id :=
    ⟨turned.computes.shaped, turned.computes.reads, x, stored, value⟩
  refine ⟨s'.put place.slot d', ⟨place.slot, .closed⟩, d', ?_, places,
    turned.visited computes (.closed awaits.found kind rfl)⟩
  simp only [State.visit, kind, opened, bind, Except.bind, State.modify_eq turned.there]
  rfl

theorem coGroup_spec (validated : p.Validated order) (awaits : Awaits p used s id op op.inputs)
    (sound : Sound p used none s) {keys : List (List String)} (kind : op.kind = .coGroup keys)
    (same : keys.length = op.inputs.length) :
    Succeeds p (UsedBy p used op.inputs) s (s.visit p op) id := by
  have shuffle : op.kind.isShuffle = true := by rw [kind]; rfl
  obtain ⟨s', slot, d, ran, places, focused, there, output, reduce, computes⟩ :=
    @shuffleMany_spec _ _ _ _ _ _ validated awaits sound shuffle keys .coGroup same
      fun xs => by rw [kind]; rfl
  have whole := computes [] (.coGroup .nil) rfl
  rw [List.append_nil] at whole
  refine ⟨s', ⟨slot, .reduce⟩, d, by rw [State.visit, kind]; exact ran, places, focused,
    there, whole, ?_⟩
  refine .reduce output (by simp [reduce]) (.shuffles awaits.found shuffle) ?_
    (not_isStore_of_kind awaits.found (by rw [kind]; rfl))
  have alone : ¬ p.IsGroup id := not_isGroup_of_kind awaits.found (by rw [kind]; rfl)
  simp [Draft.endsInGroup, reduce, alone]

theorem join_spec (validated : p.Validated order) (awaits : Awaits p used s id op op.inputs)
    (sound : Sound p used none s) {keys : List (List String)} {joinType : JoinType}
    (kind : op.kind = .join keys joinType) (same : keys.length = op.inputs.length) :
    Succeeds p (UsedBy p used op.inputs) s (s.visit p op) id := by
  have shuffle : op.kind.isShuffle = true := by rw [kind]; rfl
  obtain ⟨s', slot, d, ran, places, focused, there, output, _, computes⟩ :=
    @shuffleMany_spec _ _ _ _ _ _ validated awaits sound shuffle keys (.join joinType) same
      fun xs => by rw [kind]; rfl
  let d' : Draft := d.pushReduce (.flatten op.inputs.length)
  have whole : Computes p s' slot d' id :=
    computes [.flatten op.inputs.length] (same ▸ .join .nil) (by simp [Dataflow.afterPackage])
  obtain ⟨after, keeps, there'⟩ := focused.refocus d' there output
  have arrives : Arrives p d' id .reduce := by
    refine .reduce output (by simp [d', Draft.pushReduce]) (.shuffles awaits.found shuffle) ?_
      (not_isStore_of_kind awaits.found (by rw [kind]; rfl))
    have alone : ¬ p.IsGroup id := not_isGroup_of_kind awaits.found (by rw [kind]; rfl)
    simp [d', Draft.endsInGroup, Draft.pushReduce, alone]
  refine ⟨s'.put slot d', ⟨slot, .reduce⟩, d', ?_, places, after, there',
    whole.of_keeps keeps, arrives⟩
  simp only [State.visit, kind, ran, bind, Except.bind, State.modify_eq there]
  rfl

/-- Calls are placed if the group they work on is read by nobody else, and refused otherwise. -/
theorem aggregate_spec (validated : p.Validated order) {input : Nat}
    (awaits : Awaits p used s id op [input]) (only : op.inputs = [input])
    (sound : Sound p used none s) {calls : List AggregateCall} (kind : op.kind = .aggregate calls) :
    (p.OwnsGroup op → Succeeds p (UsedBy p used [input]) s (s.visit p op) id) ∧
      (¬ p.OwnsGroup op → s.visit p op = .error (.plan (aggregateFault p op))) := by
  obtain ⟨slot, phase, d, placed, there, held, stands⟩ :=
    awaits.held validated sound List.mem_cons_self
  have found : s.inputPlace op 0 = .ok ⟨slot, phase⟩ := State.inputPlace_eq (by simp [only]) placed
  have draft : s.draft slot = .ok d := by simp only [State.draft, there]
  have owns : p.OwnsGroup op ↔ p.IsGroup input ∧ (p.consumers input).length = 1 := by
    simp only [Plan.OwnsGroup, kind, Operator.isAggregate, forall_const, only,
      List.cons.injEq, and_true]
    constructor
    · rintro ⟨_, rfl, both⟩
      exact both
    · intro both
      exact ⟨input, rfl, both⟩
  by_cases fits : phase = .reduce ∧ d.endsInGroup = true
  · obtain ⟨rfl, ends⟩ := fits
    cases stands with
    | reduce single shuffled past group =>
      refine ⟨fun _ => ?_, fun not => absurd (owns.mpr ⟨group.mp ends, single⟩) not⟩
      let d' : Draft := d.pushReduce (.aggregate d.groupKeys calls .full)
      have unwritten : ¬ p.IsWritten input := by
        rw [isWritten_iff validated awaits.found (awaits.reads input List.mem_cons_self)]
        simp [single, kind, Operator.isShuffle]
      have turned : Turned p (UsedBy p used [input]) s ⟨slot, .reduce⟩ d input := by
        refine ⟨?_, there, held.computes, held.output_eq_none unwritten⟩
        rw [usedBy_single single]
        exact sound.turn placed held.holder unwritten
      have computes : Computes p s slot d' id :=
        held.computes.aggregate ends calls fun keys x value =>
          validated.meaning_of_input awaits.found only value (by rw [kind]; rfl)
      have arrives : Arrives p d' id .reduce := by
        refine .reduce turned.output (by simp [d', Draft.pushReduce])
          (.aggregates awaits.found (by rw [kind]; rfl)) ?_
          (not_isStore_of_kind awaits.found (by rw [kind]; rfl))
        have alone : ¬ p.IsGroup id := not_isGroup_of_kind awaits.found (by rw [kind]; rfl)
        simp [d', Draft.endsInGroup, Draft.pushReduce, alone]
      refine ⟨s.put slot d', ⟨slot, .reduce⟩, d', ?_, rfl, turned.visited computes arrives⟩
      simp only [State.visit, kind, State.aggregate, found, bind, Except.bind, draft, ends,
        and_self, ↓reduceIte]
      rfl
  · have foreign : ¬ p.OwnsGroup op := by
      rw [owns]
      rintro ⟨group, single⟩
      cases stands with
      | map _ empty before => exact before group.inReduce
      | reduce _ shuffled past ends => exact fits ⟨rfl, ends.mpr group⟩
      | closed written output =>
        exact awaits.many validated List.mem_cons_self written single
    refine ⟨fun owned => absurd owned foreign, fun _ => ?_⟩
    simp only [State.visit, kind, State.aggregate, found, bind, Except.bind, draft,
      fits, ↓reduceIte]
    rfl

/-- A visit succeeds unless it is refused for the group of an aggregate. -/
theorem visit_spec (validated : p.Validated order) (awaits : Awaits p used s id op op.inputs)
    (sound : Sound p used none s) :
    (p.OwnsGroup op → Succeeds p (UsedBy p used op.inputs) s (s.visit p op) id) ∧
      (¬ p.OwnsGroup op → s.visit p op = .error (.plan (aggregateFault p op))) := by
  have free (other : op.kind.isAggregate = false)
      (succeeds : Succeeds p (UsedBy p used op.inputs) s (s.visit p op) id) :
      (p.OwnsGroup op → Succeeds p (UsedBy p used op.inputs) s (s.visit p op) id) ∧
        (¬ p.OwnsGroup op → s.visit p op = .error (.plan (aggregateFault p op))) := by
    have owned : p.OwnsGroup op := fun is => absurd is (by simp [other])
    exact ⟨fun _ => succeeds, fun foreign => absurd owned foreign⟩
  -- Operators of one input come first: for them the inputs are a list of one element.
  by_cases single : op.kind.admits 1 = true
  · obtain ⟨input, only⟩ := validated.one_input awaits.found single
    have waits : Awaits p used s id op [input] := only ▸ awaits
    rw [only] at free ⊢
    cases kind : op.kind with
    | load location schema | coGroup keys | join keys joinType =>
      simp [kind, Operator.admits] at single
    | aggregate calls => exact aggregate_spec validated waits only sound kind
    | store location format =>
      exact free (by rw [kind]; rfl) (store_spec validated waits only sound kind)
    | group keys =>
      apply free (by rw [kind]; rfl)
      rw [State.visit, kind]
      refine shuffleOne_spec validated waits only sound (by rw [kind]; rfl) (.group .nil)
        (fun _ => rfl) ?_ ?_
      · simp [kind, Operator.isGroup]
      · exact fun x => by rw [kind]; rfl
    | distinct =>
      apply free (by rw [kind]; rfl)
      rw [State.visit, kind]
      refine shuffleOne_spec validated waits only sound (by rw [kind]; rfl) (.distinct .nil)
        (fun _ => rfl) ?_ ?_
      · simp [kind, Operator.isGroup]
      · exact fun x => by rw [kind]; rfl
    | filter predicate =>
      exact free (by rw [kind]; rfl)
        (append_spec validated waits only sound (r := .filter predicate) kind)
    | project columns =>
      exact free (by rw [kind]; rfl)
        (append_spec validated waits only sound (r := .project columns) kind)
    | stream command outputSchema =>
      exact free (by rw [kind]; rfl)
        (append_spec validated waits only sound (r := .stream command outputSchema) kind)
    | limit n =>
      exact free (by rw [kind]; rfl) (append_spec validated waits only sound (r := .limit n) kind)
  · cases kind : op.kind with
    | load location schema =>
      have nothing := validated.no_input awaits.found (by rw [kind]; rfl)
      apply free (by rw [kind]; rfl)
      rw [nothing, usedBy_nil]
      exact load_spec validated awaits.found sound kind nothing
    | coGroup keys =>
      have fit := validated.keysFit awaits.found (show op.kind.keyLists? = some keys by rw [kind]; rfl)
      exact free (by rw [kind]; rfl) (coGroup_spec validated awaits sound kind fit.count)
    | join keys joinType =>
      have fit := validated.keysFit awaits.found (show op.kind.keyLists? = some keys by rw [kind]; rfl)
      exact free (by rw [kind]; rfl) (join_spec validated awaits sound kind fit.count)
    | _ => simp [kind, Operator.admits] at single

/-- An operator that has a single reader is taken once that is placed. -/
def Taken (p : Plan) (before : List Nat) (id : Nat) : Prop :=
  (p.consumers id).length = 1 ∧ ∃ consumer ∈ p.consumers id, consumer ∈ before

/-- What holds between two visits, after some operators. -/
structure Reached (p : Plan) (before : List Nat) (s : State) : Prop where
  sound : Sound p (Taken p before) none s
  placed : ∀ id, id ∈ before ↔ ∃ place, s.places.lookup id = some place

theorem start_reached (p : Plan) : Reached p [] State.start where
  sound := by
    refine ⟨?_, ?_, ?_⟩ <;> intro _ _ there <;> simp [State.start] at there
  placed id := by simp [State.start]

/-- An operator whose turn it is finds its inputs. -/
theorem Reached.awaits (validated : p.Validated order) {before after : List Nat}
    (split : order = before ++ id :: after) (reached : Reached p before s)
    (found : p.op? id = some op) :
    Awaits p (Taken p before) s id op op.inputs where
  found := found
  reads _ member := member
  placed input member := (reached.placed input).mp (validated.input_before split found member)
  fresh input member single := by
    rintro ⟨_, consumer, reads, placed⟩
    rw [consumers_eq validated found member single, List.mem_singleton] at reads
    have distinct : (before ++ id :: after).Nodup := split ▸ validated.nodup
    exact (List.nodup_append.mp distinct).2.2 id (reads ▸ placed) id List.mem_cons_self rfl

/-- The operators taken after a visit are those its operator is the reader of, and those before. -/
theorem usedBy_taken (validated : p.Validated order) (before : List Nat)
    (found : p.op? id = some op) :
    UsedBy p (Taken p before) op.inputs = Taken p (before ++ [id]) := by
  funext other
  refine propext ⟨?_, ?_⟩
  · rintro (⟨single, consumer, reads, placed⟩ | ⟨member, single⟩)
    · exact ⟨single, consumer, reads, List.mem_append_left _ placed⟩
    · exact ⟨single, id, validated.numbered.mem_consumers.mpr ⟨op, found, member⟩, by simp⟩
  · rintro ⟨single, consumer, reads, placed⟩
    rcases List.mem_append.mp placed with earlier | now
    · exact .inl ⟨single, consumer, reads, earlier⟩
    · rw [List.mem_singleton.mp now] at reads
      obtain ⟨reader, there, member⟩ := validated.numbered.mem_consumers.mp reads
      rw [found] at there
      cases there
      exact .inr ⟨member, single⟩

end Wavefront.Drafting
