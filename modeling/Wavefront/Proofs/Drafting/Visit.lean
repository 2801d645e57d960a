import Wavefront.Proofs.Drafting.Inputs
set_option autoImplicit false

/-!
Visiting an operator. Its inputs are taken over, and a draft computes it then; only an aggregate can
be refused, and it is refused unless it has a group of its own.
-/
namespace Wavefront.Drafting

/-- The phase of a draft that an operator has just come to. -/
inductive Arrives (p : Plan) (d : Draft) (id : Nat) : Phase → Prop where
  | map (waits : d.output = none) (empty : d.reduce = []) (before : ¬ p.InReduce id)
      (reads : ¬ p.IsStore id) : Arrives p d id .map
  | reduce (waits : d.output = none) (shuffled : d.reduce ≠ []) (past : p.InReduce id)
      (group : d.endsInGroup = true ↔ p.IsGroup id) (reads : ¬ p.IsStore id) :
      Arrives p d id .reduce
  | closed {op : PlanOp} {location format : String} (found : p.op? id = some op)
      (store : op.kind = .store location format)
      (output : d.output = some (.final location format)) :
      Arrives p d id .closed

/-- The draft in focus computes the operator that is visited. -/
structure Visited (p : Plan) (used : Nat → Prop) (s : State) (place : Place) (d : Draft)
    (id : Nat) :
    Prop where
  sound : Sound p used (some place.slot) s
  there : s.drafts[place.slot]? = some (some d)
  computes : Computes p s place.slot d id
  arrives : Arrives p d id place.phase

/-- A visit succeeds and leaves a draft that computes the operator. -/
def Succeeds (p : Plan) (used : Nat → Prop) (s : State) (visit : Except Error (State × Place))
    (id : Nat) : Prop :=
  ∃ s' place d, visit = .ok (s', place) ∧ s'.places = s.places ∧ Visited p used s' place d id

variable {p : Plan} {order : List Nat} {used : Nat → Prop} {s : State} {id : Nat} {op : PlanOp}

/-- Replacing the draft in focus by one that computes another operator. -/
theorem Sound.refocus {slot : Nat} (sound : Sound p used (some slot) s) {d : Draft} (d' : Draft)
    (there : s.drafts[slot]? = some (some d)) (output : d.output = none) :
    Sound p used (some slot) (s.put slot d') ∧ Keeps s (s.put slot d') ∧
      (s.put slot d').drafts[slot]? = some (some d') := by
  have inside : slot < s.drafts.length := (List.getElem?_eq_some_iff.mp there).1
  have other : ∀ k, k ≠ slot → (s.drafts.set slot (some d'))[k]? = s.drafts[k]? :=
    fun k different => List.getElem?_set_ne different.symm
  have keeps : Keeps s (s.put slot d') := by
    refine ⟨rfl, fun k closed => ?_⟩
    have different : k ≠ slot := by
      rintro rfl
      exact State.not_isClosed there (by simp [output]) closed
    obtain ⟨content, at_, temporary⟩ := closed
    exact ⟨content, (other k different).trans at_, temporary⟩
  refine ⟨⟨?_, ?_, ?_⟩, keeps, List.getElem?_set_self inside⟩
  · intro owner place placed
    simpa only [State.put, List.length_set] using sound.inside owner place placed
  · intro k content at_ apart
    have different : k ≠ slot := fun here => apart (congrArg some here)
    obtain ⟨owner, held⟩ := sound.held k content ((other k different).symm.trans at_) apart
    exact ⟨owner, held.of_keeps keeps⟩
  · intro owner place placed needed
    obtain ⟨holder, apart, content, at_⟩ := sound.kept owner place placed needed
    have different : place.slot ≠ slot := fun here => apart (congrArg some here)
    exact ⟨holder, apart, content, (other _ different).trans at_⟩

theorem State.modify_eq {slot : Nat} {d : Draft} (there : s.drafts[slot]? = some (some d))
    (change : Draft → Draft) : s.modify slot change = .ok (s.put slot (change d)) := by
  simp only [State.modify, State.draft, there, Except.map]

theorem State.pushMap_eq {slot : Nat} {d d' : Draft} {localOp : LocalOp}
    (there : s.drafts[slot]? = some (some d)) (pushed : d.pushMap? localOp = some d') :
    s.pushMap slot localOp = .ok (s.put slot d') := by
  simp only [State.pushMap, State.draft, there, bind, Except.bind, pushed]

theorem Turned.visited {place : Place} {d d' : Draft} {input : Nat} {phase : Phase}
    (turned : Turned p used s place d input) (computes : Computes p s place.slot d' id)
    (arrives : Arrives p d' id phase) :
    Visited p used (s.put place.slot d') ⟨place.slot, phase⟩ d' id := by
  obtain ⟨sound, keeps, there⟩ := turned.sound.refocus d' turned.there turned.output
  exact ⟨sound, there, computes.of_keeps keeps, arrives⟩

theorem not_isGroup_of_kind (found : p.op? id = some op) (kind : op.kind.isGroup = false) :
    ¬ p.IsGroup id := by
  rw [p.isGroup_iff found, kind]
  exact Bool.false_ne_true

theorem not_isStore_of_kind (found : p.op? id = some op) (kind : op.kind.isStore = false) :
    ¬ p.IsStore id := by
  rw [p.isStore_iff found, kind]
  exact Bool.false_ne_true

/-- An operation on single records stays in the phase of its input. -/
theorem append_spec (validated : p.Validated order) {input : Nat}
    (awaits : Awaits p used s id op [input]) (only : op.inputs = [input])
    (sound : Sound p used none s) {r : RecordOp} (kind : op.kind = r.toOperator) :
    Succeeds p (UsedBy p used [input]) s (s.visit p op) id := by
  have appends : s.visit p op = s.append op r.toLocal := by
    rw [State.visit, kind]
    cases r <;> rfl
  have record : (RecordOp.ofOperator? op.kind).isSome = true := by simp [kind]
  have noShuffle : op.kind.isShuffle = false := by
    rw [kind]
    cases r <;> rfl
  have notStore : ¬ p.IsStore id := not_isStore_of_kind awaits.found (by
    rw [kind]
    cases r <;> rfl)
  have notGroup : ¬ p.IsGroup id := not_isGroup_of_kind awaits.found (by
    rw [kind]
    cases r <;> rfl)
  have meant : ∀ x, p.meaning input = some x → p.meaning id = some (.each r x) := by
    intro x value
    apply validated.meaning_of_input awaits.found only value
    rw [kind]
    cases r <;> rfl
  rw [appends]
  obtain ⟨s', ⟨slot, phase⟩, d, opened, places, turned, opens⟩ :=
    openPlace_spec validated awaits only sound (by simp [noShuffle])
  cases opens with
  | map empty before =>
    obtain ⟨d', pushed, computes, stillEmpty, output⟩ := turned.computes.pushMap empty r meant
    have arrives : Arrives p d' id .map := by
      refine .map (output.trans turned.output) stillEmpty (fun reduced => before ?_) notStore
      exact reduced.of_record awaits.found record only
    refine ⟨s'.put slot d', ⟨slot, .map⟩, d', ?_, places, turned.visited computes arrives⟩
    simp only [State.append, opened, bind, Except.bind, State.pushMap_eq turned.there pushed]
    rfl
  | reduce shuffled past single =>
    obtain ⟨computes, ends⟩ := turned.computes.pushReduce shuffled r meant
    have arrives : Arrives p (d.pushReduce r.toLocal) id .reduce := by
      refine .reduce turned.output (by simp [Draft.pushReduce]) ?_ ?_ notStore
      · exact .keeps awaits.found record (by simp [only]) past single
      · simp [ends, notGroup]
    refine ⟨s'.put slot (d.pushReduce r.toLocal), ⟨slot, .reduce⟩, d.pushReduce r.toLocal, ?_,
      places, turned.visited computes arrives⟩
    simp only [State.append, opened, bind, Except.bind, State.modify_eq turned.there]
    rfl

/-- The way a grouping comes to its only input: what has been shuffled is closed and read back. -/
theorem reopen_spec (validated : p.Validated order) {input : Nat}
    (awaits : Awaits p used s id op [input]) (only : op.inputs = [input])
    (sound : Sound p used none s) (shuffle : op.kind.isShuffle = true) :
    ∃ s₁ place₁ s' slot d, s.openPlace op = .ok (s₁, place₁) ∧
      (place₁.phase = .reduce ∧ (∃ s₂, s₁.close place₁.slot = .ok s₂ ∧
          s₂.readBack place₁.slot = (s', ⟨slot, .map⟩)) ∨
        place₁ = ⟨slot, .map⟩ ∧ s₁ = s') ∧
      s'.places = s.places ∧ d.reduce = [] ∧
      Turned p (UsedBy p used [input]) s' ⟨slot, .map⟩ d input := by
  by_cases again : p.InReduce input ∧ (p.consumers input).length = 1
  · obtain ⟨slot, phase, d, placed, there, held, stands⟩ :=
      awaits.held validated sound List.mem_cons_self
    have notStore := awaits.not_store validated List.mem_cons_self
    have reads := awaits.reads input List.mem_cons_self
    have cut : p.IsCut input :=
      ((isWritten_iff validated awaits.found reads).mpr
        (.inr ⟨again.1, shuffle⟩)).resolve_left notStore
    have found : s.inputPlace op 0 = .ok ⟨slot, phase⟩ :=
      State.inputPlace_eq (by simp [only]) placed
    cases stands with
    | map single empty before => exact absurd again.1 before
    | closed written output =>
      exact absurd again.2 (awaits.many validated List.mem_cons_self written)
    | reduce single shuffled past group =>
      obtain ⟨s₂, closes, after, keeps, closed, x, meant, value⟩ := sound.close placed cut
      obtain ⟨s', place, d', ran, places, inMap, empty, turned⟩ := after.readBack closed meant value
      obtain ⟨slot', phase'⟩ := place
      simp only at inMap
      subst inMap
      refine ⟨s, ⟨slot, .reduce⟩, s', slot', d', ?_, .inl ⟨rfl, s₂, closes, ran⟩,
        places.trans keeps.places, empty, ?_⟩
      · simp only [State.openPlace, found, bind, Except.bind]
        rfl
      · rwa [usedBy_single single]
  · obtain ⟨s', ⟨slot, phase⟩, d, opened, places, turned, opens⟩ :=
      openPlace_spec validated awaits only sound fun either => again ⟨either.1, either.2.2⟩
    cases opens with
    | map empty before =>
      exact ⟨s', ⟨slot, .map⟩, s', slot, d, opened, .inr ⟨rfl, rfl⟩, places, empty, turned⟩
    | reduce shuffled past single => exact absurd ⟨past, single⟩ again

/-- A grouping of one input stands behind a rearrange and a package. -/
theorem shuffleOne_spec (validated : p.Validated order) {input : Nat}
    (awaits : Awaits p used s id op [input]) (only : op.inputs = [input])
    (sound : Sound p used none s) {kind : PackageKind} {keys : List String}
    (shuffle : op.kind.isShuffle = true) (alone : Tail kind [keys] [])
    (single : ∀ ops, Dataflow.afterPackage kind 1 ops = some ops)
    (group : kind = .group ↔ op.kind.isGroup = true)
    (makes : ∀ x, Dataflow.ofOperator? op.kind [x] = some (.shuffle kind [(keys, x)])) :
    Succeeds p (UsedBy p used [input]) s (s.shuffleOne op keys kind) id := by
  have meant : ∀ x, p.meaning input = some x → p.meaning id = some (.shuffle kind [(keys, x)]) :=
    fun x value => validated.meaning_of_input awaits.found only value (makes x)
  have notStore : ¬ p.IsStore id := not_isStore_of_kind awaits.found (by
    cases is : op.kind <;> simp [is, Operator.isShuffle] at shuffle <;> rfl)
  obtain ⟨s₁, place₁, s', slot, d, opened, reopened, places, empty, turned⟩ :=
    reopen_spec validated awaits only sound shuffle
  obtain ⟨d', pushed, computes, reduce, output⟩ := turned.computes.shuffle empty alone single meant
  have inside : slot < s'.drafts.length := (List.getElem?_eq_some_iff.mp turned.there).1
  have pushes := State.pushMap_eq turned.there pushed
  have there : (s'.put slot d').drafts[slot]? = some (some d') := List.getElem?_set_self inside
  have arrives : Arrives p (d'.shuffle kind 1 keys) id .reduce := by
    refine .reduce (output.trans turned.output) (by simp [reduce])
      (.shuffles awaits.found shuffle) ?_ notStore
    have ends : (d'.shuffle kind 1 keys).endsInGroup = true ↔ kind = .group := by
      simp only [Draft.endsInGroup, reduce, List.getLast?_singleton]
      cases kind <;> simp
    rw [ends, group, p.isGroup_iff awaits.found]
  have once : (s'.put slot d').put slot (d'.shuffle kind 1 keys) =
    s'.put slot (d'.shuffle kind 1 keys) := by
    simp only [State.put, List.set_set]
  refine ⟨s'.put slot (d'.shuffle kind 1 keys), ⟨slot, .reduce⟩, d'.shuffle kind 1 keys, ?_, places,
    turned.visited computes arrives⟩
  rcases reopened with ⟨inReduce, s₂, closes, ran⟩ | ⟨rfl, rfl⟩
  · simp only [State.shuffleOne, opened, bind, Except.bind, inReduce, closes, Except.map, ran,
      pushes, State.modify_eq there, once]
    rfl
  · simp only [State.shuffleOne, opened, bind, Except.bind, pushes, State.modify_eq there, once]
    rfl

end Wavefront.Drafting
