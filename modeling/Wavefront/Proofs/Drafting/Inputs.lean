import Wavefront.Proofs.Drafting.Append
set_option autoImplicit false

/-!
How an operator comes to its inputs. The only reader of an operator may go on with the draft on
which the operator stands, or take the branch out of it; what several operators read, and what has
been shuffled and is to be shuffled again, is read back.
-/
namespace Wavefront.Drafting

/-- An operator that has one reader is used up by it. -/
def UsedBy (p : Plan) (used : Nat → Prop) (inputs : List Nat) (id : Nat) : Prop :=
  used id ∨ id ∈ inputs ∧ (p.consumers id).length = 1

/-- The inputs of an operator that is not placed yet are placed, and nobody has used up those that
only this operator reads. -/
structure Awaits (p : Plan) (used : Nat → Prop) (s : State) (id : Nat) (op : PlanOp)
    (inputs : List Nat) :
    Prop where
  found : p.op? id = some op
  reads : ∀ input ∈ inputs, input ∈ op.inputs
  placed : ∀ input ∈ inputs, ∃ place, s.places.lookup input = some place
  fresh : ∀ input ∈ inputs, (p.consumers input).length = 1 → ¬ used input

/-- The draft in focus computes an operator and can go on. -/
structure Turned (p : Plan) (used : Nat → Prop) (s : State) (place : Place) (d : Draft) (id : Nat) :
    Prop where
  sound : Sound p used (some place.slot) s
  there : s.drafts[place.slot]? = some (some d)
  computes : Computes p s place.slot d id
  output : d.output = none

/-- The phase in which a draft goes on: after the shuffle only for the single reader of what is
there. -/
inductive Opens (p : Plan) (d : Draft) (id : Nat) : Phase → Prop where
  | map (empty : d.reduce = []) (before : ¬ (p.InReduce id ∧ (p.consumers id).length = 1)) :
      Opens p d id .map
  | reduce (shuffled : d.reduce ≠ []) (past : p.InReduce id) (only : (p.consumers id).length = 1) :
      Opens p d id .reduce

variable {p : Plan} {order : List Nat} {used : Nat → Prop} {s : State} {id : Nat} {op : PlanOp}

theorem usedBy_nil : UsedBy p used [] = used := by
  funext other
  simp [UsedBy]

theorem usedBy_cons_single {input : Nat} (single : (p.consumers input).length = 1)
    (rest : List Nat) :
    UsedBy p (AndUsed used input) rest = UsedBy p used (input :: rest) := by
  funext other
  refine propext ⟨?_, ?_⟩
  · rintro ((before | rfl) | ⟨member, only⟩)
    · exact .inl before
    · exact .inr ⟨List.mem_cons_self, single⟩
    · exact .inr ⟨List.mem_cons_of_mem _ member, only⟩
  · rintro (before | ⟨member, only⟩)
    · exact .inl (.inl before)
    · rcases List.mem_cons.mp member with rfl | later
      · exact .inl (.inr rfl)
      · exact .inr ⟨later, only⟩

theorem usedBy_cons_many {input : Nat} (many : (p.consumers input).length ≠ 1) (rest : List Nat) :
    UsedBy p used rest = UsedBy p used (input :: rest) := by
  funext other
  refine propext ⟨?_, ?_⟩
  · rintro (before | ⟨member, only⟩)
    · exact .inl before
    · exact .inr ⟨List.mem_cons_of_mem _ member, only⟩
  · rintro (before | ⟨member, only⟩)
    · exact .inl before
    · rcases List.mem_cons.mp member with rfl | later
      · exact absurd only many
      · exact .inr ⟨later, only⟩

theorem usedBy_single {input : Nat} (single : (p.consumers input).length = 1) :
    UsedBy p used [input] = AndUsed used input := by
  rw [← usedBy_cons_single single, usedBy_nil]

theorem usedBy_many {input : Nat} (many : (p.consumers input).length ≠ 1) :
    UsedBy p used [input] = used := by
  rw [← usedBy_cons_many many, usedBy_nil]

theorem State.inputPlace_eq {position input : Nat} {place : Place}
    (at_ : op.inputs[position]? = some input)
    (placed : s.places.lookup input = some place) : s.inputPlace op position = .ok place := by
  simp only [State.inputPlace, at_, placed]

theorem consumers_eq (validated : p.Validated order) {input : Nat} (found : p.op? id = some op)
    (reads : input ∈ op.inputs) (single : (p.consumers input).length = 1) :
    p.consumers input = [id] := by
  obtain ⟨only, same⟩ := List.length_eq_one_iff.mp single
  have member : id ∈ p.consumers input := validated.numbered.mem_consumers.mpr ⟨op, found, reads⟩
  rw [same] at member ⊢
  rw [List.mem_singleton.mp member]

/-- An operator that is read is written out if several read it, or if it is shuffled again. -/
theorem isWritten_iff (validated : p.Validated order) {input : Nat} (found : p.op? id = some op)
    (reads : input ∈ op.inputs) :
    p.IsWritten input ↔
      (p.consumers input).length ≠ 1 ∨ p.InReduce input ∧ op.kind.isShuffle = true := by
  obtain ⟨inputOp, there⟩ := validated.numbered.exists_op (validated.input_lt found reads)
  have notStore := validated.not_store_of_read found reads there
  have positive := validated.consumers_pos there notStore
  constructor
  · rintro (⟨other, found', store⟩ |
      ⟨other, found', _, many | ⟨past, consumer, reader, only, is, shuffle⟩⟩)
    · rw [there] at found'
      cases found'
      rw [notStore] at store
      cases store
    · exact .inl (by omega)
    · have single : (p.consumers input).length = 1 := by rw [only, List.length_singleton]
      have same := consumers_eq validated found reads single
      rw [only] at same
      cases same
      rw [found] at is
      cases is
      exact .inr ⟨past, shuffle⟩
  · rintro (many | ⟨past, shuffle⟩)
    · exact .inr (.of_many there notStore (by omega))
    · by_cases single : (p.consumers input).length = 1
      · exact .inr ⟨inputOp, there, notStore, .inr ⟨past, id, op,
          consumers_eq validated found reads single, found, shuffle⟩⟩
      · exact .inr (.of_many there notStore (by omega))

theorem Awaits.not_store (validated : p.Validated order) {inputs : List Nat}
    (awaits : Awaits p used s id op inputs) {input : Nat} (member : input ∈ inputs) :
    ¬ p.IsStore input := by
  rintro ⟨other, there, store⟩
  rw [validated.not_store_of_read awaits.found (awaits.reads input member) there] at store
  cases store

theorem Awaits.many (validated : p.Validated order) {inputs : List Nat}
    (awaits : Awaits p used s id op inputs) {input : Nat} (member : input ∈ inputs)
    (written : p.IsStore input ∨ 1 < (p.consumers input).length) :
    (p.consumers input).length ≠ 1 := by
  rcases written with store | several
  · exact absurd store (awaits.not_store validated member)
  · omega

/-- Where an input of an operator is held. -/
theorem Awaits.held (validated : p.Validated order) {inputs : List Nat}
    (awaits : Awaits p used s id op inputs) (sound : Sound p used none s) {input : Nat}
    (member : input ∈ inputs) :
    ∃ slot phase d, s.places.lookup input = some ⟨slot, phase⟩ ∧ s.drafts[slot]? = some (some d) ∧
      Held p used s slot d input ∧ Stands p d input phase := by
  obtain ⟨⟨slot, phase⟩, placed⟩ := awaits.placed input member
  have needed : ¬ used input ∨ p.IsWritten input := by
    by_cases single : (p.consumers input).length = 1
    · exact .inl (awaits.fresh input member single)
    · exact .inr ((isWritten_iff validated awaits.found (awaits.reads input member)).mpr
        (.inl single))
  obtain ⟨d, there, held, stands⟩ := sound.held_of_place placed needed
  exact ⟨slot, phase, d, placed, there, held, stands⟩

/-- A draft on which several operators read is closed. -/
theorem Held.isClosed {slot input : Nat} {d : Draft} (held : Held p used s slot d input)
    (there : s.drafts[slot]? = some (some d)) (notStore : ¬ p.IsStore input)
    (output : d.output ≠ none) :
    s.IsClosed slot ∧ ∃ x, p.meaning input = some x ∧ s.valueOf p slot = some x := by
  obtain ⟨x, meant, _⟩ := held.computes.value
  refine ⟨⟨d, there, ?_⟩, x, meant, by rw [State.valueOf, held.holder, Option.bind_some, meant]⟩
  rcases held.settled.cases with ⟨waits, _⟩ | ⟨temporary, _⟩ | ⟨op, _, _, _, found, kind⟩
  · exact absurd waits output
  · exact temporary
  · exact absurd ⟨op, found, by rw [kind]; rfl⟩ notStore

/-- A new draft that reads a closed one. -/
theorem Sound.readBack (sound : Sound p used none s) {slot input : Nat} (closed : s.IsClosed slot)
    {x : Dataflow} (meant : p.meaning input = some x) (value : s.valueOf p slot = some x) :
    ∃ s' place d, s.readBack slot = (s', place) ∧ s'.places = s.places ∧ place.phase = .map ∧
      d.reduce = [] ∧ Turned p used s' place d input := by
  obtain ⟨after, keeps⟩ := sound.add (Draft.reading slot)
  have below : slot < s.drafts.length := by
    obtain ⟨d, there, _⟩ := closed
    exact (List.getElem?_eq_some_iff.mp there).1
  refine ⟨_, ⟨s.drafts.length, .map⟩, Draft.reading slot, rfl, rfl, rfl, rfl, after, ?_, ?_, rfl⟩
  · simp
  · exact .reading below (keeps.closed slot closed) meant
      ((congrFun keeps.valueOf slot).trans value)

/-- Coming to the only input in order to go on with its records. -/
theorem openPlace_spec (validated : p.Validated order) {input : Nat}
    (awaits : Awaits p used s id op [input]) (only : op.inputs = [input])
    (sound : Sound p used none s)
    (again : ¬ (p.InReduce input ∧ op.kind.isShuffle = true ∧ (p.consumers input).length = 1)) :
    ∃ s' place d, s.openPlace op = .ok (s', place) ∧ s'.places = s.places ∧
      Turned p (UsedBy p used [input]) s' place d input ∧ Opens p d input place.phase := by
  obtain ⟨slot, phase, d, placed, there, held, stands⟩ :=
    awaits.held validated sound List.mem_cons_self
  have notStore := awaits.not_store validated List.mem_cons_self
  have reads := awaits.reads input List.mem_cons_self
  have found : s.inputPlace op 0 = .ok ⟨slot, phase⟩ := State.inputPlace_eq (by simp [only]) placed
  have stays (single : (p.consumers input).length = 1) :
      Sound p (UsedBy p used [input]) (some slot) s ∧ d.output = none := by
    have unwritten : ¬ p.IsWritten input := by
      rw [isWritten_iff validated awaits.found reads]
      rintro (many | ⟨past, shuffle⟩)
      · exact many single
      · exact again ⟨past, shuffle, single⟩
    rw [usedBy_single single]
    exact ⟨sound.turn placed held.holder unwritten, held.output_eq_none unwritten⟩
  cases stands with
  | map single empty before =>
    obtain ⟨turned, output⟩ := stays single
    refine ⟨s, ⟨slot, .map⟩, d, ?_, rfl, ⟨turned, there, held.computes, output⟩, .map empty ?_⟩
    · simp only [State.openPlace, found, bind, Except.bind]
      rfl
    · exact fun either => before either.1
  | reduce single shuffled past group =>
    obtain ⟨turned, output⟩ := stays single
    refine ⟨s, ⟨slot, .reduce⟩, d, ?_, rfl, ⟨turned, there, held.computes, output⟩,
      .reduce shuffled past single⟩
    simp only [State.openPlace, found, bind, Except.bind]
    rfl
  | closed written output =>
    have many := awaits.many validated List.mem_cons_self written
    obtain ⟨closed, x, meant, value⟩ := held.isClosed there notStore output
    obtain ⟨s', place, d', ran, places, inMap, empty, turned⟩ := sound.readBack closed meant value
    refine ⟨s', place, d', ?_, places, by rwa [usedBy_many many], ?_⟩
    · simp only [State.openPlace, found, bind, Except.bind, ran]
      rfl
    · rw [inMap]
      exact .map empty fun either => many either.2

end Wavefront.Drafting
