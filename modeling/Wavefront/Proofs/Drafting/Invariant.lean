import Wavefront.Drafting.Placement
import Wavefront.Proofs.Dataflow.Meaning
import Wavefront.Proofs.Graph.Shape
import Wavefront.Proofs.Plan.Cut
set_option autoImplicit false

/-!
What holds while a plan is drafted. A draft holds the records of the operator that was placed on it
last: it has the shape of a job, it reads drafts that are closed, and it computes what that operator
computes. An operator stays held until its only reader has taken its records over, and for good if
they are written out.
-/
namespace Wavefront.Drafting

/-- The operator whose records a draft holds, which is the last one placed there. -/
def State.holder? (s : State) (slot : Nat) : Option Nat :=
  (s.places.find? fun e => e.2.slot == slot).map Prod.fst

def State.valueOf (s : State) (p : Plan) (slot : Nat) : Option Dataflow :=
  (s.holder? slot).bind p.meaning

/-- What a branch starts with, given what is read from each draft. -/
def DraftSource.meaning (outputs : Nat → Option Dataflow) : DraftSource → Option Dataflow
  | .file location schema => some (.load location schema)
  | .draft slot => outputs slot

/-- What a draft computes, given what is read from each draft. -/
def Draft.meaning (outputs : Nat → Option Dataflow) (d : Draft) : Option Dataflow :=
  Dataflow.ofPhases (d.map.map fun b => (b.source.meaning outputs, b.ops)) d.reduce

/-- A draft that others read back. -/
def State.IsClosed (s : State) (slot : Nat) : Prop :=
  ∃ d, s.drafts[slot]? = some (some d) ∧ d.output = some .temporary

/-- A draft computes what an operator computes. -/
structure Computes (p : Plan) (s : State) (slot : Nat) (d : Draft) (id : Nat) : Prop where
  shaped : Shaped (d.map.map DraftBranch.ops) d.reduce d.groupKeys
  reads : ∀ b ∈ d.map, ∀ source, b.source = .draft source → source < slot ∧ s.IsClosed source
  value : ∃ x, p.meaning id = some x ∧ d.meaning (s.valueOf p) = some x

/-- The phase of a draft in which the records of an operator are. -/
inductive Stands (p : Plan) (d : Draft) (id : Nat) : Phase → Prop where
  | map (only : (p.consumers id).length = 1) (empty : d.reduce = []) (before : ¬ p.InReduce id) :
      Stands p d id .map
  | reduce (only : (p.consumers id).length = 1) (shuffled : d.reduce ≠ []) (past : p.InReduce id)
      (group : d.endsInGroup = true ↔ p.IsGroup id) : Stands p d id .reduce
  | closed (written : p.IsStore id ∨ 1 < (p.consumers id).length) (output : d.output ≠ none) :
      Stands p d id .closed

/-- The output of a draft fits the operator whose records it holds. -/
def Settled (p : Plan) (used : Nat → Prop) (d : Draft) (id : Nat) : Prop :=
  match d.output with
  | none => ¬ used id ∧ ¬ p.IsStore id
  | some .temporary => p.IsCut id
  | some (.final location format) => ∃ op, p.op? id = some op ∧ op.kind = .store location format

/-- The draft in a slot holds the records of an operator. -/
structure Held (p : Plan) (used : Nat → Prop) (s : State) (slot : Nat) (d : Draft)
    (id : Nat) : Prop where
  holder : s.holder? slot = some id
  placed : ∃ phase, s.places.lookup id = some ⟨slot, phase⟩ ∧ Stands p d id phase
  computes : Computes p s slot d id
  settled : Settled p used d id

/-- All drafts but the one in focus hold the records of some operator, and the operators that are
not used up or are written out are held by the drafts on which they were placed. -/
structure Sound (p : Plan) (used : Nat → Prop) (focus : Option Nat) (s : State) : Prop where
  inside : ∀ id place, s.places.lookup id = some place → place.slot < s.drafts.length
  held : ∀ slot d, s.drafts[slot]? = some (some d) → some slot ≠ focus →
    ∃ id, Held p used s slot d id
  kept : ∀ id place, s.places.lookup id = some place → ¬ used id ∨ p.IsWritten id →
    s.holder? place.slot = some id ∧ some place.slot ≠ focus ∧
      ∃ d, s.drafts[place.slot]? = some (some d)

/-- A change of the drafts that leaves what is read back as it is. -/
structure Keeps (s s' : State) : Prop where
  places : s'.places = s.places
  closed : ∀ slot, s.IsClosed slot → s'.IsClosed slot

/-- One more operator is used up. -/
def AndUsed (used : Nat → Prop) (id other : Nat) : Prop := used other ∨ other = id

variable {p : Plan} {used : Nat → Prop} {s s' : State}

theorem Keeps.refl (s : State) : Keeps s s := ⟨rfl, fun _ closed => closed⟩

theorem Keeps.trans {s'' : State} (first : Keeps s s') (second : Keeps s' s'') : Keeps s s'' :=
  ⟨second.places.trans first.places, fun slot closed =>
    second.closed slot (first.closed slot closed)⟩

theorem Keeps.holder? (keeps : Keeps s s') (slot : Nat) : s'.holder? slot = s.holder? slot := by
  simp only [State.holder?, keeps.places]

theorem Keeps.valueOf (keeps : Keeps s s') : s'.valueOf p = s.valueOf p := by
  funext slot
  simp only [State.valueOf, keeps.holder?]

theorem DraftSource.meaning_congr {source : DraftSource} {f g : Nat → Option Dataflow}
    (same : ∀ slot, source = .draft slot → f slot = g slot) :
    source.meaning f = source.meaning g := by
  cases source with
  | file location schema => rfl
  | draft slot => exact same slot rfl

theorem Draft.meaning_congr {d : Draft} {f g : Nat → Option Dataflow}
    (same : ∀ b ∈ d.map, ∀ slot, b.source = .draft slot → f slot = g slot) :
    d.meaning f = d.meaning g := by
  have starts : (d.map.map fun b => (b.source.meaning f, b.ops)) =
      d.map.map fun b => (b.source.meaning g, b.ops) := by
    apply List.map_congr_left
    intro b member
    rw [DraftSource.meaning_congr (same b member)]
  simp only [Draft.meaning, starts]

/-- What a draft computes depends on closed drafts only. -/
theorem Computes.transport {slot id : Nat} {d : Draft} (computes : Computes p s slot d id)
    (closed : ∀ source, s.IsClosed source → s'.IsClosed source)
    (values : ∀ source, s.IsClosed source → s'.valueOf p source = s.valueOf p source) :
    Computes p s' slot d id where
  shaped := computes.shaped
  reads b member source is := ⟨(computes.reads b member source is).1,
    closed source (computes.reads b member source is).2⟩
  value := by
    obtain ⟨x, meant, computed⟩ := computes.value
    refine ⟨x, meant, computed ▸ Draft.meaning_congr fun b member source is => ?_⟩
    exact values source (computes.reads b member source is).2

theorem Computes.of_keeps {slot id : Nat} {d : Draft} (computes : Computes p s slot d id)
    (keeps : Keeps s s') : Computes p s' slot d id :=
  computes.transport keeps.closed fun _ _ => congrFun keeps.valueOf _

theorem Held.of_keeps {slot id : Nat} {d : Draft} (held : Held p used s slot d id)
    (keeps : Keeps s s') :
    Held p used s' slot d id where
  holder := (keeps.holder? slot).trans held.holder
  placed := by simpa only [keeps.places] using held.placed
  computes := held.computes.of_keeps keeps
  settled := held.settled

/-- A draft waits for its output, is read back, or writes a result. -/
theorem Settled.cases {d : Draft} {id : Nat} (settled : Settled p used d id) :
    (d.output = none ∧ ¬ used id ∧ ¬ p.IsStore id) ∨ (d.output = some .temporary ∧ p.IsCut id) ∨
      ∃ op location format, d.output = some (.final location format) ∧ p.op? id = some op ∧
        op.kind = .store location format := by
  unfold Settled at settled
  cases output : d.output with
  | none =>
    rw [output] at settled
    exact .inl ⟨rfl, settled⟩
  | some o =>
    cases o with
    | temporary =>
      rw [output] at settled
      exact .inr (.inl ⟨rfl, settled⟩)
    | final location format =>
      rw [output] at settled
      obtain ⟨op, found, kind⟩ := settled
      exact .inr (.inr ⟨op, location, format, rfl, found, kind⟩)

theorem Settled.mono {used' : Nat → Prop} {d : Draft} {id : Nat} (settled : Settled p used d id)
    (still : ¬ used id → ¬ used' id) : Settled p used' d id := by
  unfold Settled
  rcases settled.cases with ⟨output, fresh, reads⟩ | ⟨output, cut⟩ | ⟨op, _, _, output, found, kind⟩
  · rw [output]
    exact ⟨still fresh, reads⟩
  · rw [output]
    exact cut
  · rw [output]
    exact ⟨op, found, kind⟩

/-- Where an operator is held. -/
theorem Sound.held_of_place {focus : Option Nat} (sound : Sound p used focus s) {id slot : Nat}
    {phase : Phase} (placed : s.places.lookup id = some ⟨slot, phase⟩)
    (needed : ¬ used id ∨ p.IsWritten id) :
    ∃ d, s.drafts[slot]? = some (some d) ∧ Held p used s slot d id ∧ Stands p d id phase := by
  obtain ⟨holder, apart, d, there⟩ := sound.kept id _ placed needed
  obtain ⟨other, held⟩ := sound.held slot d there apart
  obtain rfl : id = other := Option.some.inj (holder.symm.trans held.holder)
  obtain ⟨otherPhase, place, stands⟩ := held.placed
  rw [placed] at place
  cases place
  exact ⟨d, there, held, stands⟩

theorem Held.slot_eq {slot other id : Nat} {d : Draft} {phase : Phase}
    (held : Held p used s slot d id)
    (placed : s.places.lookup id = some ⟨other, phase⟩) : slot = other := by
  obtain ⟨_, place, _⟩ := held.placed
  rw [placed] at place
  cases place
  rfl

theorem Held.andUsed {slot id other : Nat} {d : Draft} (held : Held p used s slot d other)
    (different : other ≠ id) : Held p (AndUsed used id) s slot d other where
  holder := held.holder
  placed := held.placed
  computes := held.computes
  settled := held.settled.mono fun fresh either => either.elim fresh different

/-- Changing the draft of an operator in step with its use. -/
theorem Sound.update (sound : Sound p used none s) {slot id : Nat} {phase : Phase}
    (placed : s.places.lookup id = some ⟨slot, phase⟩) (holder : s.holder? slot = some id)
    (content : Option Draft)
    (closed : s.IsClosed slot → ∃ d, content = some d ∧ d.output = some .temporary)
    (held : ∀ d, content = some d → Held p (AndUsed used id) s slot d id)
    (gone : content = none → ¬ p.IsWritten id) :
    Sound p (AndUsed used id) none { s with drafts := s.drafts.set slot content } ∧
      Keeps s { s with drafts := s.drafts.set slot content } := by
  have inside : slot < s.drafts.length := sound.inside id _ placed
  have same : (s.drafts.set slot content)[slot]? = some content := List.getElem?_set_self inside
  have other : ∀ k, k ≠ slot → (s.drafts.set slot content)[k]? = s.drafts[k]? :=
    fun k different => List.getElem?_set_ne different.symm
  have keeps : Keeps s { s with drafts := s.drafts.set slot content } := by
    refine ⟨rfl, fun k isClosed => ?_⟩
    by_cases here : k = slot
    · subst here
      obtain ⟨d, rfl, output⟩ := closed isClosed
      exact ⟨d, same, output⟩
    · obtain ⟨d, there, output⟩ := isClosed
      exact ⟨d, (other k here).trans there, output⟩
  refine ⟨⟨?_, ?_, ?_⟩, keeps⟩
  · intro owner place at_
    simpa only [List.length_set] using sound.inside owner place at_
  · intro k d there _
    by_cases here : k = slot
    · subst here
      exact ⟨id, (held d (Option.some.inj (same.symm.trans there))).of_keeps keeps⟩
    · obtain ⟨owner, old⟩ := sound.held k d ((other k here).symm.trans there) (by simp)
      have different : owner ≠ id := by
        rintro rfl
        exact here (old.slot_eq placed)
      exact ⟨owner, (old.andUsed different).of_keeps keeps⟩
  · intro owner place at_ needed
    have before : ¬ used owner ∨ p.IsWritten owner :=
      needed.imp_left fun fresh old => fresh (.inl old)
    obtain ⟨holds, _, d, there⟩ := sound.kept owner place at_ before
    refine ⟨holds, by simp, ?_⟩
    by_cases here : place.slot = slot
    · rw [here] at holds
      obtain rfl : owner = id := Option.some.inj (holds.symm.trans holder)
      cases content with
      | some d => exact ⟨d, here ▸ same⟩
      | none =>
        rcases needed with fresh | written
        · exact absurd (.inr rfl) fresh
        · exact absurd written (gone rfl)
    · exact ⟨d, (other _ here).trans there⟩

/-- Closing the draft of an operator that is written out for others. -/
theorem Sound.close (sound : Sound p used none s) {slot id : Nat} {phase : Phase}
    (placed : s.places.lookup id = some ⟨slot, phase⟩) (cut : p.IsCut id) :
    ∃ s', s.close slot = .ok s' ∧ Sound p (AndUsed used id) none s' ∧ Keeps s s' ∧
      s'.IsClosed slot ∧
      ∃ x, p.meaning id = some x ∧ s'.valueOf p slot = some x := by
  obtain ⟨d, there, held, _⟩ := sound.held_of_place placed (.inr (.inr cut))
  have output : d.close.output = some .temporary := by
    rcases held.settled.cases with ⟨was, _⟩ | ⟨was, _⟩ | ⟨op, _, _, _, found, kind⟩
    · simp only [Draft.close, was, Option.getD_none]
    · simp only [Draft.close, was, Option.getD_some]
    · exact absurd ⟨op, found, by rw [kind]; rfl⟩ cut.not_store
  have closes : ∀ d', some d.close = some d' → Held p (AndUsed used id) s slot d' id := by
    rintro d' same
    cases same
    obtain ⟨_, place, stands⟩ := held.placed
    refine ⟨held.holder, ⟨_, place, ?_⟩,
      ⟨held.computes.shaped, held.computes.reads, held.computes.value⟩, ?_⟩
    · cases stands with
      | map only empty before => exact .map only empty before
      | reduce only shuffled past group => exact .reduce only shuffled past group
      | closed written was => exact .closed written (by simp [output])
    · simpa only [Settled, output] using cut
  obtain ⟨after, keeps⟩ := sound.update placed held.holder (some d.close)
    (fun _ => ⟨_, rfl, output⟩) closes (by simp)
  obtain ⟨x, meant, _⟩ := held.computes.value
  refine ⟨_, ?_, after, keeps, ⟨d.close, ?_, output⟩, x, meant, ?_⟩
  · simp only [State.close, State.modify, State.draft, there, Except.map]
    rfl
  · exact List.getElem?_set_self (sound.inside id _ placed)
  · rw [keeps.valueOf, State.valueOf, held.holder, Option.bind_some, meant]

/-- A branch computes what an operator computes. -/
structure BranchComputes (p : Plan) (s : State) (b : DraftBranch) (id : Nat) : Prop where
  records : Records b.ops
  reads : ∀ source, b.source = .draft source → s.IsClosed source
  value : ∃ start x, b.source.meaning (s.valueOf p) = some start ∧
    Dataflow.throughRecords start b.ops = some x ∧ p.meaning id = some x

theorem BranchComputes.of_keeps {b : DraftBranch} {id : Nat} (computes : BranchComputes p s b id)
    (keeps : Keeps s s') : BranchComputes p s' b id where
  records := computes.records
  reads source is := keeps.closed source (computes.reads source is)
  value := by simpa only [keeps.valueOf] using computes.value

/-- A draft before its shuffle has one branch, which computes all that the draft computes. -/
theorem Computes.one_branch {slot id : Nat} {d : Draft} (computes : Computes p s slot d id)
    (empty : d.reduce = []) : ∃ b, d.map = [b] ∧ BranchComputes p s b id := by
  have shaped := computes.shaped
  rw [empty] at shaped
  obtain ⟨ops, same, records⟩ := shaped.one_branch
  obtain ⟨b, only, rfl⟩ : ∃ b, d.map = [b] ∧ b.ops = ops := by
    simpa only [List.map_eq_singleton_iff] using same
  obtain ⟨x, meant, value⟩ := computes.value
  simp only [Draft.meaning, only, empty, List.map_cons, List.map_nil, Dataflow.ofPhases] at value
  obtain ⟨start, begins, through⟩ := Option.bind_eq_some_iff.mp value
  refine ⟨b, only, records, ?_, start, x, begins, through, meant⟩
  intro source is
  exact (computes.reads b (by simp [only]) source is).2

theorem Held.output_eq_none {slot id : Nat} {d : Draft} (held : Held p used s slot d id)
    (unwritten : ¬ p.IsWritten id) : d.output = none := by
  rcases held.settled.cases with ⟨output, _⟩ | ⟨_, cut⟩ | ⟨op, _, _, _, found, kind⟩
  · exact output
  · exact absurd (.inr cut) unwritten
  · exact absurd (.inl ⟨op, found, by rw [kind]; rfl⟩) unwritten

theorem State.not_isClosed {slot : Nat} {d : Draft} (there : s.drafts[slot]? = some (some d))
    (output : d.output ≠ some .temporary) : ¬ s.IsClosed slot := by
  rintro ⟨other, same, closed⟩
  rw [there] at same
  cases same
  exact output closed

/-- Taking the branch of an operator out of its draft. -/
theorem Sound.take (sound : Sound p used none s) {slot id : Nat}
    (placed : s.places.lookup id = some ⟨slot, .map⟩) (fresh : ¬ used id)
    (unwritten : ¬ p.IsWritten id) :
    ∃ s' b, s.takeBranch slot = .ok (s', b) ∧ Sound p (AndUsed used id) none s' ∧ Keeps s s' ∧
      BranchComputes p s b id := by
  obtain ⟨d, there, held, stands⟩ := sound.held_of_place placed (.inl fresh)
  have output := held.output_eq_none unwritten
  cases stands with
  | map only empty before =>
    obtain ⟨b, branches, computes⟩ := held.computes.one_branch empty
    have notClosed : ¬ s.IsClosed slot := State.not_isClosed there (by simp [output])
    obtain ⟨after, keeps⟩ := sound.update placed held.holder none
      (fun closed => absurd closed notClosed) (by simp) (fun _ => unwritten)
    refine ⟨_, b, ?_, after, keeps, computes⟩
    obtain ⟨map, reduce, result, keys⟩ := d
    simp only at branches
    subst branches
    simp only [State.takeBranch, there]

/-- Turning to the draft of an operator in order to change it. -/
theorem Sound.turn (sound : Sound p used none s) {slot id : Nat} {phase : Phase}
    (placed : s.places.lookup id = some ⟨slot, phase⟩) (holder : s.holder? slot = some id)
    (unwritten : ¬ p.IsWritten id) : Sound p (AndUsed used id) (some slot) s where
  inside := sound.inside
  held k d there apart := by
    obtain ⟨owner, old⟩ := sound.held k d there (by simp)
    refine ⟨owner, old.andUsed ?_⟩
    rintro rfl
    exact apart (congrArg some (old.slot_eq placed))
  kept owner place at_ needed := by
    have before : ¬ used owner ∨ p.IsWritten owner :=
      needed.imp_left fun fresh old => fresh (.inl old)
    obtain ⟨holds, _, d, there⟩ := sound.kept owner place at_ before
    refine ⟨holds, ?_, d, there⟩
    intro here
    rw [Option.some.inj here, holder] at holds
    cases holds
    rcases needed with fresh | written
    · exact fresh (.inr rfl)
    · exact unwritten written

/-- Turning to a new draft. -/
theorem Sound.add (sound : Sound p used none s) (d : Draft) :
    Sound p used (some s.drafts.length) (s.add d).1 ∧ Keeps s (s.add d).1 := by
  have old : ∀ {k : Nat} {content : Option Draft}, s.drafts[k]? = some content →
      (s.drafts ++ [some d])[k]? = some content := by
    intro k content there
    rw [List.getElem?_append_left (List.getElem?_eq_some_iff.mp there).1, there]
  have keeps : Keeps s (s.add d).1 :=
    ⟨rfl, fun k ⟨other, there, output⟩ => ⟨other, old there, output⟩⟩
  refine ⟨⟨?_, ?_, ?_⟩, keeps⟩
  · intro id place placed
    have inside := sound.inside id place placed
    simp only [State.add, List.length_append, List.length_singleton]
    omega
  · intro k other there apart
    have inside : k < s.drafts.length := by
      have bound := (List.getElem?_eq_some_iff.mp there).1
      simp only [State.add, List.length_append, List.length_singleton] at bound
      have different : k ≠ s.drafts.length := fun same => apart (congrArg some same)
      omega
    simp only [State.add, List.getElem?_append_left inside] at there
    obtain ⟨id, held⟩ := sound.held k other there (by simp)
    exact ⟨id, held.of_keeps keeps⟩
  · intro id place placed needed
    obtain ⟨holder, _, other, there⟩ := sound.kept id place placed needed
    have inside := sound.inside id place placed
    refine ⟨holder, ?_, other, old there⟩
    intro same
    have := Option.some.inj same
    omega

/-- A draft that reads a closed one computes what is read there. -/
theorem Computes.reading {slot source id : Nat} (below : source < slot) (closed : s.IsClosed source)
    {x : Dataflow} (meant : p.meaning id = some x) (value : s.valueOf p source = some x) :
    Computes p s slot (Draft.reading source) id where
  shaped := .mapOnly .nil
  reads b member k is := by
    rw [List.mem_singleton.mp member] at is
    cases is
    exact ⟨below, closed⟩
  value := ⟨x, meant, by
    simp [Draft.meaning, Draft.reading, Draft.ofBranches, Dataflow.ofPhases,
      DraftSource.meaning, value, Dataflow.throughRecords]⟩

/-- Placing an operator on the draft in focus. -/
theorem Sound.place {slot id : Nat} (sound : Sound p used (some slot) s)
    (inside : slot < s.drafts.length) (notClosed : ¬ s.IsClosed slot)
    (new : s.places.lookup id = none) {d : Draft} {phase : Phase}
    (computes : Computes p s slot d id) (stands : Stands p d id phase)
    (settled : Settled p used d id) :
    Sound p used none ⟨s.drafts.set slot (some d), (id, ⟨slot, phase⟩) :: s.places⟩ := by
  have same : (s.drafts.set slot (some d))[slot]? = some (some d) := List.getElem?_set_self inside
  have other : ∀ k, k ≠ slot → (s.drafts.set slot (some d))[k]? = s.drafts[k]? :=
    fun k different => List.getElem?_set_ne different.symm
  let after : State := ⟨s.drafts.set slot (some d), (id, ⟨slot, phase⟩) :: s.places⟩
  have holderHere : after.holder? slot = some id := by simp [after, State.holder?]
  have holderOther : ∀ k, k ≠ slot → after.holder? k = s.holder? k := by
    intro k different
    simp only [after, State.holder?, List.find?_cons, beq_eq_false_iff_ne.mpr different.symm]
  have lookupHere : after.places.lookup id = some ⟨slot, phase⟩ := by simp [after]
  have lookupOther : ∀ owner, owner ≠ id → after.places.lookup owner = s.places.lookup owner := by
    intro owner different
    simp only [after, List.lookup_cons, beq_eq_false_iff_ne.mpr different]
  -- The draft in focus is not closed, so no other draft reads what is replaced here.
  have apart : ∀ source, s.IsClosed source → source ≠ slot := fun source closed here =>
    notClosed (here ▸ closed)
  have closed : ∀ source, s.IsClosed source → after.IsClosed source := by
    rintro source ⟨content, there, output⟩
    exact ⟨content, (other source (apart source ⟨content, there, output⟩)).trans there, output⟩
  have values : ∀ source, s.IsClosed source → after.valueOf p source = s.valueOf p source := by
    intro source isClosed
    simp only [State.valueOf, holderOther source (apart source isClosed)]
  refine ⟨?_, ?_, ?_⟩
  · intro owner place placed
    rw [List.length_set]
    by_cases new : owner = id
    · rw [new, lookupHere] at placed
      cases placed
      exact inside
    · exact sound.inside owner place ((lookupOther owner new).symm.trans placed)
  · intro k content there _
    by_cases here : k = slot
    · subst here
      obtain rfl : content = d := by
        rw [same] at there
        exact (Option.some.inj (Option.some.inj there)).symm
      exact ⟨id, holderHere, ⟨phase, lookupHere, stands⟩, computes.transport closed values, settled⟩
    · obtain ⟨owner, old⟩ := sound.held k content ((other k here).symm.trans there)
        fun focus => here (Option.some.inj focus)
      obtain ⟨oldPhase, placed, oldStands⟩ := old.placed
      have different : owner ≠ id := by
        rintro rfl
        rw [new] at placed
        cases placed
      exact ⟨owner, (holderOther k here).trans old.holder,
        ⟨oldPhase, (lookupOther owner different).trans placed, oldStands⟩,
        old.computes.transport closed values, old.settled⟩
  · intro owner place placed needed
    by_cases isNew : owner = id
    · rw [isNew, lookupHere] at placed
      cases placed
      exact ⟨holderHere.trans (congrArg some isNew.symm), by simp, d, same⟩
    · obtain ⟨holder, focus, content, there⟩ :=
        sound.kept owner place ((lookupOther owner isNew).symm.trans placed) needed
      have elsewhere : place.slot ≠ slot := fun here => focus (congrArg some here)
      exact ⟨(holderOther _ elsewhere).trans holder, by simp, content,
        (other _ elsewhere).trans there⟩

end Wavefront.Drafting
