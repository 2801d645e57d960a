import Wavefront.Proofs.Drafting.Visit
set_option autoImplicit false

/-!
Groupings of several inputs. Each input comes in through a branch, taken out of its draft or reading
it back, and the branches make a draft of their own.
-/
namespace Wavefront.Drafting

variable {p : Plan} {order : List Nat} {used : Nat → Prop} {s : State} {id : Nat} {op : PlanOp}

theorem State.IsClosed.close_eq {slot : Nat} (closed : s.IsClosed slot) : s.close slot = .ok s := by
  obtain ⟨⟨map, reduce, output, keys⟩, there, temporary⟩ := closed
  obtain ⟨inside, equal⟩ := List.getElem?_eq_some_iff.mp there
  simp only at temporary
  subst temporary
  have same : (⟨map, reduce, some .temporary, keys⟩ : Draft).close =
    ⟨map, reduce, some .temporary, keys⟩ := rfl
  rw [State.close, State.modify_eq there, same, State.put, ← equal, List.set_getElem_self]

/-- The branch through which an input comes in computes the input. -/
theorem inputBranch_spec (validated : p.Validated order) {inputs : List Nat}
    (awaits : Awaits p used s id op inputs) (sound : Sound p used none s)
    (shuffle : op.kind.isShuffle = true) {position input : Nat}
    (at_ : op.inputs[position]? = some input) (member : input ∈ inputs) :
    ∃ s' b, s.inputBranch p op position input = .ok (s', b) ∧
      Sound p (UsedBy p used [input]) none s' ∧
      Keeps s s' ∧ BranchComputes p s' b input := by
  obtain ⟨slot, phase, d, placed, there, held, stands⟩ := awaits.held validated sound member
  have notStore := awaits.not_store validated member
  have written := isWritten_iff validated awaits.found (awaits.reads input member)
  have found : s.inputPlace op position = .ok ⟨slot, phase⟩ := State.inputPlace_eq at_ placed
  have readsBack {s' : State} (closed : s'.IsClosed slot) {x : Dataflow}
    (meant : p.meaning input = some x)
      (value : s'.valueOf p slot = some x) : BranchComputes p s' ⟨.draft slot, []⟩ input := by
    refine ⟨.nil, fun source is => ?_, x, x, value, rfl, meant⟩
    cases is
    exact closed
  cases stands with
  | map single empty before =>
    have unwritten : ¬ p.IsWritten input := by
      rw [written]
      exact fun either => either.elim (fun many => many single) fun past => before past.1
    obtain ⟨s', b, took, after, keeps, computes⟩ :=
      sound.take placed (awaits.fresh input member single) unwritten
    refine ⟨s', b, ?_, by rwa [usedBy_single single], keeps, computes.of_keeps keeps⟩
    simp only [State.inputBranch, found, bind, Except.bind, single, and_self, ↓reduceIte, took]
  | reduce single shuffled past group =>
    have cut : p.IsCut input := (written.mpr (.inr ⟨past, shuffle⟩)).resolve_left notStore
    obtain ⟨s', closes, after, keeps, closed, x, meant, value⟩ := sound.close placed cut
    refine ⟨s', ⟨.draft slot, []⟩, ?_, by rwa [usedBy_single single], keeps,
      readsBack closed meant value⟩
    simp only [State.inputBranch, found, bind, Except.bind, reduceCtorEq, false_and,
      ↓reduceIte, closes]
    rfl
  | closed out output =>
    have many := awaits.many validated member out
    obtain ⟨closed, x, meant, value⟩ := held.isClosed there notStore output
    refine ⟨s, ⟨.draft slot, []⟩, ?_, by rwa [usedBy_many many], .refl s,
      readsBack closed meant value⟩
    simp only [State.inputBranch, found, bind, Except.bind, reduceCtorEq, false_and, ↓reduceIte,
      closed.close_eq]
    rfl

/-- The inputs that are left still wait once one input has come in. -/
theorem Awaits.rest {s' : State} {input : Nat} {front rest : List Nat}
    (split : op.inputs = front ++ input :: rest) (awaits : Awaits p used s id op (input :: rest))
    (places : s'.places = s.places) : Awaits p (UsedBy p used [input]) s' id op rest where
  found := awaits.found
  reads other member := awaits.reads other (List.mem_cons_of_mem _ member)
  placed other member := by
    rw [places]
    exact awaits.placed other (List.mem_cons_of_mem _ member)
  fresh other member single := by
    rintro (before | ⟨here, _⟩)
    · exact awaits.fresh other (List.mem_cons_of_mem _ member) single before
    · rw [List.mem_singleton.mp here] at member single
      have twice : 2 ≤ op.inputs.count input := by
        have once := List.one_le_count_iff.mpr member
        rw [split, List.count_append, List.count_cons_self]
        omega
      have counted := Plan.count_le_consumers (Plan.mem_of_op? awaits.found) input
      omega

theorem usedBy_cons (input : Nat) (rest : List Nat) :
    UsedBy p (UsedBy p used [input]) rest = UsedBy p used (input :: rest) := by
  by_cases single : (p.consumers input).length = 1
  · rw [usedBy_single single, usedBy_cons_single single]
  · rw [usedBy_many single, usedBy_cons_many single]

/-- All branches of a grouping come in, each with the rearrange of its index. -/
theorem inputBranches_spec (validated : p.Validated order) (shuffle : op.kind.isShuffle = true)
    (keys : List (List String)) {front rest : List Nat} (split : op.inputs = front ++ rest)
    (awaits : Awaits p used s id op rest) (sound : Sound p used none s) :
    ∃ s' ins, State.inputBranches p op keys s front.length rest =
        .ok (s', (ins.zipIdx front.length).map fun b =>
          DraftBranch.feed b.2 (b.1, (keys[b.2]?).getD [])) ∧
      Sound p (UsedBy p used rest) none s' ∧ Keeps s s' ∧
      List.Forall₂ (BranchComputes p s') ins rest := by
  induction rest generalizing s used front with
  | nil => exact ⟨s, [], rfl, by rwa [usedBy_nil], .refl s, .nil⟩
  | cons input rest ih =>
    have at_ : op.inputs[front.length]? = some input := by simp [split]
    obtain ⟨s₁, b, came, after, keeps, computes⟩ :=
      inputBranch_spec validated awaits sound shuffle at_ List.mem_cons_self
    have split' : op.inputs = (front ++ [input]) ++ rest := by simp [split]
    obtain ⟨s', ins, others, after', keeps', feeds⟩ :=
      ih split' (awaits.rest split keeps.places) after
    rw [usedBy_cons] at after'
    rw [List.length_append, List.length_singleton] at others
    refine ⟨s', b :: ins, ?_, after', keeps.trans keeps', .cons (computes.of_keeps keeps') feeds⟩
    simp only [State.inputBranches, came, bind, Except.bind, others]
    rfl

/-- A grouping of several inputs makes a draft of their branches, which computes the grouping
together with what its kind calls for after the package. -/
theorem shuffleMany_spec (validated : p.Validated order) (awaits : Awaits p used s id op op.inputs)
    (sound : Sound p used none s) (shuffle : op.kind.isShuffle = true) {keys : List (List String)}
    {kind : PackageKind} (same : keys.length = op.inputs.length)
    (makes : ∀ xs, Dataflow.ofOperator? op.kind xs = some (.shuffle kind (keys.zip xs))) :
    ∃ s' slot d, s.shuffleMany p op keys kind = .ok (s', ⟨slot, .reduce⟩) ∧ s'.places = s.places ∧
      Sound p (UsedBy p used op.inputs) (some slot) s' ∧ s'.drafts[slot]? = some (some d) ∧
      d.output = none ∧ d.reduce = [.package kind op.inputs.length none] ∧
      ∀ tail, Tail kind keys tail → Dataflow.afterPackage kind op.inputs.length tail = some [] →
        Computes p s' slot { d with reduce := d.reduce ++ tail } id := by
  obtain ⟨s₁, ins, came, after, keeps, feeds⟩ :=
    @inputBranches_spec _ _ _ _ _ _ validated shuffle keys [] op.inputs rfl awaits sound
  have branches : (ins.zipIdx.map fun b => DraftBranch.feed b.2 (b.1, (keys[b.2]?).getD [])) =
      (ins.zip keys).mapIdx DraftBranch.feed := by
    have count := feeds.length_eq
    apply List.ext_getElem (by simp; omega)
    intro i left right
    have inside : i < keys.length := by
      rw [List.length_mapIdx, List.length_zip] at right
      omega
    simp [List.getElem?_eq_getElem inside]
  let d : Draft := ⟨(ins.zip keys).mapIdx DraftBranch.feed,
    [.package kind op.inputs.length none], none,
    keys.head?.getD []⟩
  obtain ⟨added, keeps'⟩ := after.add d
  refine ⟨(s₁.add d).1, s₁.drafts.length, d, ?_, keeps.places, added, by simp [State.add],
    rfl, rfl, ?_⟩
  · simp only [State.shuffleMany, bind, Except.bind]
    rw [List.length_nil] at came
    simp only [came, branches]
    rfl
  · intro tail follows unfolds
    have below : ∀ source, s₁.IsClosed source → source < s₁.drafts.length := by
      rintro source ⟨content, there, _⟩
      exact (List.getElem?_eq_some_iff.mp there).1
    have meant : ∀ xs, List.Forall₂ (fun input x => p.meaning input = some x) op.inputs xs →
        p.meaning id = some (.shuffle kind (keys.zip xs)) :=
      fun xs values => validated.meaning_of_inputs awaits.found values (makes xs)
    exact (Computes.merge feeds same below follows unfolds meant).of_keeps keeps'

end Wavefront.Drafting
