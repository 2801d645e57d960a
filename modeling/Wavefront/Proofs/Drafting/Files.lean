import Wavefront.Proofs.Drafting.Readers
set_option autoImplicit false

/-!
Which files are read. Only a load brings in a file; whatever else is placed passes on branches that are
there, or reads other drafts. Main statement: a branch of a graph that is drafted from a plan reads a file
only where a load of the plan does.
-/
namespace Wavefront.Drafting

/-- Some draft reads there. -/
def State.Reads (s : State) (source : DraftSource) : Prop :=
  ∃ (slot : Nat) (d : Draft), s.drafts[slot]? = some (some d) ∧ source ∈ d.sources

/-- No file is read that has not been read before. -/
def BringsNone (s s' : State) : Prop :=
  ∀ location schema, s'.Reads (.file location schema) → s.Reads (.file location schema)

variable {p : Plan} {s s' : State} {id : Nat} {op : PlanOp}

namespace BringsNone

theorem refl (s : State) : BringsNone s s := fun _ _ reads => reads

theorem trans {s'' : State} (first : BringsNone s s') (second : BringsNone s' s'') : BringsNone s s'' :=
  fun location schema reads => first location schema (second location schema reads)

theorem put {slot : Nat} {d d' : Draft} (there : s.drafts[slot]? = some (some d))
    (same : d'.sources = d.sources) : BringsNone s (s.put slot d') := by
  rintro location schema ⟨k, reader, here, member⟩
  by_cases moved : k = slot
  · subst moved
    rw [State.put, List.getElem?_set_self (List.getElem?_eq_some_iff.mp there).1] at here
    cases here
    exact ⟨k, d, there, same ▸ member⟩
  · rw [State.put, List.getElem?_set_ne (Ne.symm moved)] at here
    exact ⟨k, reader, here, member⟩

theorem add {before : State} {d : Draft} (none : BringsNone before s)
    (known : ∀ location schema, DraftSource.file location schema ∈ d.sources →
      before.Reads (.file location schema)) : BringsNone before (s.add d).1 := by
  rintro location schema ⟨k, reader, here, member⟩
  rw [State.add, List.getElem?_append] at here
  split at here
  · exact none location schema ⟨k, reader, here, member⟩
  · cases List.mem_singleton.mp (List.mem_of_getElem? here)
    exact known location schema member

theorem readBack (s : State) (slot : Nat) : BringsNone s (s.readBack slot).1 := by
  refine (refl s).add fun location schema member => ?_
  simp [Draft.reading, Draft.ofBranches, Draft.sources] at member

theorem modify {slot : Nat} (change : Draft → Draft) (same : ∀ d, (change d).sources = d.sources)
    (came : s.modify slot change = .ok s') : BringsNone s s' := by
  unfold State.modify at came
  cases found : s.draft slot with
  | error e =>
    rw [found] at came
    cases came
  | ok d =>
    rw [found] at came
    cases came
    exact .put (State.draft_eq_ok found) (same d)

theorem pushMap {slot : Nat} {localOp : LocalOp} (came : s.pushMap slot localOp = .ok s') :
    BringsNone s s' := by
  obtain ⟨d, found, came⟩ := Traversal.bind_eq_ok.mp came
  split at came
  · rename_i d' pushed
    cases came
    exact .put (State.draft_eq_ok found) (Draft.sources_of_pushMap pushed)
  · cases came

theorem close {slot : Nat} (came : s.close slot = .ok s') : BringsNone s s' :=
  modify Draft.close (fun _ => rfl) came

theorem openPlace {place : Place} (came : s.openPlace op = .ok (s', place)) : BringsNone s s' := by
  obtain ⟨before, _, came⟩ := Traversal.bind_eq_ok.mp came
  split at came
  · cases came
    exact .readBack s _
  · cases came
    exact .refl s

theorem append {localOp : LocalOp} {place : Place} (came : s.append op localOp = .ok (s', place)) :
    BringsNone s s' := by
  obtain ⟨⟨s₁, at_⟩, opened, came⟩ := Traversal.bind_eq_ok.mp came
  refine (openPlace opened).trans ?_
  dsimp only at came
  split at came
  · obtain ⟨s₂, pushed, came⟩ := Traversal.bind_eq_ok.mp came
    cases came
    exact .pushMap pushed
  · obtain ⟨s₂, pushed, came⟩ := Traversal.bind_eq_ok.mp came
    cases came
    exact modify (·.pushReduce localOp) (fun _ => rfl) pushed
  · cases came

theorem shuffle {slot : Nat} {keys : List String} {kind : PackageKind} {result : State × Place}
    (came : (do
      let s ← s.pushMap slot (.rearrange 0 keys)
      let s ← s.modify slot (·.shuffle kind 1 keys)
      return (s, ⟨slot, .reduce⟩)) = Except.ok result) : BringsNone s result.1 := by
  obtain ⟨s₁, pushed, came⟩ := Traversal.bind_eq_ok.mp came
  obtain ⟨s₂, shuffled, came⟩ := Traversal.bind_eq_ok.mp came
  cases came
  exact (pushMap pushed).trans (modify (·.shuffle kind 1 keys) (fun _ => rfl) shuffled)

theorem shuffleOne {keys : List String} {kind : PackageKind} {place : Place}
    (came : s.shuffleOne op keys kind = .ok (s', place)) : BringsNone s s' := by
  obtain ⟨⟨s₁, at_⟩, opened, came⟩ := Traversal.bind_eq_ok.mp came
  refine (openPlace opened).trans ?_
  dsimp only at came
  split at came
  · obtain ⟨⟨s₂, here⟩, reopened, came⟩ := Traversal.bind_eq_ok.mp came
    cases closes : s₁.close at_.slot with
    | error e =>
      rw [closes] at reopened
      cases reopened
    | ok closed =>
      rw [closes] at reopened
      cases reopened
      exact ((close closes).trans (readBack closed _)).trans (shuffle came)
  · exact shuffle came

/-- A branch that comes in reads what its draft has read, or another draft. -/
theorem inputBranch {position input : Nat} {b : DraftBranch}
    (came : s.inputBranch p op position input = .ok (s', b)) :
    BringsNone s s' ∧ ∀ location schema, b.source = .file location schema →
      s.Reads (.file location schema) := by
  obtain ⟨place, _, came⟩ := Traversal.bind_eq_ok.mp came
  split at came
  · unfold State.takeBranch at came
    split at came
    · rename_i branch rest reduce output keys there
      cases came
      refine ⟨?_, fun location schema is => ⟨place.slot, _, there, is ▸ List.mem_cons_self⟩⟩
      rintro location schema ⟨k, reader, here, member⟩
      by_cases moved : k = place.slot
      · subst moved
        rw [List.getElem?_set_self (List.getElem?_eq_some_iff.mp there).1] at here
        cases here
      · rw [List.getElem?_set_ne (Ne.symm moved)] at here
        exact ⟨k, reader, here, member⟩
    · cases came
    · cases came
  · obtain ⟨s₁, closes, came⟩ := Traversal.bind_eq_ok.mp came
    cases came
    exact ⟨close closes, nofun⟩

theorem inputBranches {keys : List (List String)} {position : Nat} {inputs : List Nat}
    {branches : List DraftBranch}
    (came : State.inputBranches p op keys s position inputs = .ok (s', branches)) :
    BringsNone s s' ∧ ∀ b ∈ branches, ∀ location schema, b.source = .file location schema →
      s.Reads (.file location schema) := by
  induction inputs generalizing s position branches with
  | nil =>
    cases came
    exact ⟨.refl _, nofun⟩
  | cons input rest ih =>
    obtain ⟨⟨s₁, b⟩, first, came⟩ := Traversal.bind_eq_ok.mp came
    obtain ⟨⟨s₂, others⟩, entered, came⟩ := Traversal.bind_eq_ok.mp came
    cases came
    obtain ⟨none, own⟩ := inputBranch first
    obtain ⟨none', reads⟩ := ih entered
    refine ⟨none.trans none', fun branch member location schema is => ?_⟩
    rcases List.mem_cons.mp member with rfl | later
    · exact own location schema is
    · exact none location schema (reads branch later location schema is)

theorem shuffleMany {keys : List (List String)} {kind : PackageKind} {place : Place}
    (came : s.shuffleMany p op keys kind = .ok (s', place)) : BringsNone s s' := by
  obtain ⟨⟨s₁, branches⟩, entered, came⟩ := Traversal.bind_eq_ok.mp came
  obtain ⟨none, reads⟩ := inputBranches entered
  cases came
  refine none.add fun location schema member => ?_
  obtain ⟨b, among, is⟩ := List.mem_map.mp member
  exact reads b among location schema is

end BringsNone

/-- What is placed brings in a file only if it is a load. -/
theorem visit_files {place : Place} (came : s.visit p op = .ok (s', place)) {location : String}
    {schema : Option Schema} (reads : s'.Reads (.file location schema)) :
    s.Reads (.file location schema) ∨ op.kind = .load location schema := by
  cases kind : op.kind with
  | load path known =>
    simp only [State.visit, kind] at came
    cases came
    obtain ⟨k, reader, here, member⟩ := reads
    rw [State.add, List.getElem?_append] at here
    split at here
    · exact .inl ⟨k, reader, here, member⟩
    · cases List.mem_singleton.mp (List.mem_of_getElem? here)
      cases List.mem_singleton.mp member
      exact .inr rfl
  | filter predicate | project columns | stream command outputSchema | limit n =>
    rw [State.visit, kind] at came
    exact .inl (BringsNone.append came location schema reads)
  | group keys | distinct =>
    rw [State.visit, kind] at came
    exact .inl (BringsNone.shuffleOne came location schema reads)
  | coGroup keys =>
    rw [State.visit, kind] at came
    exact .inl (BringsNone.shuffleMany came location schema reads)
  | join keys joinType =>
    rw [State.visit, kind] at came
    obtain ⟨⟨s₁, at_⟩, shuffled, came⟩ := Traversal.bind_eq_ok.mp came
    obtain ⟨s₂, pushed, came⟩ := Traversal.bind_eq_ok.mp came
    cases came
    have none : BringsNone s₁ s' :=
      .modify (·.pushReduce (.flatten op.inputs.length)) (fun _ => rfl) pushed
    exact .inl (((BringsNone.shuffleMany shuffled).trans none) location schema reads)
  | aggregate calls =>
    rw [State.visit, kind] at came
    obtain ⟨before, _, came⟩ := Traversal.bind_eq_ok.mp came
    obtain ⟨d, drafted, came⟩ := Traversal.bind_eq_ok.mp came
    split at came
    · cases came
      have none : BringsNone s (s.put place.slot (d.pushReduce (.aggregate d.groupKeys calls .full))) :=
        .put (State.draft_eq_ok drafted) rfl
      exact .inl (none location schema reads)
    · cases came
  | store path format =>
    rw [State.visit, kind] at came
    obtain ⟨⟨s₁, at_⟩, opened, came⟩ := Traversal.bind_eq_ok.mp came
    obtain ⟨s₂, written, came⟩ := Traversal.bind_eq_ok.mp came
    cases came
    have none : BringsNone s₁ s' :=
      .modify (fun d => { d with output := some (.final path format) }) (fun _ => rfl) written
    exact .inl (((BringsNone.openPlace opened).trans none) location schema reads)

/-- Files are read only where loads of the plan read them. -/
def LoadsOnly (p : Plan) (s : State) : Prop :=
  ∀ location schema, s.Reads (.file location schema) → ∃ op ∈ p.ops, op.kind = .load location schema

/-- To place one more operator keeps it so. -/
theorem step_loadsOnly (loads : LoadsOnly p s) (came : State.step p s id = .ok s') : LoadsOnly p s' := by
  intro location schema reads
  unfold State.step at came
  split at came
  · cases came
  · rename_i op found
    obtain ⟨⟨s₁, place⟩, visited, came⟩ := Traversal.bind_eq_ok.mp came
    have before : s₁.Reads (.file location schema) := by
      dsimp only at came
      split at came
      · obtain ⟨s₂, closes, came⟩ := Traversal.bind_eq_ok.mp came
        cases came
        exact BringsNone.close closes location schema reads
      · cases came
        exact reads
    rcases visit_files visited before with there | kind
    · exact loads location schema there
    · exact ⟨op, Plan.mem_of_op? found, kind⟩

theorem foldlM_loadsOnly {ids : List Nat} (loads : LoadsOnly p s)
    (came : ids.foldlM (State.step p) s = .ok s') : LoadsOnly p s' := by
  induction ids generalizing s with
  | nil =>
    cases came
    exact loads
  | cons id rest ih =>
    rw [List.foldlM_cons] at came
    obtain ⟨s₁, stepped, came⟩ := Traversal.bind_eq_ok.mp came
    exact ih (step_loadsOnly loads stepped) came

theorem start_loadsOnly (p : Plan) : LoadsOnly p State.start := by
  rintro location schema ⟨slot, d, there, _⟩
  cases there

/-- A node reads the files that its draft does. -/
theorem LoadsOnly.exists_load {w : Surroundings} (loads : LoadsOnly p s) {n : Node}
    (member : n ∈ s.nodes w) {b : Branch} (among : b ∈ n.map) {location : String}
    {schema : Option Schema} (source : b.source = .file location schema) :
    ∃ op ∈ p.ops, op.kind = .load location schema := by
  obtain ⟨position, there⟩ := List.mem_iff_getElem?.mp member
  obtain ⟨slot, d, left, _, rfl⟩ := State.getElem?_nodes.mp there
  simp only [Draft.node, List.mem_map] at among
  obtain ⟨branch, inside, rfl⟩ := among
  refine loads location schema ⟨slot, d, left, List.mem_map.mpr ⟨branch, inside, ?_⟩⟩
  cases is : branch.source with
  | file path known =>
    rw [is] at source
    cases source
    rfl
  | draft other =>
    rw [is] at source
    cases source

end Wavefront.Drafting
