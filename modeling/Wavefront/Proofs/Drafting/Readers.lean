import Wavefront.Proofs.Drafting.Realization
set_option autoImplicit false

/-!
Who reads what is written out. A draft that is read stays read: its reader may grow, and a reader
whose branch is taken out passes its source on. The visit of a reader of an operator that is written
out leaves a branch that reads its draft, so in the end every draft that is closed is read.
-/
namespace Wavefront.Drafting

def Draft.sources (d : Draft) : List DraftSource := d.map.map DraftBranch.source

/-- Some draft reads the draft in a slot. -/
def State.IsRead (s : State) (slot : Nat) : Prop :=
  ∃ (k : Nat) (d : Draft), s.drafts[k]? = some (some d) ∧ DraftSource.draft slot ∈ d.sources

/-- What is read stays read. -/
def StaysRead (s s' : State) : Prop := ∀ slot, s.IsRead slot → s'.IsRead slot

/-- The drafts of the inputs that are written out are read in the end. -/
def ReadsBack (p : Plan) (inputs : List Nat) (s s' : State) : Prop :=
  ∀ input ∈ inputs, p.IsCut input → ∀ place, s.places.lookup input = some place →
    s'.IsRead place.slot

/-- The only input is come to, and read if nothing can be appended where it stands. -/
structure ComesFrom (s : State) (op : PlanOp) (s' : State) (before : Place) : Prop where
  found : s.inputPlace op 0 = .ok before
  stays : StaysRead s s'
  reads : before.phase = .closed ∨ before.phase = .reduce ∧ op.kind.isShuffle = true →
    s'.IsRead before.slot

variable {p : Plan} {order : List Nat} {used : Nat → Prop} {s s' : State} {id : Nat} {op : PlanOp}

theorem StaysRead.refl (s : State) : StaysRead s s := fun _ read => read

theorem StaysRead.trans {s'' : State} (first : StaysRead s s') (second : StaysRead s' s'') :
    StaysRead s s'' := fun slot read => second slot (first slot read)

theorem Draft.sources_of_pushMap {d d' : Draft} {localOp : LocalOp}
    (pushed : d.pushMap? localOp = some d') : d'.sources = d.sources := by
  unfold pushMap? at pushed
  split at pushed
  · cases pushed
  · rename_i branch rest branches
    cases pushed
    simp only [sources, branches, List.map_cons]

theorem StaysRead.put {slot : Nat} {d d' : Draft} (there : s.drafts[slot]? = some (some d))
    (same : d'.sources = d.sources) : StaysRead s (s.put slot d') := by
  rintro read ⟨k, reader, here, member⟩
  by_cases moved : k = slot
  · subst moved
    rw [there] at here
    cases here
    exact ⟨k, d', List.getElem?_set_self (List.getElem?_eq_some_iff.mp there).1, same ▸ member⟩
  · exact ⟨k, reader, (List.getElem?_set_ne (Ne.symm moved)).trans here, member⟩

theorem StaysRead.add (s : State) (d : Draft) : StaysRead s (s.add d).1 := by
  rintro read ⟨k, reader, here, member⟩
  refine ⟨k, reader, ?_, member⟩
  rw [State.add, List.getElem?_append_left (List.getElem?_eq_some_iff.mp here).1, here]

theorem State.isRead_add {slot : Nat} {d : Draft} (member : DraftSource.draft slot ∈ d.sources) :
    (s.add d).1.IsRead slot :=
  ⟨s.drafts.length, d, by simp [State.add], member⟩

theorem State.draft_eq_ok {slot : Nat} {d : Draft} (came : s.draft slot = .ok d) :
    s.drafts[slot]? = some (some d) := by
  unfold draft at came
  split at came
  · rename_i content there
    cases came
    exact there
  · cases came

theorem StaysRead.modify {slot : Nat} (change : Draft → Draft)
    (same : ∀ d, (change d).sources = d.sources) (came : s.modify slot change = .ok s') :
    StaysRead s s' := by
  unfold State.modify at came
  cases found : s.draft slot with
  | error e =>
    rw [found] at came
    cases came
  | ok d =>
    rw [found] at came
    cases came
    exact .put (State.draft_eq_ok found) (same d)

theorem StaysRead.pushMap {slot : Nat} {localOp : LocalOp}
    (came : s.pushMap slot localOp = .ok s') : StaysRead s s' := by
  obtain ⟨d, found, came⟩ := Traversal.bind_eq_ok.mp came
  split at came
  · rename_i d' pushed
    cases came
    exact .put (State.draft_eq_ok found) (Draft.sources_of_pushMap pushed)
  · cases came

theorem StaysRead.close {slot : Nat} (came : s.close slot = .ok s') : StaysRead s s' :=
  StaysRead.modify Draft.close (fun _ => rfl) came

/-- An input that is written out stands where nothing can be appended, unless it has been shuffled
and is shuffled again. -/
theorem Awaits.phase_of_cut (validated : p.Validated order) {inputs : List Nat}
    (awaits : Awaits p used s id op inputs) (sound : Sound p used none s) {input : Nat}
    (member : input ∈ inputs) (cut : p.IsCut input) {place : Place}
    (placed : s.places.lookup input = some place) :
    place.phase = .closed ∨ place.phase = .reduce ∧ op.kind.isShuffle = true := by
  obtain ⟨slot, phase, d, placed', there, held, stands⟩ := awaits.held validated sound member
  rw [placed] at placed'
  cases placed'
  have written := (isWritten_iff validated awaits.found (awaits.reads input member)).mp (.inr cut)
  cases stands with
  | map single empty before =>
    rcases written with many | ⟨past, _⟩
    · exact absurd single many
    · exact absurd past before
  | reduce single shuffled past group =>
    rcases written with many | ⟨_, shuffle⟩
    · exact absurd single many
    · exact .inr ⟨rfl, shuffle⟩
  | closed out output => exact .inl rfl

theorem ComesFrom.then {s'' : State} {before : Place} (comes : ComesFrom s op s' before)
    (stays : StaysRead s' s'') : ComesFrom s op s'' before :=
  ⟨comes.found, comes.stays.trans stays, fun apart => stays _ (comes.reads apart)⟩

/-- An operator of one input reads it back if it is written out. -/
theorem ComesFrom.readsBack (validated : p.Validated order)
    (awaits : Awaits p used s id op op.inputs) (sound : Sound p used none s) {input : Nat}
    (only : op.inputs = [input]) {before : Place} (comes : ComesFrom s op s' before) :
    ReadsBack p op.inputs s s' := by
  intro other member cut place placed
  obtain rfl : other = input := by simpa [only] using member
  have same : s.inputPlace op 0 = .ok place := State.inputPlace_eq (by simp [only]) placed
  rw [comes.found] at same
  cases same
  exact comes.reads (awaits.phase_of_cut validated sound member cut placed)

/-- Going on with the records of an input reads them back if nothing can be appended there. -/
theorem openPlace_reads {place : Place} (came : s.openPlace op = .ok (s', place)) :
    ∃ before, s.inputPlace op 0 = .ok before ∧ StaysRead s s' ∧
      (before.phase = .closed ∧ s'.IsRead before.slot ∧ place.phase = .map ∨
        before.phase ≠ .closed ∧ place = before) := by
  obtain ⟨before, found, came⟩ := Traversal.bind_eq_ok.mp came
  refine ⟨before, found, ?_⟩
  split at came
  · rename_i closed
    cases came
    exact ⟨.add s _, .inl ⟨closed, State.isRead_add List.mem_cons_self, rfl⟩⟩
  · rename_i open_
    cases came
    exact ⟨.refl s, .inr ⟨open_, rfl⟩⟩

theorem openPlace_comesFrom {place : Place} (came : s.openPlace op = .ok (s', place))
    (same : op.kind.isShuffle = false) : ∃ before, ComesFrom s op s' before := by
  obtain ⟨before, found, stays, ⟨_, read, _⟩ | ⟨open_, _⟩⟩ := openPlace_reads came
  · exact ⟨before, found, stays, fun _ => read⟩
  · refine ⟨before, found, stays, fun apart => ?_⟩
    rcases apart with closed | ⟨_, shuffle⟩
    · exact absurd closed open_
    · simp [same] at shuffle

theorem append_comesFrom {localOp : LocalOp} {place : Place}
    (came : s.append op localOp = .ok (s', place)) (same : op.kind.isShuffle = false) :
    ∃ before, ComesFrom s op s' before := by
  obtain ⟨⟨s₁, at_⟩, opened, came⟩ := Traversal.bind_eq_ok.mp came
  obtain ⟨before, comes⟩ := openPlace_comesFrom opened same
  refine ⟨before, comes.then ?_⟩
  dsimp only at came
  split at came
  · obtain ⟨s₂, pushed, came⟩ := Traversal.bind_eq_ok.mp came
    cases came
    exact .pushMap pushed
  · obtain ⟨s₂, pushed, came⟩ := Traversal.bind_eq_ok.mp came
    cases came
    exact StaysRead.modify (·.pushReduce localOp) (fun _ => rfl) pushed
  · cases came

theorem StaysRead.shuffle {slot : Nat} {keys : List String} {kind : PackageKind}
    {result : State × Place}
    (came : (do
      let s ← s.pushMap slot (.rearrange 0 keys)
      let s ← s.modify slot (·.shuffle kind 1 keys)
      return (s, ⟨slot, .reduce⟩)) = Except.ok result) : StaysRead s result.1 := by
  obtain ⟨s₁, pushed, came⟩ := Traversal.bind_eq_ok.mp came
  obtain ⟨s₂, shuffled, came⟩ := Traversal.bind_eq_ok.mp came
  cases came
  exact (StaysRead.pushMap pushed).trans
    (StaysRead.modify (·.shuffle kind 1 keys) (fun _ => rfl) shuffled)

/-- A grouping of one input reads back what is past a shuffle already. -/
theorem shuffleOne_comesFrom {keys : List String} {kind : PackageKind} {place : Place}
    (came : s.shuffleOne op keys kind = .ok (s', place)) : ∃ before, ComesFrom s op s' before := by
  obtain ⟨⟨s₁, at_⟩, opened, came⟩ := Traversal.bind_eq_ok.mp came
  obtain ⟨before, found, stays, where_⟩ := openPlace_reads opened
  refine ⟨before, ?_⟩
  dsimp only at came
  split at came
  · obtain ⟨⟨s₂, here⟩, reopened, came⟩ := Traversal.bind_eq_ok.mp came
    cases closes : s₁.close at_.slot with
    | error e =>
      rw [closes] at reopened
      cases reopened
    | ok closed =>
      rw [closes] at reopened
      cases reopened
      have again : StaysRead s₁ (closed.readBack at_.slot).1 :=
        (StaysRead.close closes).trans (.add closed _)
      refine ComesFrom.then ⟨found, stays.trans again, fun _ => ?_⟩ (StaysRead.shuffle came)
      rcases where_ with ⟨_, read, _⟩ | ⟨_, rfl⟩
      · exact again _ read
      · exact State.isRead_add List.mem_cons_self
  · rename_i before_
    refine ComesFrom.then ⟨found, stays, fun apart => ?_⟩ (StaysRead.shuffle came)
    rcases where_ with ⟨_, read, _⟩ | ⟨open_, rfl⟩
    · exact read
    · rcases apart with closed | ⟨past, _⟩
      · exact absurd closed open_
      · exact absurd past before_

/-- A branch that comes in passes on what its draft has read, or reads the input. -/
theorem inputBranch_reads (validated : p.Validated order) {inputs : List Nat}
    (awaits : Awaits p used s id op inputs) (sound : Sound p used none s) {position input : Nat}
    (at_ : op.inputs[position]? = some input) (member : input ∈ inputs) {b : DraftBranch}
    (came : s.inputBranch p op position input = .ok (s', b)) :
    (∀ slot, s.IsRead slot → s'.IsRead slot ∨ b.source = .draft slot) ∧
      (p.IsCut input → ∀ place, s.places.lookup input = some place →
        b.source = .draft place.slot) := by
  obtain ⟨slot, phase, d, placed, there, held, stands⟩ := awaits.held validated sound member
  have found : s.inputPlace op position = .ok ⟨slot, phase⟩ := State.inputPlace_eq at_ placed
  simp only [State.inputBranch, found, bind, Except.bind] at came
  split at came
  · rename_i merges
    obtain ⟨rfl, single⟩ := merges
    cases stands with
    | map _ empty before =>
      obtain ⟨only, branches, _⟩ := held.computes.one_branch empty
      obtain ⟨map, reduce, output, keys⟩ := d
      obtain rfl : map = [only] := branches
      simp only [State.takeBranch, there] at came
      cases came
      refine ⟨?_, fun cut place placed' => ?_⟩
      · rintro read ⟨k, reader, here, reads⟩
        by_cases moved : k = slot
        · subst moved
          rw [there] at here
          cases here
          exact .inr (List.mem_singleton.mp reads).symm
        · exact .inl ⟨k, reader, (List.getElem?_set_ne (Ne.symm moved)).trans here, reads⟩
      · rw [placed] at placed'
        cases placed'
        rcases awaits.phase_of_cut validated sound member cut placed with closed | ⟨past, _⟩
        · cases closed
        · cases past
  · cases closes : s.close slot with
    | error e =>
      rw [closes] at came
      cases came
    | ok closed =>
      rw [closes] at came
      cases came
      refine ⟨fun read reads => .inl (StaysRead.close closes _ reads), fun _ place placed' => ?_⟩
      rw [placed] at placed'
      cases placed'
      rfl

/-- All branches that come in pass on what their drafts have read, and read the inputs that are
written out. -/
theorem inputBranches_reads (validated : p.Validated order) (shuffle : op.kind.isShuffle = true)
    {keys : List (List String)} {front rest : List Nat} (split : op.inputs = front ++ rest)
    (awaits : Awaits p used s id op rest) (sound : Sound p used none s) {branches : List DraftBranch}
    (came : State.inputBranches p op keys s front.length rest = .ok (s', branches)) :
    (∀ slot, s.IsRead slot →
        s'.IsRead slot ∨ DraftSource.draft slot ∈ branches.map DraftBranch.source) ∧
      ∀ input ∈ rest, p.IsCut input → ∀ place, s.places.lookup input = some place →
        DraftSource.draft place.slot ∈ branches.map DraftBranch.source := by
  induction rest generalizing s used front branches with
  | nil =>
    cases came
    exact ⟨fun _ read => .inl read, fun _ member => by cases member⟩
  | cons input rest ih =>
    have at_ : op.inputs[front.length]? = some input := by simp [split]
    obtain ⟨s₁, b, first, after, keeps, _⟩ :=
      inputBranch_spec validated awaits sound shuffle at_ List.mem_cons_self
    obtain ⟨passes, reads⟩ :=
      inputBranch_reads validated awaits sound at_ List.mem_cons_self first
    have split' : op.inputs = (front ++ [input]) ++ rest := by simp [split]
    simp only [State.inputBranches, first, bind, Except.bind] at came
    cases others : State.inputBranches p op keys s₁ (front.length + 1) rest with
    | error e =>
      rw [others] at came
      cases came
    | ok both =>
      obtain ⟨s₂, branches'⟩ := both
      rw [others] at came
      cases came
      obtain ⟨passes', reads'⟩ := ih split' (awaits.rest split keeps.places) after
        (by rwa [List.length_append, List.length_singleton])
      refine ⟨fun slot read => ?_, fun other member cut place placed => ?_⟩
      · rcases passes slot read with still | now
        · exact (passes' slot still).imp_right (List.mem_cons_of_mem _)
        · exact .inr (List.mem_cons.mpr (.inl now.symm))
      · rcases List.mem_cons.mp member with rfl | later
        · exact List.mem_cons.mpr (.inl (reads cut place placed).symm)
        · exact List.mem_cons_of_mem _ (reads' other later cut place (keeps.places ▸ placed))

theorem shuffleMany_reads (validated : p.Validated order) (shuffle : op.kind.isShuffle = true)
    (awaits : Awaits p used s id op op.inputs) (sound : Sound p used none s)
    {keys : List (List String)} {kind : PackageKind} {place : Place}
    (came : s.shuffleMany p op keys kind = .ok (s', place)) :
    StaysRead s s' ∧ ReadsBack p op.inputs s s' := by
  obtain ⟨⟨s₁, branches⟩, entered, came⟩ := Traversal.bind_eq_ok.mp came
  obtain ⟨passes, reads⟩ := @inputBranches_reads _ _ _ _ _ _ _ validated shuffle _ [] op.inputs rfl
    awaits sound _ entered
  cases came
  refine ⟨fun slot read => ?_, fun input member cut place placed =>
    State.isRead_add (reads input member cut place placed)⟩
  rcases passes slot read with still | now
  · exact StaysRead.add s₁ _ slot still
  · exact State.isRead_add now

/-- A visit keeps what is read, and reads the inputs that are written out. -/
theorem visit_reads (validated : p.Validated order) (awaits : Awaits p used s id op op.inputs)
    (sound : Sound p used none s) {place : Place} (came : s.visit p op = .ok (s', place)) :
    StaysRead s s' ∧ ReadsBack p op.inputs s s' := by
  have single (one : op.kind.admits 1 = true) (comes : ∃ before, ComesFrom s op s' before) :
      StaysRead s s' ∧ ReadsBack p op.inputs s s' := by
    obtain ⟨input, only⟩ := validated.one_input awaits.found one
    obtain ⟨before, comes⟩ := comes
    exact ⟨comes.stays, comes.readsBack validated awaits sound only⟩
  cases kind : op.kind with
  | load location schema =>
    have nothing := validated.no_input awaits.found (by rw [kind]; rfl)
    simp only [State.visit, kind] at came
    cases came
    exact ⟨.add s _, fun input member => by simp [nothing] at member⟩
  | filter predicate | project columns | stream command outputSchema | limit n =>
    rw [State.visit, kind] at came
    exact single (by rw [kind]; rfl) (append_comesFrom came (by rw [kind]; rfl))
  | group keys | distinct =>
    rw [State.visit, kind] at came
    exact single (by rw [kind]; rfl) (shuffleOne_comesFrom came)
  | coGroup keys =>
    rw [State.visit, kind] at came
    exact shuffleMany_reads validated (by rw [kind]; rfl) awaits sound came
  | join keys joinType =>
    rw [State.visit, kind] at came
    obtain ⟨⟨s₁, at_⟩, shuffled, came⟩ := Traversal.bind_eq_ok.mp came
    obtain ⟨s₂, pushed, came⟩ := Traversal.bind_eq_ok.mp came
    cases came
    have stays : StaysRead s₁ s' :=
      StaysRead.modify (·.pushReduce (.flatten op.inputs.length)) (fun _ => rfl) pushed
    obtain ⟨stays', reads⟩ := shuffleMany_reads validated (by rw [kind]; rfl) awaits sound shuffled
    exact ⟨stays'.trans stays, fun input member cut place placed =>
      stays _ (reads input member cut place placed)⟩
  | aggregate calls =>
    refine single (by rw [kind]; rfl) ?_
    rw [State.visit, kind] at came
    obtain ⟨before, found, came⟩ := Traversal.bind_eq_ok.mp came
    obtain ⟨d, drafted, came⟩ := Traversal.bind_eq_ok.mp came
    split at came
    · rename_i fits
      cases came
      refine ⟨place, found, .put (State.draft_eq_ok drafted) rfl, fun apart => ?_⟩
      simp [fits.1, kind, Operator.isShuffle] at apart
    · cases came
  | store location format =>
    refine single (by rw [kind]; rfl) ?_
    rw [State.visit, kind] at came
    obtain ⟨⟨s₁, at_⟩, opened, came⟩ := Traversal.bind_eq_ok.mp came
    obtain ⟨s₂, written, came⟩ := Traversal.bind_eq_ok.mp came
    cases came
    obtain ⟨before, comes⟩ := openPlace_comesFrom opened (by rw [kind]; rfl)
    exact ⟨before, comes.then
      (StaysRead.modify (fun d => { d with output := some (.final location format) }) (fun _ => rfl)
        written)⟩

/-- Where an operator is written out and one of its readers is placed, its draft is read. -/
def AllRead (p : Plan) (before : List Nat) (s : State) : Prop :=
  ∀ id, p.IsCut id → ∀ consumer ∈ p.consumers id, consumer ∈ before →
    ∀ place, s.places.lookup id = some place → s.IsRead place.slot

theorem start_allRead (p : Plan) : AllRead p [] State.start :=
  fun _ _ _ _ placed => by cases placed

/-- What is read after a visit is read once its operator is placed. -/
theorem AllRead.visited (validated : p.Validated order) {before after : List Nat}
    (split : order = before ++ id :: after) (found : p.op? id = some op) (all : AllRead p before s)
    (stays : StaysRead s s') (reads : ReadsBack p op.inputs s s')
    {place : Place} {drafts : List (Option Draft)}
    (last : StaysRead s' ⟨drafts, (id, place) :: s.places⟩) :
    AllRead p (before ++ [id]) ⟨drafts, (id, place) :: s.places⟩ := by
  intro other cut consumer reader placed at_ there
  have different : other ≠ id := by
    rintro rfl
    rcases List.mem_append.mp placed with earlier | now
    · exact validated.consumer_not_placed split reader (List.mem_cons_of_mem _ earlier)
    · exact validated.consumer_not_placed split reader
        (List.mem_singleton.mp now ▸ List.mem_cons_self)
  have earlierPlace : s.places.lookup other = some at_ := by
    simpa only [List.lookup_cons, beq_eq_false_iff_ne.mpr different] using there
  apply last
  rcases List.mem_append.mp placed with earlier | now
  · exact stays _ (all other cut consumer reader earlier at_ earlierPlace)
  · rw [List.mem_singleton.mp now] at reader
    obtain ⟨reading, is, member⟩ := validated.numbered.mem_consumers.mp reader
    rw [found] at is
    cases is
    exact reads other member cut at_ earlierPlace

/-- One more operator is placed. -/
theorem step_allRead (validated : p.Validated order) {before after : List Nat}
    (split : order = before ++ id :: after) (reached : Reached p before s) (all : AllRead p before s)
    (found : p.op? id = some op) (came : State.step p s id = .ok s') :
    AllRead p (before ++ [id]) s' := by
  have awaits := reached.awaits validated split found
  obtain ⟨succeeds, fails⟩ := visit_spec validated awaits reached.sound
  simp only [State.step, found] at came
  obtain ⟨⟨s₁, place⟩, visited, came⟩ := Traversal.bind_eq_ok.mp came
  obtain ⟨stays, reads⟩ := visit_reads validated awaits reached.sound visited
  have places : s₁.places = s.places := by
    by_cases owned : p.OwnsGroup op
    · obtain ⟨_, _, _, ran, places, _⟩ := succeeds owned
      rw [visited] at ran
      cases ran
      exact places
    · rw [visited] at fails
      cases fails owned
  dsimp only at came
  split at came
  · obtain ⟨s₂, closes, came⟩ := Traversal.bind_eq_ok.mp came
    have kept : s₂.places = s₁.places := by
      unfold State.close State.modify at closes
      cases drafted : s₁.draft place.slot with
      | error e =>
        rw [drafted] at closes
        cases closes
      | ok d =>
        rw [drafted] at closes
        cases closes
        rfl
    cases came
    rw [kept, places]
    exact all.visited validated split found stays reads fun slot read =>
      StaysRead.close closes slot read
  · cases came
    rw [places]
    exact all.visited validated split found stays reads fun _ read => read

/-- From any point on, the operators that are left are placed one by one. -/
theorem foldlM_allRead (validated : p.Validated order) {before after : List Nat}
    (split : order = before ++ after) (reached : Reached p before s) (all : AllRead p before s)
    (came : after.foldlM (State.step p) s = .ok s') : AllRead p order s' := by
  induction after generalizing s before with
  | nil =>
    cases came
    rwa [split, List.append_nil]
  | cons id rest ih =>
    obtain ⟨op, found⟩ := validated.exists_op (show id ∈ order by simp [split])
    rw [List.foldlM_cons] at came
    obtain ⟨s₁, stepped, came⟩ := Traversal.bind_eq_ok.mp came
    have next : Reached p (before ++ [id]) s₁ := by
      obtain ⟨succeeds, fails⟩ := step_spec validated split reached found
      by_cases owned : p.OwnsGroup op
      · obtain ⟨_, ran, next⟩ := succeeds owned
        rw [stepped] at ran
        cases ran
        exact next
      · rw [stepped] at fails
        cases fails owned
    exact ih (by simp [split]) next (step_allRead validated split reached all found stepped) came

/-- In the end every draft that is closed is read. -/
theorem AllRead.isRead (validated : p.Validated order) (reached : Reached p order s)
    (all : AllRead p order s) {slot : Nat} (closed : s.IsClosed slot) : s.IsRead slot := by
  obtain ⟨d, there, temporary⟩ := closed
  obtain ⟨id, held, output⟩ := reached.held validated there
  obtain ⟨phase, placed, _⟩ := held.placed
  rcases held.written output with ⟨cut, _⟩ | ⟨_, _, _, _, _, final⟩
  · have ⟨op, found, notStore, _⟩ := cut
    obtain ⟨consumer, reader⟩ := List.exists_mem_of_length_pos
      (validated.consumers_pos found notStore)
    obtain ⟨reading, is, _⟩ := validated.numbered.mem_consumers.mp reader
    exact all id cut consumer reader (validated.mem_order is) _ placed
  · rw [temporary] at final
    cases final

end Wavefront.Drafting
