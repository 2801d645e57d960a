import Wavefront.Proofs.Drafting.Invariant
set_option autoImplicit false

/-!
Drafts grow with their operators: what is appended to a draft that computes the input of an operator
makes it compute the operator.
-/
namespace Wavefront.Drafting

variable {p : Plan} {s : State} {slot input id : Nat} {d : Draft}

/-- An operation on single records in the map phase. -/
theorem Computes.pushMap (computes : Computes p s slot d input) (empty : d.reduce = [])
    (r : RecordOp) (meant : ∀ x, p.meaning input = some x → p.meaning id = some (.each r x)) :
    ∃ d', d.pushMap? r.toLocal = some d' ∧ Computes p s slot d' id ∧ d'.reduce = [] ∧
      d'.output = d.output := by
  obtain ⟨b, branches, branch⟩ := computes.one_branch empty
  obtain ⟨start, x, begins, through, value⟩ := branch.value
  refine ⟨{ d with map := [{ b with ops := b.ops ++ [r.toLocal] }] }, ?_, ⟨?_, ?_, ?_⟩, empty, rfl⟩
  · simp only [Draft.pushMap?, branches]
  · simp only [empty, List.map_cons, List.map_nil]
    exact .mapOnly (branch.records.append r)
  · intro b' member source is
    rw [List.mem_singleton.mp member] at is
    exact computes.reads b (by simp [branches]) source is
  · refine ⟨.each r x, meant x value, ?_⟩
    simp only [Draft.meaning, empty, List.map_cons, List.map_nil, Dataflow.ofPhases, begins,
      Option.bind_some, Dataflow.throughRecords_append r through]

/-- An operation on single records in the reduce phase. -/
theorem Computes.pushReduce (computes : Computes p s slot d input) (shuffled : d.reduce ≠ [])
    (r : RecordOp) (meant : ∀ x, p.meaning input = some x → p.meaning id = some (.each r x)) :
    Computes p s slot (d.pushReduce r.toLocal) id ∧
    (d.pushReduce r.toLocal).endsInGroup = false := by
  obtain ⟨x, value, computed⟩ := computes.value
  refine ⟨⟨computes.shaped.push shuffled r, computes.reads, .each r x, meant x value, ?_⟩, ?_⟩
  · apply Dataflow.ofPhases_append shuffled computed
    cases r <;> rfl
  · simp only [Draft.endsInGroup, Draft.pushReduce, List.getLast?_concat]
    cases r <;> rfl

/-- A rearrange and a package turn a map phase into a reduce phase. -/
theorem Computes.shuffle (computes : Computes p s slot d input) (empty : d.reduce = [])
    {kind : PackageKind} {keys : List String} (alone : Tail kind [keys] [])
    (single : ∀ ops, Dataflow.afterPackage kind 1 ops = some ops)
    (meant : ∀ x, p.meaning input = some x → p.meaning id = some (.shuffle kind [(keys, x)])) :
    ∃ d', d.pushMap? (.rearrange 0 keys) = some d' ∧ Computes p s slot (d'.shuffle kind 1 keys) id ∧
      (d'.shuffle kind 1 keys).reduce = [.package kind 1 none] ∧
      (d'.shuffle kind 1 keys).output = d.output := by
  obtain ⟨b, branches, branch⟩ := computes.one_branch empty
  obtain ⟨start, x, begins, through, value⟩ := branch.value
  refine ⟨{ d with map := [{ b with ops := b.ops ++ [.rearrange 0 keys] }] }, ?_,
    ⟨?_, ?_, ?_⟩, ?_, rfl⟩
  · simp only [Draft.pushMap?, branches]
  · simp only [Draft.shuffle, Draft.pushReduce, empty, List.map_cons, List.map_nil, List.nil_append]
    exact .package_one branch.records alone
  · intro b' member source is
    rw [List.mem_singleton.mp member] at is
    exact computes.reads b (by simp [branches]) source is
  · refine ⟨.shuffle kind [(keys, x)], meant x value, ?_⟩
    have delivers : Dataflow.deliveryOf (some start, b.ops ++ [.rearrange 0 keys]) =
      some ⟨0, keys, x⟩ := by
      simp only [Dataflow.deliveryOf, Option.bind_some, Dataflow.delivery?_append, through,
        Option.map_some]
    simp only [Draft.meaning, Draft.shuffle, Draft.pushReduce, empty, List.map_cons, List.map_nil,
      List.nil_append, begins]
    refine (Dataflow.ofPhases_package (.cons delivers .nil) ?_ (single [])).trans rfl
    intro i delivery there
    cases i with
    | zero => simpa using (congrArg (Option.map Dataflow.Delivery.index) there).symm
    | succ i => simp at there
  · simp only [Draft.shuffle, Draft.pushReduce, empty, List.nil_append]

/-- A branch that ends in the rearrange of its index. -/
def DraftBranch.feed (index : Nat) (b : DraftBranch × List String) : DraftBranch :=
  { b.1 with ops := b.1.ops ++ [.rearrange index b.2] }

/-- What the branches of some inputs bring to a shuffle. -/
theorem delivered_of_feeds {ins : List DraftBranch} {inputs : List Nat} {keys : List (List String)}
    {xs : List Dataflow} (feeds : List.Forall₂ (BranchComputes p s) ins inputs)
    (meant : List.Forall₂ (fun input x => p.meaning input = some x) inputs xs)
    (same : keys.length = inputs.length) :
    List.Forall₂ (fun b d => Dataflow.deliveryOf b = some d)
      (((ins.zip keys).mapIdx DraftBranch.feed).map fun b =>
        (b.source.meaning (s.valueOf p), b.ops))
      ((keys.zip xs).mapIdx fun index x => ⟨index, x.1, x.2⟩) := by
  rw [Traversal.forall₂_iff_getElem?]
  have lengths := feeds.length_eq
  have counts := meant.length_eq
  refine ⟨by simp [lengths, ← counts, same], ?_⟩
  intro i b d left right
  simp only [List.getElem?_map, List.getElem?_mapIdx, Option.map_eq_some_iff] at left right
  obtain ⟨_, ⟨⟨b, own⟩, fed, rfl⟩, rfl⟩ := left
  obtain ⟨⟨k, x⟩, brought, rfl⟩ := right
  obtain ⟨atBranch, atKeys⟩ := List.getElem?_zip_eq_some.mp fed
  obtain ⟨atKeys', atValue⟩ := List.getElem?_zip_eq_some.mp brought
  rw [atKeys] at atKeys'
  cases atKeys'
  have inside : i < inputs.length := by
    have := (List.getElem?_eq_some_iff.mp atBranch).1
    omega
  have atInput := List.getElem?_eq_getElem inside
  obtain ⟨start, y, begins, through, value⟩ :=
    ((Traversal.forall₂_iff_getElem?.mp feeds).2 i b _ atBranch atInput).value
  have known := (Traversal.forall₂_iff_getElem?.mp meant).2 i _ x atInput atValue
  rw [value] at known
  cases known
  simp only [DraftBranch.feed, Dataflow.deliveryOf, begins, Option.bind_some,
    Dataflow.delivery?_append, through, Option.map_some]

/-- Branches that compute some inputs and the package of a grouping compute the grouping. -/
theorem Computes.merge {ins : List DraftBranch} {inputs : List Nat} {keys : List (List String)}
    {kind : PackageKind} {tail : List LocalOp} {output : Option DraftOutput}
    (feeds : List.Forall₂ (BranchComputes p s) ins inputs) (same : keys.length = inputs.length)
    (below : ∀ source, s.IsClosed source → source < slot) (after : Tail kind keys tail)
    (unfolds : Dataflow.afterPackage kind inputs.length tail = some [])
    (meant : ∀ xs, List.Forall₂ (fun input x => p.meaning input = some x) inputs xs →
      p.meaning id = some (.shuffle kind (keys.zip xs))) :
    Computes p s slot ⟨(ins.zip keys).mapIdx DraftBranch.feed,
      .package kind inputs.length none :: tail,
      output, keys.head?.getD []⟩ id := by
  have lengths := feeds.length_eq
  have ownKeys : (ins.zip keys).map Prod.snd = keys := List.map_snd_zip (by omega)
  obtain ⟨xs, values⟩ := Traversal.forall₂_of_exists fun input member => by
    obtain ⟨_, _, feed⟩ := Traversal.exists_of_forall₂ feeds.flip member
    obtain ⟨_, x, _, _, value⟩ := feed.value
    exact (⟨x, value⟩ : ∃ x, p.meaning input = some x)
  have counts := values.length_eq
  refine ⟨?_, ?_, _, meant xs values, ?_⟩
  · have records : ∀ b ∈ (ins.zip keys).map fun b => (b.1.ops, b.2), Records b.1 := by
      intro b member
      obtain ⟨⟨branch, k⟩, zipped, rfl⟩ := List.mem_map.mp member
      obtain ⟨_, _, feed⟩ := Traversal.exists_of_forall₂ feeds (List.of_mem_zip zipped).1
      exact feed.records
    have feeding : ((ins.zip keys).map fun b => (b.1.ops, b.2)).map Prod.snd = keys := by
      rw [List.map_map]
      exact ownKeys
    have shaped := Shaped.shuffled records (feeding.symm ▸ after)
    have count : ((ins.zip keys).map fun b => (b.1.ops, b.2)).length = inputs.length := by
      rw [List.length_map, List.length_zip]
      omega
    rw [count, ← List.head?_map, feeding] at shaped
    have branches : rearranged ((ins.zip keys).map fun b => (b.1.ops, b.2)) =
        ((ins.zip keys).mapIdx DraftBranch.feed).map DraftBranch.ops := by
      refine List.ext_getElem? fun i => ?_
      simp only [rearranged, List.getElem?_mapIdx, List.getElem?_map, Option.map_map]
      rfl
    rwa [branches] at shaped
  · intro b member source is
    obtain ⟨i, inside, rfl⟩ := List.mem_mapIdx.mp member
    obtain ⟨_, _, feed⟩ :=
      Traversal.exists_of_forall₂ feeds (List.of_mem_zip (List.getElem_mem inside)).1
    have closed := feed.reads source is
    exact ⟨below source closed, closed⟩
  · have brought : ((ins.zip keys).mapIdx DraftBranch.feed).length = inputs.length := by
      rw [List.length_mapIdx, List.length_zip]
      omega
    -- The deliveries come in the order of the branches, as the package asks for.
    have placed : ∀ (i : Nat) (d : Dataflow.Delivery),
        ((keys.zip xs).mapIdx fun index x => (⟨index, x.1, x.2⟩ : Dataflow.Delivery))[i]? = some d →
          d.index = i := by
      intro i d there
      simp only [List.getElem?_mapIdx, Option.map_eq_some_iff] at there
      obtain ⟨_, _, rfl⟩ := there
      rfl
    have paired : ((keys.zip xs).mapIdx fun index x => (⟨index, x.1, x.2⟩ : Dataflow.Delivery)).map
        (fun d => (d.keys, d.value)) = keys.zip xs := by
      refine List.ext_getElem? fun i => ?_
      simp only [List.getElem?_mapIdx, List.getElem?_map, Option.map_map]
      exact Option.map_id'
    have package := @Dataflow.ofPhases_package _ _ kind none tail []
      (delivered_of_feeds feeds values same) placed (by rwa [List.length_map, brought])
    rwa [List.length_map, brought, paired] at package

/-- Calls on the groups of a group. -/
theorem Computes.aggregate (computes : Computes p s slot d input) (ends : d.endsInGroup = true)
    (calls : List AggregateCall)
    (meant : ∀ keys x, p.meaning input = some (.shuffle .group [(keys, x)]) →
      p.meaning id = some (.aggregate keys calls (.shuffle .group [(keys, x)]))) :
    Computes p s slot (d.pushReduce (.aggregate d.groupKeys calls .full)) id := by
  obtain ⟨known, inputs, last⟩ : ∃ known inputs,
    d.reduce.getLast? = some (.package .group inputs known) := by
    unfold Draft.endsInGroup at ends
    split at ends
    · exact ⟨_, _, ‹_›⟩
    · cases ends
  obtain ⟨ops, records, branches, reduce⟩ := computes.shaped.ends_in_group last
  obtain ⟨x, value, computed⟩ := computes.value
  have shuffled : d.reduce ≠ [] := by simp [reduce]
  obtain ⟨b, only, rest⟩ : ∃ b, d.map = [b] ∧ b.ops = ops ++ [.rearrange 0 d.groupKeys] := by
    simpa only [List.map_eq_singleton_iff] using branches
  -- The group that the draft computes has the keys that the draft remembers.
  obtain ⟨y, rfl⟩ : ∃ y, x = .shuffle .group [(d.groupKeys, y)] := by
    simp only [Draft.meaning, only, reduce, List.map_cons, List.map_nil, Dataflow.ofPhases_cons,
      List.mapM_cons, List.mapM_nil, Dataflow.deliveryOf, rest] at computed
    cases begins : b.source.meaning (s.valueOf p) with
    | none => simp [begins] at computed
    | some start =>
      cases through : Dataflow.throughRecords start ops with
      | none => simp [begins, Dataflow.delivery?_append, through] at computed
      | some y =>
        refine ⟨y, ?_⟩
        simpa [begins, Dataflow.delivery?_append, through, Dataflow.ofReduce, Dataflow.inOrder,
          Dataflow.afterPackage, List.range_succ, eq_comm] using computed
  refine ⟨?_, computes.reads, _, meant _ y value, Dataflow.ofPhases_append shuffled computed rfl⟩
  simp only [Draft.pushReduce, reduce, branches, List.singleton_append]
  exact .compute records calls

end Wavefront.Drafting
