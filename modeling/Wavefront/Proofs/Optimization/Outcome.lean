import Wavefront.Optimization.Combine
import Wavefront.Optimization.ExternalCommand
import Wavefront.Optimization.StreamedJoin
import Wavefront.Proofs.Optimization.Packages
set_option autoImplicit false

/-!
What the passes make of one drafted node. There are four outcomes: a node without shuffle gets
annotations only, a group with algebraic calls gets a combine plan, an inner join streams its last
input, and of every other shuffle just the package gets to know its inputs.
-/
namespace Wavefront.Optimization

/-- A reduce plan whose calls can be computed in steps. -/
def Splits (reduce : List LocalOp) : Prop :=
  ∃ inputs known keys calls phase rest,
    reduce = .package .group inputs known :: .aggregate keys calls phase :: rest ∧
      calls.all (·.function.isAlgebraic) = true

/-- A node that gets a combine plan. -/
def Combinable (n : Node) : Prop :=
  ∃ branch inputs known keys calls rest, n.map = [branch] ∧ n.combine = none ∧
    n.reduce = .package .group inputs known :: .aggregate keys calls .full :: rest ∧
      calls.all (·.function.isAlgebraic) = true

theorem Combinable.splits {n : Node} (combinable : Combinable n) : Splits n.reduce := by
  obtain ⟨_, inputs, known, keys, calls, rest, _, _, reduce, algebraic⟩ := combinable
  exact ⟨inputs, known, keys, calls, .full, rest, reduce, algebraic⟩

/-- A node as it is drafted. -/
structure Drafted (n : Node) : Prop where
  shaped : ∃ keys, Shaped (n.map.map Branch.ops) n.reduce keys
  combine : n.combine = none
  annotations : n.annotations = .none

/-- What becomes of a drafted node, apart from its annotations. -/
inductive Optimized (chunkSize : Nat) (combines : Bool) (n : Node) : Node → Prop where
  | mapOnly (a : NodeAnnotations) (reduce : n.reduce = []) :
      Optimized chunkSize combines n { n with annotations := a }
  | combined (a : NodeAnnotations) {source : Source} {ops rest : List LocalOp} {keys : List String}
      {calls : List AggregateCall} (wanted : combines = true)
      (map : n.map = [⟨source, ops ++ [.rearrange 0 keys]⟩]) (records : Records ops)
      (reduce : n.reduce = .package .group 1 none :: .aggregate keys calls .full :: rest)
      (algebraic : calls.all (·.function.isAlgebraic) = true) (after : Records rest) :
      Optimized chunkSize combines n { n with
        map := [⟨source, ops ++ [.aggregate keys calls .initial, .rearrange 0 keys]⟩]
        combine := some ⟨[.package .group 1 (some (knownOf .group [keys])),
          .aggregate keys calls .intermediate, .rearrange 0 keys], chunkSize⟩
        reduce := .package .group 1 (some (knownOf .group [keys])) ::
          .aggregate keys calls .final :: rest
        annotations := a }
  | streamed (a : NodeAnnotations) {branches : List (List LocalOp × List String)}
      {rest : List LocalOp}
      (map : n.map.map Branch.ops = rearranged branches) (records : ∀ b ∈ branches, Records b.1)
      (reduce : n.reduce =
        .package (.join .inner) branches.length none :: .flatten branches.length :: rest)
      (after : Records rest) :
      Optimized chunkSize combines n { n with
        reduce := .joinPackage branches.length .inner chunkSize (branches.length - 1)
          (some (knownOf (.join .inner) (branches.map Prod.snd))) :: rest
        annotations := a }
  | annotated (a : NodeAnnotations) {branches : List (List LocalOp × List String)}
      {kind : PackageKind} {tail : List LocalOp}
      (map : n.map.map Branch.ops = rearranged branches)
      (records : ∀ b ∈ branches, Records b.1)
      (reduce : n.reduce = .package kind branches.length none :: tail)
      (after : Tail kind (branches.map Prod.snd) tail) (other : kind ≠ .join .inner)
      (whole : ¬ (combines = true ∧ Splits n.reduce)) :
      Optimized chunkSize combines n { n with
        reduce := .package kind branches.length
          (some (knownOf kind (branches.map Prod.snd))) :: tail
        annotations := a }

variable {n : Node}

/-- The passes that work on one node after the other, in their order. -/
def revise (chunkSize : Nat) (combines : Bool) (n : Node) : Revision Node :=
  (((if combines then addCombinePlan chunkSize n else .done n).bind annotatePackages).bind
    markStreams).bind (streamLastInputs chunkSize)

theorem addCombinePlan_of_not_combinable (chunkSize : Nat) (whole : ¬ Combinable n) :
    addCombinePlan chunkSize n = .done n := by
  unfold addCombinePlan
  split
  · rename_i branch inputs known keys calls rest one nothing reduce
    split
    · rename_i algebraic
      exact absurd ⟨branch, inputs, known, keys, calls, rest, one, nothing, reduce, algebraic⟩ whole
    · rfl
  · rfl

theorem addCombinePlan_or_done (chunkSize : Nat) {combines : Bool}
    (whole : combines = true → ¬ Combinable n) :
    (if combines then addCombinePlan chunkSize n else .done n) = .done n := by
  cases combines with
  | false => rfl
  | true => exact addCombinePlan_of_not_combinable chunkSize (whole rfl)

theorem addCombinePlan_eq_combined (chunkSize : Nat) {source : Source} {ops rest : List LocalOp}
    {keys : List String} {calls : List AggregateCall} (combine : n.combine = none)
    (map : n.map = [⟨source, ops ++ [.rearrange 0 keys]⟩])
    (reduce : n.reduce = .package .group 1 none :: .aggregate keys calls .full :: rest)
    (algebraic : calls.all (·.function.isAlgebraic) = true) :
    addCombinePlan chunkSize n = .done { n with
      map := [⟨source, ops ++ [.aggregate keys calls .initial, .rearrange 0 keys]⟩]
      combine := some (combinePlan chunkSize keys calls)
      reduce := .package .group 1 none :: .aggregate keys calls .final :: rest } := by
  simp only [addCombinePlan, map, combine, reduce, algebraic, ↓reduceIte, List.getLast?_append,
    List.getLast?_singleton, Option.some_or, List.dropLast_concat]

theorem annotateReduce_eq {feeds : List Feed} {ops : List LocalOp} (fed : reduceFeeds n = .ok feeds)
    (annotated : annotateOps n.id feeds n.reduce = .done ops) :
    annotateReduce n = .done { n with reduce := ops } := by
  simp only [annotateReduce, fed, annotated, Revision.map_done]

theorem annotatePackages_eq (combine : n.combine = none) {ops : List LocalOp}
    (annotated : annotateOps n.id (mapFeeds n) n.reduce = .done ops) :
    annotatePackages n = .done { n with reduce := ops } := by
  have fed : reduceFeeds n = .ok (mapFeeds n) := by simp only [reduceFeeds, combine]
  simp only [annotatePackages, annotateCombine, combine, Revision.done_bind,
    annotateReduce_eq fed annotated]

theorem markStreams_eq (clean : n.combineOps.any LocalOp.isStream = false) :
    markStreams n =
      .done { n with annotations := { n.annotations with stream := streamMarker n } } := by
  simp only [markStreams, clean, Bool.false_eq_true, ↓reduceIte]

theorem streamJoins_records (node chunkSize : Nat) {ops : List LocalOp} (records : Records ops) :
    streamJoins node chunkSize ops = .done ops := by
  induction ops with
  | nil => rfl
  | cons op rest ih =>
    have later := ih fun other member => records other (List.mem_cons_of_mem _ member)
    obtain ⟨r, rfl⟩ := records op List.mem_cons_self
    cases r <;> simp only [RecordOp.toLocal, streamJoins, later, Revision.map_done]

theorem streamJoins_tail (node chunkSize : Nat) {kind : PackageKind} {keys : List (List String)}
    {tail : List LocalOp} (after : Tail kind keys tail) :
    streamJoins node chunkSize tail = .done tail := by
  cases after with
  | group records | distinct records | coGroup records =>
    exact streamJoins_records node chunkSize records
  | computed records | join records =>
    simp only [streamJoins, streamJoins_records node chunkSize records, Revision.map_done]

theorem streamJoins_package (node chunkSize : Nat) {kind : PackageKind}
    (other : kind ≠ .join .inner) (inputs : Nat) (known : Option PackageAnnotation)
    {rest : List LocalOp} (later : streamJoins node chunkSize rest = .done rest) :
    streamJoins node chunkSize (.package kind inputs known :: rest) =
      .done (.package kind inputs known :: rest) := by
  cases kind with
  | join joinType =>
    cases joinType with
    | inner => exact absurd rfl other
    | left | right | full => simp only [streamJoins, later, Revision.map_done]
  | group | coGroup | distinct => simp only [streamJoins, later, Revision.map_done]

theorem streamLastInputs_eq (chunkSize : Nat) {ops : List LocalOp}
    (streamed : streamJoins n.id chunkSize n.reduce = .done ops) :
    streamLastInputs chunkSize n = .done { n with reduce := ops } := by
  simp only [streamLastInputs, streamed, Revision.map_done]

/-- The passes after the first, on a node without a combine plan. -/
theorem revise_plain (chunkSize : Nat) (combine : n.combine = none) {known ops : List LocalOp}
    (annotated : annotateOps n.id (mapFeeds n) n.reduce = .done known)
    (streamed : streamJoins n.id chunkSize known = .done ops) :
    ∃ a, ((annotatePackages n).bind markStreams).bind (streamLastInputs chunkSize) =
      .done { n with reduce := ops, annotations := a } := by
  refine ⟨{ n.annotations with stream := streamMarker { n with reduce := known } }, ?_⟩
  have clean : ({ n with reduce := known } : Node).combineOps.any LocalOp.isStream = false := by
    simp [Node.combineOps, combine]
  rw [annotatePackages_eq combine annotated, Revision.done_bind, markStreams_eq clean,
    Revision.done_bind]
  exact streamLastInputs_eq chunkSize streamed

/-- The passes after the first, on a node with a combine plan. -/
theorem revise_combined (chunkSize : Nat) {source : Source} {ops rest : List LocalOp}
    {keys : List String} {calls : List AggregateCall} (after : Records rest)
    (map : n.map = [⟨source, ops ++ [.aggregate keys calls .initial, .rearrange 0 keys]⟩])
    (combine : n.combine = some (combinePlan chunkSize keys calls))
    (reduce : n.reduce = .package .group 1 none :: .aggregate keys calls .final :: rest) :
    ∃ a, ((annotatePackages n).bind markStreams).bind (streamLastInputs chunkSize) = .done { n with
      combine := some ⟨[.package .group 1 (some (knownOf .group [keys])),
        .aggregate keys calls .intermediate, .rearrange 0 keys], chunkSize⟩
      reduce := .package .group 1 (some (knownOf .group [keys])) ::
        .aggregate keys calls .final :: rest
      annotations := a } := by
  let combineOps : List LocalOp := [.package .group 1 (some (knownOf .group [keys])),
    .aggregate keys calls .intermediate, .rearrange 0 keys]
  let reduceOps : List LocalOp :=
    .package .group 1 (some (knownOf .group [keys])) :: .aggregate keys calls .final :: rest
  have feeds : mapFeeds n = feedsOf [keys] := by
    have last := lastFeed?_append (ops ++ [.aggregate keys calls .initial]) 0 keys
    rw [List.append_assoc, List.singleton_append] at last
    simp only [mapFeeds, map, List.filterMap_cons, last, List.filterMap_nil]
    rfl
  have combined : annotateOps n.id (mapFeeds n) (combinePlan chunkSize keys calls).ops =
      .done combineOps := by
    rw [feeds]
    exact annotateOps_package n.id .group [keys] rfl
  have reduced : annotateOps n.id [⟨0, keys⟩] n.reduce = .done reduceOps := by
    have later : annotateOps n.id (feedsOf [keys]) (.aggregate keys calls .final :: rest) =
        .done (.aggregate keys calls .final :: rest) := by
      rw [annotateOps_cons rfl, annotateOps_records n.id _ after, Revision.map_done]
    rw [reduce]
    exact annotateOps_package n.id .group [keys] later
  have packages : annotatePackages n =
      .done { n with combine := some ⟨combineOps, chunkSize⟩, reduce := reduceOps } := by
    have first : annotateCombine n = .done { n with combine := some ⟨combineOps, chunkSize⟩ } := by
      simp only [annotateCombine, combine, combined, Revision.map_done]
      rfl
    rw [annotatePackages, first, Revision.done_bind]
    exact annotateReduce_eq rfl reduced
  have streamed : streamJoins n.id chunkSize reduceOps = .done reduceOps := by
    apply streamJoins_package n.id chunkSize (by simp) 1 _
    simp only [streamJoins, streamJoins_records n.id chunkSize after, Revision.map_done]
  let packaged : Node := { n with combine := some ⟨combineOps, chunkSize⟩, reduce := reduceOps }
  refine ⟨{ n.annotations with stream := streamMarker packaged }, ?_⟩
  rw [packages, Revision.done_bind, markStreams_eq rfl, Revision.done_bind]
  exact streamLastInputs_eq chunkSize streamed

/-- Where the calls after a drafted package split, they work on the only branch, by its keys. -/
theorem splits_of_tail {kind : PackageKind} {keys : List (List String)} {tail : List LocalOp}
    {inputs : Nat} (after : Tail kind keys tail)
    (splits : Splits (.package kind inputs none :: tail)) :
    kind = .group ∧ ∃ own calls rest, keys = [own] ∧ tail = .aggregate own calls .full :: rest ∧
      Records rest ∧ calls.all (·.function.isAlgebraic) = true := by
  obtain ⟨_, _, _, calls', _, rest', same, algebraic⟩ := splits
  simp only [List.cons.injEq, LocalOp.package.injEq] at same
  obtain ⟨⟨rfl, rfl, rfl⟩, rfl⟩ := same
  refine ⟨rfl, ?_⟩
  cases after with
  | computed records => exact ⟨_, _, _, rfl, rfl, records, algebraic⟩
  | group records =>
    obtain ⟨r, is⟩ := records _ List.mem_cons_self
    cases r <;> cases is

/-- The passes go through at a drafted node. -/
theorem Drafted.revise_eq_done (drafted : Drafted n) (chunkSize : Nat) (combines : Bool) :
    ∃ m, revise chunkSize combines n = .done m ∧ Optimized chunkSize combines n m := by
  obtain ⟨own, shaped⟩ := drafted.shaped
  generalize branchesOf : n.map.map Branch.ops = all at shaped
  generalize reduceOf : n.reduce = reduce at shaped
  cases shaped with
  | mapOnly records =>
    have whole : ¬ Splits n.reduce := by
      rintro ⟨_, _, _, _, _, _, same, _⟩
      simp [reduceOf] at same
    have first := addCombinePlan_or_done chunkSize fun (_ : combines = true) combinable =>
      whole (Combinable.splits combinable)
    have nothing : annotateOps n.id (mapFeeds n) n.reduce = .done [] := by rw [reduceOf]; rfl
    obtain ⟨a, through⟩ := revise_plain chunkSize drafted.combine nothing rfl
    have kept : ({ n with reduce := [], annotations := a } : Node) =
        { n with annotations := a } := by
      rw [← reduceOf]
    refine ⟨{ n with annotations := a }, ?_, .mapOnly a reduceOf⟩
    rw [revise, first, Revision.done_bind, through, kept]
  | @shuffled branches kind tail records after =>
    by_cases splits : combines = true ∧ Splits n.reduce
    · obtain ⟨rfl, split⟩ := splits
      rw [reduceOf] at split
      obtain ⟨rfl, keys, calls, rest, single, rfl, later, algebraic⟩ := splits_of_tail after split
      -- A group has one input, so the node has one branch, which shuffles by the keys of the calls.
      obtain ⟨⟨ops, own⟩, rfl⟩ := List.length_eq_one_iff.mp
        (by simpa using congrArg List.length single)
      simp only [List.map_cons, List.map_nil, List.cons.injEq, and_true] at single
      subst single
      obtain ⟨⟨source, whole⟩, map, rfl⟩ : ∃ b, n.map = [b] ∧
          b.ops = ops ++ [.rearrange 0 own] := by
        simpa [rearranged, List.map_eq_singleton_iff] using branchesOf
      have first := addCombinePlan_eq_combined chunkSize drafted.combine map reduceOf algebraic
      obtain ⟨a, through⟩ := @revise_combined { n with
        map := [⟨source, ops ++ [.aggregate own calls .initial, .rearrange 0 own]⟩]
        combine := some (combinePlan chunkSize own calls)
        reduce := .package .group 1 none :: .aggregate own calls .final :: rest }
        chunkSize source ops rest own calls later rfl rfl rfl
      refine ⟨_, ?_, .combined a rfl map (records _ List.mem_cons_self) reduceOf algebraic later⟩
      rw [revise, if_pos rfl, first, Revision.done_bind, through]
    · have first := addCombinePlan_or_done chunkSize fun wanted combinable =>
        splits ⟨wanted, Combinable.splits combinable⟩
      have known : annotateOps n.id (mapFeeds n) n.reduce =
          .done (.package kind branches.length
            (some (knownOf kind (branches.map Prod.snd))) :: tail) := by
        have count : (branches.map Prod.snd).length = branches.length := List.length_map _
        rw [mapFeeds_eq branchesOf, reduceOf, ← count]
        exact annotateOps_package n.id kind _ (annotateOps_tail n.id _ after)
      by_cases inner : kind = .join .inner
      · subst inner
        obtain ⟨rest, rfl, later⟩ : ∃ rest, tail = .flatten branches.length :: rest ∧
            Records rest := by
          cases after with
          | join records => exact ⟨_, by rw [List.length_map], records⟩
        have streamed := streamJoins_records n.id chunkSize later
        obtain ⟨a, through⟩ := revise_plain chunkSize drafted.combine known
          (by simp only [streamJoins, ↓reduceIte, streamed, Revision.map_done]; rfl)
        refine ⟨_, ?_, .streamed a branchesOf records reduceOf later⟩
        rw [revise, first, Revision.done_bind, through]
      · obtain ⟨a, through⟩ := revise_plain chunkSize drafted.combine known
          (streamJoins_package n.id chunkSize inner _ _ (streamJoins_tail n.id chunkSize after))
        refine ⟨_, ?_, .annotated a branchesOf records reduceOf after inner splits⟩
        rw [revise, first, Revision.done_bind, through]

end Wavefront.Optimization
