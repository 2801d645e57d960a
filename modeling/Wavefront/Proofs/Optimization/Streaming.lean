import Wavefront.Proofs.Optimization.Idempotence
set_option autoImplicit false

/-!
The streaming of joins as a transformation of lists. A reduce plan falls into stretches: the package of
an inner join with the cross product behind it makes one, and every other operation makes one of its own.
Main statement: joins are streamed exactly if each package of an inner join is followed at once by its
cross product; then each stretch becomes one operation, in its place, and otherwise this holds up to the
first package that is not so followed, from which on nothing is changed.
-/
namespace Wavefront.Optimization

/-- Each package of an inner join is followed at once by a cross product of as many inputs. -/
def JoinsPaired (ops : List LocalOp) : Prop :=
  ∀ (position inputs : Nat) (known : Option PackageAnnotation),
    ops[position]? = some (.package (.join .inner) inputs known) →
      ops[position + 1]? = some (.flatten inputs)

/-- A stretch of a reduce plan. -/
inductive Stretch where
  | other (op : LocalOp) (no_join : ∀ inputs known, op ≠ .package (.join .inner) inputs known)
  /-- A package and its cross product, with the number of the last input. -/
  | join (last : Nat) (known : Option PackageAnnotation)

namespace Stretch

def ops : Stretch → List LocalOp
  | other op _ => [op]
  | join last known => [.package (.join .inner) (last + 1) known, .flatten (last + 1)]

def streamed (chunkSize : Nat) : Stretch → LocalOp
  | other op _ => op
  | join last known => .joinPackage (last + 1) .inner chunkSize last known

end Stretch

/-- What is said of the package of an inner join before something else than its cross product. -/
def unpairedFault (node inputs : Nat) (rest : List LocalOp) : PassFault :=
  match rest.head? with
  | some (.flatten flattened) => .flattenMismatch node inputs flattened
  | _ => .noFlatten node

/-- How the inner joins of some operations are streamed. -/
structure StreamsJoins (node chunkSize : Nat) (ops : List LocalOp) : Prop where
  done_iff : (∃ ops', streamJoins node chunkSize ops = .done ops') ↔ JoinsPaired ops
  done : ∀ ops', streamJoins node chunkSize ops = .done ops' → ∃! stretches : List Stretch,
    ops = stretches.flatMap Stretch.ops ∧ ops' = stretches.map (Stretch.streamed chunkSize)
  stopped : ∀ r, streamJoins node chunkSize ops = r → r.fault ≠ none →
    ∃ (stretches : List Stretch) (inputs : Nat) (known : Option PackageAnnotation)
      (rest : List LocalOp),
      ops = stretches.flatMap Stretch.ops ++ .package (.join .inner) inputs known :: rest ∧
      rest.head? ≠ some (.flatten inputs) ∧
      r = .stopped
        (stretches.map (Stretch.streamed chunkSize) ++ .package (.join .inner) inputs known :: rest)
        (unpairedFault node inputs rest)

theorem joinsPaired_nil : JoinsPaired [] := by
  intro position inputs known there
  simp at there

theorem joinsPaired_cons {op : LocalOp} {rest : List LocalOp} : JoinsPaired (op :: rest) ↔
    (∀ inputs known, op = .package (.join .inner) inputs known → rest.head? = some (.flatten inputs)) ∧
      JoinsPaired rest := by
  constructor
  · intro paired
    refine ⟨fun inputs known is => ?_, fun position inputs known there => ?_⟩
    · rw [List.head?_eq_getElem?]
      exact paired 0 inputs known (congrArg some is)
    · exact paired (position + 1) inputs known there
  · rintro ⟨first, later⟩ position inputs known there
    cases position with
    | zero =>
      rw [List.getElem?_cons_succ, ← List.head?_eq_getElem?]
      exact first inputs known (Option.some.inj there)
    | succ position => exact later position inputs known there

theorem streamJoins_cons (node chunkSize : Nat) {op : LocalOp} (rest : List LocalOp)
    (no_join : ∀ inputs known, op ≠ .package (.join .inner) inputs known) :
    streamJoins node chunkSize (op :: rest) = (streamJoins node chunkSize rest).map (op :: ·) := by
  rw [streamJoins]
  · intro inputs known flattened rest' is
    exact absurd is (no_join inputs known)
  · exact no_join

/-- A package that is not followed by its cross product is where streaming stops. -/
theorem streamJoins_unpaired (node chunkSize : Nat) {inputs : Nat} {known : Option PackageAnnotation}
    {rest : List LocalOp} (unpaired : rest.head? ≠ some (.flatten inputs)) :
    streamJoins node chunkSize (.package (.join .inner) inputs known :: rest) =
      .stopped (.package (.join .inner) inputs known :: rest) (unpairedFault node inputs rest) := by
  cases rest with
  | nil => rfl
  | cons next later =>
    cases next with
    | flatten flattened =>
      have different : flattened ≠ inputs := by
        rintro rfl
        exact unpaired rfl
      rw [streamJoins, if_neg different]
      rfl
    | _ => rfl

namespace Stretch

variable (node chunkSize : Nat)

/-- The stretches in front of some operations are streamed by themselves. -/
theorem streamJoins_append (stretches : List Stretch) (rest : List LocalOp) :
    streamJoins node chunkSize (stretches.flatMap ops ++ rest) =
      (streamJoins node chunkSize rest).map (stretches.map (streamed chunkSize) ++ ·) := by
  induction stretches with
  | nil => rfl
  | cons first later ih =>
    cases first with
    | other op no_join =>
      show streamJoins node chunkSize (op :: (later.flatMap ops ++ rest)) = _
      rw [streamJoins_cons node chunkSize _ no_join, ih]
      rfl
    | join last known =>
      show streamJoins node chunkSize (.package (.join .inner) (last + 1) known ::
        .flatten (last + 1) :: (later.flatMap ops ++ rest)) = _
      rw [streamJoins, if_pos rfl, ih]
      rfl

/-- They are paired among themselves. -/
theorem joinsPaired_append (stretches : List Stretch) (rest : List LocalOp) :
    JoinsPaired (stretches.flatMap ops ++ rest) ↔ JoinsPaired rest := by
  induction stretches with
  | nil => rfl
  | cons first later ih =>
    cases first with
    | other op no_join =>
      show JoinsPaired (op :: (later.flatMap ops ++ rest)) ↔ _
      rw [joinsPaired_cons, ih]
      exact and_iff_right fun inputs known is => absurd is (no_join inputs known)
    | join last known =>
      show JoinsPaired (.package (.join .inner) (last + 1) known ::
        .flatten (last + 1) :: (later.flatMap ops ++ rest)) ↔ _
      rw [joinsPaired_cons, joinsPaired_cons, ih]
      simp

/-- Operations fall into stretches in one way only. -/
theorem flatMap_ops_injective {first second : List Stretch}
    (same : first.flatMap ops = second.flatMap ops) : first = second := by
  induction first generalizing second with
  | nil =>
    cases second with
    | nil => rfl
    | cons s rest => cases s <;> cases same
  | cons s rest ih =>
    cases second with
    | nil => cases s <;> cases same
    | cons t rest' =>
      cases s with
      | other op no_join =>
        cases t with
        | other op' no_join' =>
          obtain ⟨rfl, later⟩ := List.cons.inj same
          rw [ih later]
        | join last known => exact absurd (List.cons.inj same).1 (no_join _ _)
      | join last known =>
        cases t with
        | other op no_join => exact absurd (List.cons.inj same).1.symm (no_join _ _)
        | join last' known' =>
          obtain ⟨package, later⟩ := List.cons.inj same
          cases package
          rw [ih (List.cons.inj later).2]

end Stretch

/-- Operations are stretches, up to the first package of an inner join without its cross product. -/
theorem exists_stretches {ops : List LocalOp}
    (supplied : ∀ inputs known, .package (.join .inner) inputs known ∈ ops → 0 < inputs) :
    ∃ stretches : List Stretch, ops = stretches.flatMap Stretch.ops ∨
      ∃ (inputs : Nat) (known : Option PackageAnnotation) (rest : List LocalOp),
        ops = stretches.flatMap Stretch.ops ++ .package (.join .inner) inputs known :: rest ∧
          rest.head? ≠ some (.flatten inputs) := by
  -- The cases are those of the streaming itself, which takes two operations at a time at a join.
  fun_induction streamJoins 0 0 ops with
  | case1 => exact ⟨[], .inl rfl⟩
  | case2 known inputs rest ih =>
    have positive := supplied inputs known List.mem_cons_self
    obtain ⟨last, rfl⟩ : ∃ last, inputs = last + 1 := ⟨inputs - 1, by omega⟩
    obtain ⟨stretches, cut⟩ := ih fun inputs known member =>
      supplied inputs known (List.mem_cons_of_mem _ (List.mem_cons_of_mem _ member))
    refine ⟨.join last known :: stretches, ?_⟩
    rcases cut with rfl | ⟨inputs, known', rest', rfl, unpaired⟩
    · exact .inl rfl
    · exact .inr ⟨inputs, known', rest', rfl, unpaired⟩
  | case3 inputs known flattened rest different =>
    refine ⟨[], .inr ⟨inputs, known, _, rfl, ?_⟩⟩
    intro same
    cases same
    exact different rfl
  | case4 inputs known rest noFlatten =>
    refine ⟨[], .inr ⟨inputs, known, rest, rfl, ?_⟩⟩
    intro same
    cases rest with
    | nil => cases same
    | cons next later =>
      cases same
      exact noFlatten inputs later rfl
  | case5 op rest noFlatten no_join ih =>
    obtain ⟨stretches, cut⟩ := ih fun inputs known member =>
      supplied inputs known (List.mem_cons_of_mem _ member)
    refine ⟨.other op (fun inputs known => no_join inputs known) :: stretches, ?_⟩
    rcases cut with rfl | ⟨inputs, known', rest', rfl, unpaired⟩
    · exact .inl rfl
    · exact .inr ⟨inputs, known', rest', rfl, unpaired⟩

/-- Streaming replaces each paired join in its place, and goes through exactly if all joins are paired. -/
theorem streamJoins_exact (node chunkSize : Nat) (ops : List LocalOp)
    (supplied : ∀ inputs known, .package (.join .inner) inputs known ∈ ops → 0 < inputs) :
    StreamsJoins node chunkSize ops := by
  obtain ⟨stretches, rfl | ⟨inputs, known, rest, rfl, unpaired⟩⟩ := exists_stretches supplied
  · have through : streamJoins node chunkSize (stretches.flatMap Stretch.ops) =
        .done (stretches.map (Stretch.streamed chunkSize)) := by
      have split := Stretch.streamJoins_append node chunkSize stretches []
      rw [List.append_nil] at split
      rw [split, streamJoins, Revision.map_done, List.append_nil]
    have paired : JoinsPaired (stretches.flatMap Stretch.ops) := by
      have split := (Stretch.joinsPaired_append stretches []).mpr joinsPaired_nil
      rwa [List.append_nil] at split
    refine ⟨iff_of_true ⟨_, through⟩ paired, fun ops' is => ?_, fun r is stopped => ?_⟩
    · rw [through, Revision.done_inj] at is
      refine ⟨stretches, ⟨rfl, is.symm⟩, ?_⟩
      rintro other ⟨same, -⟩
      exact (Stretch.flatMap_ops_injective same).symm
    · rw [← is, through] at stopped
      exact absurd rfl stopped
  · have through : streamJoins node chunkSize
        (stretches.flatMap Stretch.ops ++ .package (.join .inner) inputs known :: rest) = .stopped
          (stretches.map (Stretch.streamed chunkSize) ++ .package (.join .inner) inputs known :: rest)
          (unpairedFault node inputs rest) := by
      rw [Stretch.streamJoins_append, streamJoins_unpaired node chunkSize unpaired]
      rfl
    have broken : ¬ JoinsPaired
        (stretches.flatMap Stretch.ops ++ .package (.join .inner) inputs known :: rest) := by
      rw [Stretch.joinsPaired_append, joinsPaired_cons]
      rintro ⟨first, _⟩
      exact unpaired (first inputs known rfl)
    refine ⟨iff_of_false ?_ broken, fun ops' is => ?_, fun r is _ => ?_⟩
    · rintro ⟨ops', is⟩
      cases congrArg Revision.fault (through.symm.trans is)
    · cases congrArg Revision.fault (through.symm.trans is)
    · exact ⟨stretches, inputs, known, rest, rfl, unpaired, is.symm.trans through⟩

/-- Two joins one right after the other, a cross product of no join, an outer join, and an inner join at
the end that has lost its cross product. -/
def brokenJoins : List LocalOp :=
  [.package (.join .inner) 2 (some ⟨[], .keyStripped⟩), .flatten 2, .package (.join .inner) 3 none,
    .flatten 3, .flatten 3, .package (.join .left) 2 none, .flatten 2, .package (.join .inner) 1 none]

/-- The joins before the broken one are streamed, and all else is left as it is. -/
theorem streamJoins_exact_brokenJoins :
    (∀ inputs known, .package (.join .inner) inputs known ∈ brokenJoins → 0 < inputs) ∧
    streamJoins 4 250 brokenJoins = .stopped
      [.joinPackage 2 .inner 250 1 (some ⟨[], .keyStripped⟩), .joinPackage 3 .inner 250 2 none,
        .flatten 3, .package (.join .left) 2 none, .flatten 2, .package (.join .inner) 1 none]
      (.noFlatten 4) ∧
    StreamsJoins 4 250 brokenJoins := by
  have supplied : ∀ inputs known, .package (.join .inner) inputs known ∈ brokenJoins → 0 < inputs := by
    intro inputs known member
    simp [brokenJoins] at member
    omega
  exact ⟨supplied, rfl, streamJoins_exact 4 250 brokenJoins supplied⟩

end Wavefront.Optimization
