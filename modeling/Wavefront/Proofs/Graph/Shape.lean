import Wavefront.Proofs.Dataflow.Term
set_option autoImplicit false

/-!
The shape of drafted jobs. A job without shuffle has one branch of operations on single records. In
a job with a shuffle the branch at each index ends in the rearrange of that index, the reduce plan
starts with the package of all branches, and what follows the package is what its kind calls for,
and then operations on single records.
-/
namespace Wavefront

/-- Operations on single records only. -/
def Records (ops : List LocalOp) : Prop := ∀ op ∈ ops, ∃ r : RecordOp, op = r.toLocal

/-- What follows a package in a reduce plan, given the keys of each input. -/
inductive Tail : PackageKind → List (List String) → List LocalOp → Prop where
  | group {keys : List String} {rest : List LocalOp} (records : Records rest) :
      Tail .group [keys] rest
  | computed {keys : List String} {calls : List AggregateCall} {rest : List LocalOp}
      (records : Records rest) : Tail .group [keys] (.aggregate keys calls .full :: rest)
  | distinct {rest : List LocalOp} (records : Records rest) : Tail .distinct [[]] rest
  | coGroup {keys : List (List String)} {rest : List LocalOp} (records : Records rest) :
      Tail .coGroup keys rest
  | join {joinType : JoinType} {keys : List (List String)} {rest : List LocalOp}
      (records : Records rest) : Tail (.join joinType) keys (.flatten keys.length :: rest)

/-- Branches that end in the rearrange of their index. -/
def rearranged (branches : List (List LocalOp × List String)) : List (List LocalOp) :=
  branches.mapIdx fun index b => b.1 ++ [.rearrange index b.2]

/-- The operations of the branches and of the reduce plan of a drafted job, with the keys of its
first branch. -/
inductive Shaped : List (List LocalOp) → List LocalOp → List String → Prop where
  | mapOnly {ops : List LocalOp} {keys : List String} (records : Records ops) : Shaped [ops] [] keys
  | shuffled {branches : List (List LocalOp × List String)} {kind : PackageKind}
      {tail : List LocalOp}
      (records : ∀ b ∈ branches, Records b.1) (after : Tail kind (branches.map Prod.snd) tail) :
      Shaped (rearranged branches) (.package kind branches.length none :: tail)
        ((branches.head?.map Prod.snd).getD [])

theorem Records.append {ops : List LocalOp} (records : Records ops) (r : RecordOp) :
    Records (ops ++ [r.toLocal]) := by
  intro op member
  rcases List.mem_append.mp member with old | new
  · exact records op old
  · exact ⟨r, List.mem_singleton.mp new⟩

theorem Records.nil : Records [] := by
  intro op member
  cases member

theorem Tail.append {kind : PackageKind} {keys : List (List String)} {tail : List LocalOp}
    (after : Tail kind keys tail) (r : RecordOp) : Tail kind keys (tail ++ [r.toLocal]) := by
  cases after with
  | group records => exact .group (records.append r)
  | computed records => exact .computed (records.append r)
  | distinct records => exact .distinct (records.append r)
  | coGroup records => exact .coGroup (records.append r)
  | join records => exact .join (records.append r)

/-- No second package follows. -/
theorem Tail.no_package {kind other : PackageKind} {keys : List (List String)} {tail : List LocalOp}
    {inputs : Nat} {known : Option PackageAnnotation} (after : Tail kind keys tail) :
    .package other inputs known ∉ tail := by
  have none {rest : List LocalOp} (records : Records rest) :
    .package other inputs known ∉ rest := by
    intro member
    obtain ⟨r, is⟩ := records _ member
    cases r <;> cases is
  cases after with
  | group records | distinct records | coGroup records => exact none records
  | computed records | join records =>
    intro member
    rcases List.mem_cons.mp member with first | later
    · cases first
    · exact none records later

theorem Tail.group_single {keys : List (List String)} {tail : List LocalOp}
    (after : Tail .group keys tail) : ∃ only, keys = [only] := by
  cases after with
  | group records => exact ⟨_, rfl⟩
  | computed records => exact ⟨_, rfl⟩

namespace Shaped

variable {branches : List (List LocalOp)} {reduce : List LocalOp} {keys : List String}

theorem one_branch (shaped : Shaped branches [] keys) : ∃ ops, branches = [ops] ∧ Records ops := by
  cases shaped with
  | mapOnly records => exact ⟨_, rfl, records⟩

theorem push (shaped : Shaped branches reduce keys) (shuffles : reduce ≠ []) (r : RecordOp) :
    Shaped branches (reduce ++ [r.toLocal]) keys := by
  cases shaped with
  | mapOnly records => exact absurd rfl shuffles
  | shuffled records after => exact .shuffled records (after.append r)

theorem package_one {ops : List LocalOp} (records : Records ops) {kind : PackageKind}
    (alone : Tail kind [keys] []) :
    Shaped [ops ++ [.rearrange 0 keys]] [.package kind 1 none] keys :=
  @Shaped.shuffled [(ops, keys)] kind [] (by simpa using records) alone

/-- A job whose reduce plan ends in the package of a group does nothing else after the shuffle. -/
theorem ends_in_group {inputs : Nat} {known : Option PackageAnnotation}
    (shaped : Shaped branches reduce keys)
    (last : reduce.getLast? = some (.package .group inputs known)) :
    ∃ ops, Records ops ∧ branches = [ops ++ [.rearrange 0 keys]] ∧
      reduce = [.package .group 1 none] := by
  cases shaped with
  | mapOnly records => simp at last
  | @shuffled feeds kind tail records after =>
    have alone : tail = [] := by
      cases tail with
      | nil => rfl
      | cons next rest =>
        rw [List.getLast?_cons_cons] at last
        exact absurd (List.mem_of_getLast? last) after.no_package
    subst alone
    simp only [List.getLast?_singleton, Option.some.injEq, LocalOp.package.injEq] at last
    obtain ⟨rfl, rfl, rfl⟩ := last
    obtain ⟨only, single⟩ := after.group_single
    obtain ⟨⟨ops, own⟩, rfl⟩ := List.length_eq_one_iff.mp
      (by simpa using congrArg List.length single)
    exact ⟨ops, records (ops, own) List.mem_cons_self, rfl, rfl⟩

theorem compute {ops : List LocalOp} (records : Records ops) (calls : List AggregateCall) :
    Shaped [ops ++ [.rearrange 0 keys]]
      [.package .group 1 none, .aggregate keys calls .full] keys :=
  @Shaped.shuffled [(ops, keys)] .group _ (by simpa using records) (.computed .nil)

end Shaped

end Wavefront
