import Mathlib.Data.Fintype.EquivFin
import Mathlib.Logic.Relation
import Wavefront.Proofs.Precedence.Sorting
set_option autoImplicit false

/-!
Legal orders. An order is legal if it names every vertex once, after all it depends on. Main
statements: a sort never comes to a counter that it cannot lower; it succeeds exactly if every edge that
is counted leaves a vertex and no vertex depends on itself; and the greedy order it finds is the least
of all legal orders.
-/
namespace Wavefront.Precedence

def Acyclic (depends : Nat → Nat → Prop) : Prop := ∀ v, ¬ Relation.TransGen depends v v

/-- An edge leads from the vertex `u` to `v`. -/
def Joins (n : Nat) (successors : Nat → List Nat) (u v : Nat) : Prop := u < n ∧ v ∈ successors u

/-- Every vertex has its turn once, after those from which an edge leads to it. -/
structure Legal (n : Nat) (successors : Nat → List Nat) (order : List Nat) : Prop where
  perm : order.Perm (List.range n)
  after : ∀ before v rest, order = before ++ v :: rest → ∀ u, Joins n successors u v → u ∈ before

/-- Every edge that is counted leaves a vertex. -/
def Exact (n : Nat) (incoming : Nat → Nat) (successors : Nat → List Nat) : Prop :=
  ∀ v < n, incoming v = ((List.range n).flatMap successors).count v

/-- The states that a sort comes through. -/
inductive Passes (successors : Nat → List Nat) : State → State → Prop where
  | refl (s : State) : Passes successors s s
  | take {pending ready : List Nat} {v : Nat} {s s' : State}
      (closed : State.releaseAll? ⟨pending, ready⟩ (successors v) = some s)
      (later : Passes successors s s') : Passes successors ⟨pending, v :: ready⟩ s'

variable {n : Nat} {incoming : Nat → Nat} {successors : Nat → List Nat}

/-- Where ranks rise, nothing depends on itself. -/
theorem acyclic_of_rank {depends : Nat → Nat → Prop} (rank : Nat → Nat)
    (rises : ∀ u v, depends u v → rank u < rank v) : Acyclic depends := by
  have higher : ∀ u v, Relation.TransGen depends u v → rank u < rank v := by
    intro u v way
    induction way with
    | single edge => exact rises _ _ edge
    | tail _ edge ih => exact Nat.lt_trans ih (rises _ _ edge)
  intro v circle
  exact Nat.lt_irrefl _ (higher v v circle)

/-- Among finitely many vertices, one can go back along dependencies only so long. -/
theorem Acyclic.wellFounded {depends : Nat → Nat → Prop} (acyclic : Acyclic depends)
    (within : ∀ u v, depends u v → u < n) : WellFounded depends := by
  let before (a b : Fin n) : Prop := Relation.TransGen depends a b
  have transitive : IsTrans (Fin n) before := ⟨fun _ _ _ => Relation.TransGen.trans⟩
  have irreflexive : Std.Irrefl before := ⟨fun a => acyclic a⟩
  have inside : ∀ a : Fin n, Acc depends a := by
    intro a
    induction a using (Finite.wellFounded_of_trans_of_irrefl before).induction with
    | _ a ih =>
      constructor
      intro u edge
      exact ih ⟨u, within u a edge⟩ (.single edge)
  constructor
  intro v
  constructor
  intro u edge
  exact inside ⟨u, within u v edge⟩

theorem Acyclic.swap {depends : Nat → Nat → Prop} (acyclic : Acyclic depends) :
    Acyclic (Function.swap depends) := by
  intro v circle
  exact acyclic v (Relation.transGen_swap.mp circle)

/-- A vertex that is not free waits for one that is not taken. -/
theorem exists_open {taken : List Nat} {w : Nat} (distinct : taken.Nodup)
    (vertices : ∀ u ∈ taken, u < n)
    (counted : incoming w = ((List.range n).flatMap successors).count w)
    (waits : ¬ Free incoming successors taken w) : ∃ u, u ∉ taken ∧ Joins n successors u w := by
  by_contra none
  apply waits
  have left : (((List.range n).filter fun u => !decide (u ∈ taken)).flatMap successors).count w = 0 := by
    apply List.count_eq_zero_of_not_mem
    intro member
    obtain ⟨u, among, edge⟩ := List.mem_flatMap.mp member
    obtain ⟨vertex, untaken⟩ := List.mem_filter.mp among
    exact none ⟨u, by simpa using untaken, List.mem_range.mp vertex, edge⟩
  have same : ((List.range n).filter (· ∈ taken)).Perm taken := by
    apply (List.perm_ext_iff_of_nodup (List.nodup_range.filter _) distinct).mpr
    intro u
    simp only [List.mem_filter, List.mem_range, decide_eq_true_eq, and_iff_right_iff_imp]
    exact vertices u
  have counts := ((List.filter_append_perm (· ∈ taken) (List.range n)).flatMap_right successors).count_eq w
  rw [List.flatMap_append, List.count_append, left, (same.flatMap_right successors).count_eq w] at counts
  unfold Free
  rw [counted]
  exact counts

namespace Greedy

/-- What a sort has taken at an earlier moment. -/
theorem of_append {taken rest : List Nat}
    (greedy : Greedy n incoming successors (taken ++ rest)) : Greedy n incoming successors taken := by
  induction rest using List.reverseRecOn with
  | nil => rwa [List.append_nil] at greedy
  | append_singleton rest last ih =>
    rw [← List.append_assoc] at greedy
    generalize same : taken ++ rest ++ [last] = whole at greedy
    cases greedy with
    | nil => simp at same
    | snoc earlier =>
      rw [(List.append_inj' same rfl).1] at ih
      exact ih earlier

/-- When a vertex has its turn, no smaller one is free. -/
theorem le_of_free {before rest : List Nat} {v w : Nat}
    (greedy : Greedy n incoming successors (before ++ v :: rest)) (vertex : w < n)
    (fresh : w ∉ before) (free : Free incoming successors before w) : v ≤ w := by
  have split : before ++ v :: rest = (before ++ [v]) ++ rest := by simp
  rw [split] at greedy
  have taken := greedy.of_append
  generalize same : before ++ [v] = whole at taken
  cases taken with
  | nil => simp at same
  | snoc earlier _ _ _ least =>
    obtain ⟨rfl, last⟩ := List.append_inj' same rfl
    rw [List.singleton_inj.mp last]
    exact least w vertex fresh free

/-- Where nothing depends on itself, no vertex is left. -/
theorem mem_of_exhausted {taken : List Nat} (greedy : Greedy n incoming successors taken)
    (exhausted : Exhausted n incoming successors taken) (counted : Exact n incoming successors)
    (acyclic : Acyclic (Joins n successors)) {v : Nat} (vertex : v < n) : v ∈ taken := by
  have founded : WellFounded (Joins n successors) := acyclic.wellFounded fun _ _ edge => edge.1
  induction v using founded.induction with
  | _ v ih =>
    by_contra fresh
    obtain ⟨u, missing, edge⟩ := exists_open greedy.nodup (fun _ member => greedy.lt member)
      (counted v vertex) (exhausted v vertex fresh)
    exact missing (ih u edge edge.1)

/-- A greedy order of all vertices is legal. -/
theorem legal (covered : Covered n incoming successors) {order : List Nat}
    (greedy : Greedy n incoming successors order) (perm : order.Perm (List.range n)) :
    Legal n successors order := by
  refine ⟨perm, ?_⟩
  intro before v rest split u edge
  rw [split] at greedy
  exact greedy.mem_before covered edge.1 edge.2

/-- In a greedy order of all vertices every counter was exact. -/
theorem exact (covered : Covered n incoming successors) {order : List Nat}
    (greedy : Greedy n incoming successors order) (perm : order.Perm (List.range n)) :
    Exact n incoming successors := by
  intro v vertex
  have member : v ∈ order := perm.mem_iff.mpr (List.mem_range.mpr vertex)
  obtain ⟨before, rest, rfl⟩ := List.append_of_mem member
  have free : Free incoming successors before v := greedy.free_of_split
  have sub : before.Sublist (before ++ v :: rest) := List.sublist_append_left _ _
  have least := count_le_of_subperm successors (sub.subperm.trans greedy.subperm) v
  have most := covered.counted v vertex
  unfold Free at free
  omega

end Greedy

namespace Legal

variable {order : List Nat}

theorem nodup (legal : Legal n successors order) : order.Nodup :=
  legal.perm.nodup_iff.mpr List.nodup_range

/-- The place in a legal order rises along the edges. -/
theorem idxOf_lt (legal : Legal n successors order) {u v : Nat} (edge : Joins n successors u v)
    (vertex : v < n) : order.idxOf u < order.idxOf v := by
  have member : v ∈ order := legal.perm.mem_iff.mpr (List.mem_range.mpr vertex)
  obtain ⟨before, rest, split⟩ := List.append_of_mem member
  have among := legal.after before v rest split u edge
  have distinct := legal.nodup
  rw [split] at distinct ⊢
  have fresh : v ∉ before := fun again =>
    (List.nodup_append.mp distinct).2.2 v again v List.mem_cons_self rfl
  rw [List.idxOf_append_of_mem among, List.idxOf_append_of_notMem fresh]
  exact Nat.lt_add_right _ (List.idxOf_lt_length_of_mem among)

theorem acyclic (legal : Legal n successors order)
    (within : ∀ u < n, ∀ v ∈ successors u, v < n) : Acyclic (Joins n successors) :=
  acyclic_of_rank order.idxOf fun u v edge => legal.idxOf_lt edge (within u edge.1 v edge.2)

/-- A vertex is free when its turn comes. -/
theorem free (legal : Legal n successors order) (counted : Exact n incoming successors)
    {before rest : List Nat} {v : Nat} (split : order = before ++ v :: rest) :
    Free incoming successors before v := by
  have distinct := legal.nodup
  have perm := legal.perm
  rw [split] at distinct perm
  have vertices : ∀ u ∈ before ++ v :: rest, u < n := fun u member =>
    List.mem_range.mp (perm.mem_iff.mp member)
  by_contra waits
  obtain ⟨u, missing, edge⟩ := exists_open (List.nodup_append.mp distinct).1
    (fun u member => vertices u (List.mem_append_left _ member)) (counted v (vertices v (by simp))) waits
  exact missing (legal.after before v rest split u edge)

end Legal

/-- What is left of a greedy order comes first, lexicographically, among what is left of the legal ones
that begin like it. -/
theorem Greedy.eq_or_lex_append (counted : Exact n incoming successors) {taken rest other : List Nat}
    (greedy : Greedy n incoming successors (taken ++ rest))
    (legal : Legal n successors (taken ++ other)) : rest = other ∨ List.Lex (· < ·) rest other := by
  induction rest generalizing taken other with
  | nil =>
    cases other with
    | nil => exact .inl rfl
    | cons w other => exact .inr .nil
  | cons v rest ih =>
    cases other with
    | nil =>
      have member : v ∈ taken := by
        have among : v ∈ List.range n := List.mem_range.mpr (greedy.lt (by simp))
        simpa using legal.perm.mem_iff.mpr among
      exact absurd rfl ((List.nodup_append.mp greedy.nodup).2.2 v member v List.mem_cons_self)
    | cons w other =>
      have fresh : w ∉ taken := fun again =>
        (List.nodup_append.mp legal.nodup).2.2 w again w List.mem_cons_self rfl
      have vertex : w < n := List.mem_range.mp (legal.perm.mem_iff.mp (by simp))
      have lower : v ≤ w := greedy.le_of_free vertex fresh (legal.free counted rfl)
      rcases Nat.lt_or_eq_of_le lower with less | rfl
      · exact .inr (.rel less)
      · have longer : Greedy n incoming successors ((taken ++ [v]) ++ rest) := by simpa using greedy
        have further : Legal n successors ((taken ++ [v]) ++ other) := by simpa using legal
        exact (ih longer further).imp (congrArg (v :: ·)) .cons

/-- A greedy order of all vertices is the least of the legal ones. -/
theorem Greedy.eq_or_lex_of_legal (counted : Exact n incoming successors) {order other : List Nat}
    (greedy : Greedy n incoming successors order) (legal : Legal n successors other) :
    order = other ∨ List.Lex (· < ·) order other := by
  have whole : Greedy n incoming successors ([] ++ order) := greedy
  exact Greedy.eq_or_lex_append counted whole legal

/-- A sort succeeds exactly if every edge that is counted leaves a vertex and nothing depends on
itself. -/
theorem order_eq_ok_iff (covered : Covered n incoming successors) :
    (∃ result, order (List.range n) incoming successors = .ok result) ↔
      Exact n incoming successors ∧ Acyclic (Joins n successors) := by
  constructor
  · rintro ⟨result, sorted⟩
    obtain ⟨greedy, perm⟩ := greedy_of_order covered sorted
    exact ⟨greedy.exact covered perm, (greedy.legal covered perm).acyclic covered.within⟩
  · rintro ⟨counted, acyclic⟩
    obtain ⟨taken, greedy, exhausted, outcome⟩ := order_spec covered
    have all : (List.range n).Subperm taken := by
      apply List.subperm_of_subset List.nodup_range
      intro v member
      exact greedy.mem_of_exhausted exhausted counted acyclic (List.mem_range.mp member)
    have long := all.length_le
    have short := greedy.length_le
    rw [List.length_range] at long
    have full : taken.length = n := by omega
    exact ⟨taken, outcome.trans (by simp only [full, ↓reduceIte])⟩

/-- What a sort has taken stays greedy, and its counters stay right. -/
theorem Passes.tracks (covered : Covered n incoming successors) {s s' : State}
    (passes : Passes successors s s') {taken : List Nat} (greedy : Greedy n incoming successors taken)
    (tracks : Tracks n incoming successors taken s) :
    ∃ more, Greedy n incoming successors more ∧ Tracks n incoming successors more s' := by
  induction passes generalizing taken with
  | refl s => exact ⟨taken, greedy, tracks⟩
  | take closed _ ih =>
    obtain ⟨next, released, greedyNext, tracksNext⟩ := tracks.step covered greedy
    rw [closed] at released
    cases released
    exact ih greedyNext tracksNext

/-- A sort never comes to a counter that it cannot lower. -/
theorem exists_released (covered : Covered n incoming successors) {pending ready : List Nat} {v : Nat}
    (passes : Passes successors (start (List.range n) incoming) ⟨pending, v :: ready⟩) :
    ∃ s, State.releaseAll? ⟨pending, ready⟩ (successors v) = some s := by
  obtain ⟨taken, greedy, tracks⟩ := passes.tracks covered .nil (start_tracks n incoming successors)
  obtain ⟨s, closed, _, _⟩ := tracks.step covered greedy
  exact ⟨s, closed⟩

end Wavefront.Precedence
