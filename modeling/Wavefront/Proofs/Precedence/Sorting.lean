import Wavefront.Proofs.Precedence.Greedy
set_option autoImplicit false

/-!
A sort computes a greedy order. The counters say at every moment how many edges into a vertex are
open, and the ready list holds the vertices of counter zero that are not taken; both facts survive a
step.
-/
namespace Wavefront.Precedence

variable {n : Nat} {incoming : Nat → Nat} {successors : Nat → List Nat}

/-- What closing the edges into some vertices does: it lowers every counter by the number of edges
closed, and the vertices that reach zero by it become ready. -/
structure State.Closes (vs : List Nat) (s s' : State) : Prop where
  length : s'.pending.length = s.pending.length
  counter : ∀ v left, s'.pending[v]? = some left → s.pending[v]? = some (left + vs.count v)
  ready : ∀ v, v ∈ s'.ready ↔ v ∈ s.ready ∨ v ∈ vs ∧ s'.pending[v]? = some 0
  ascending : Ascending id s'.ready

namespace State.Closes

theorem refl {s : State} (ascending : Ascending id s.ready) : Closes [] s s :=
  ⟨rfl, by simp, by simp, ascending⟩

theorem zero {vs : List Nat} {s s' : State} (closes : Closes vs s s') {v : Nat}
    (zero : s.pending[v]? = some 0) : s'.pending[v]? = some 0 := by
  have inside := (List.getElem?_eq_some_iff.mp zero).1
  have there := List.getElem?_eq_getElem (closes.length.symm ▸ inside)
  have before := closes.counter v _ there
  rw [zero, Option.some.injEq] at before
  exact there.trans (congrArg some (by omega))

theorem trans {us vs : List Nat} {s middle s' : State} (first : Closes us s middle)
    (second : Closes vs middle s') : Closes (us ++ vs) s s' where
  length := second.length.trans first.length
  counter v left after := by
    rw [List.count_append, Nat.add_comm (us.count v), ← Nat.add_assoc]
    exact first.counter v _ (second.counter v left after)
  ready v := by
    rw [second.ready, first.ready, List.mem_append, or_assoc]
    constructor
    · rintro (old | ⟨member, zero⟩ | ⟨member, zero⟩)
      · exact .inl old
      · exact .inr ⟨.inl member, second.zero zero⟩
      · exact .inr ⟨.inr member, zero⟩
    · rintro (old | ⟨member, zero⟩)
      · exact .inl old
      · -- If no edge is closed later, the counter was at zero in between.
        by_cases later : v ∈ vs
        · exact .inr (.inr ⟨later, zero⟩)
        · have before := second.counter v 0 zero
          rw [List.count_eq_zero_of_not_mem later] at before
          exact .inr (.inl ⟨member.resolve_right later, before⟩)
  ascending := second.ascending

end State.Closes

/-- Closing one edge lowers one counter, and the vertex becomes ready with its last edge. -/
theorem State.release?_spec {s : State} {v left : Nat} (counter : s.pending[v]? = some (left + 1))
    (ascending : Ascending id s.ready) : ∃ s', s.release? v = some s' ∧ Closes [v] s s' := by
  have inside := (List.getElem?_eq_some_iff.mp counter).1
  refine ⟨⟨s.pending.set v left, if left = 0 then Ascending.place id v s.ready else s.ready⟩,
    by simp only [State.release?, counter], List.length_set, fun w left' after => ?_, fun w => ?_, ?_⟩
  · by_cases same : w = v
    · subst same
      rw [List.getElem?_set_self inside, Option.some.injEq] at after
      rw [counter, after, List.count_singleton_self]
    · rw [List.getElem?_set_ne (Ne.symm same)] at after
      rw [after, List.count_eq_zero_of_not_mem (by simpa using same), Nat.add_zero]
  · have now : (s.pending.set v left)[v]? = some left := List.getElem?_set_self inside
    rw [List.mem_singleton]
    by_cases last : left = 0
    · simp only [last, ↓reduceIte, Ascending.mem_place_id]
      rw [or_comm, and_iff_left_of_imp]
      rintro rfl
      exact last ▸ now
    · simp only [last, ↓reduceIte]
      refine (or_iff_left ?_).symm
      rintro ⟨rfl, zero⟩
      exact last (Option.some.inj (now.symm.trans zero))
  · by_cases last : left = 0
    · simpa only [last, ↓reduceIte] using Ascending.place_ascending v ascending
    · simpa only [last, ↓reduceIte] using ascending

/-- Edges into some vertices can be closed if all of them are open. -/
theorem State.releaseAll?_spec {s : State} {vs : List Nat}
    (enough : ∀ v ∈ vs, ∃ left, s.pending[v]? = some (left + vs.count v))
    (ascending : Ascending id s.ready) : ∃ s', s.releaseAll? vs = some s' ∧ Closes vs s s' := by
  induction vs generalizing s with
  | nil => exact ⟨s, rfl, .refl ascending⟩
  | cons first rest ih =>
    obtain ⟨spare, counter⟩ := enough first List.mem_cons_self
    rw [List.count_cons_self, ← Nat.add_assoc] at counter
    obtain ⟨middle, closed, closes⟩ := State.release?_spec counter ascending
    have enoughMiddle : ∀ v ∈ rest, ∃ left, middle.pending[v]? = some (left + rest.count v) := by
      intro v member
      obtain ⟨left, there⟩ := enough v (List.mem_cons_of_mem _ member)
      have inside : v < middle.pending.length :=
        closes.length.symm ▸ (List.getElem?_eq_some_iff.mp there).1
      have now := List.getElem?_eq_getElem inside
      have before := closes.counter v _ now
      rw [there, Option.some.injEq] at before
      have split : (first :: rest).count v = [first].count v + rest.count v := by
        rw [← List.count_append, List.singleton_append]
      exact ⟨left, now.trans (congrArg some (by omega))⟩
    obtain ⟨s', closedAll, closesAll⟩ := ih enoughMiddle closes.ascending
    refine ⟨s', ?_, closes.trans closesAll⟩
    simp only [State.releaseAll?, closed, Option.bind_some, closedAll]

theorem count_snoc (taken : List Nat) (v w : Nat) : ((taken ++ [v]).flatMap successors).count w =
    (taken.flatMap successors).count w + (successors v).count w := by
  simp only [List.flatMap_append, List.flatMap_cons, List.flatMap_nil, List.append_nil,
    List.count_append]

/-- The counters and the ready list of a sort that has taken some vertices. -/
structure Tracks (n : Nat) (incoming : Nat → Nat) (successors : Nat → List Nat) (taken : List Nat)
    (s : State) : Prop where
  length : s.pending.length = n
  counter : ∀ v left, s.pending[v]? = some left →
    left + (taken.flatMap successors).count v = incoming v
  ready : ∀ v, v ∈ s.ready ↔ v ∉ taken ∧ s.pending[v]? = some 0
  ascending : Ascending id s.ready

namespace Tracks

theorem counter_of_lt {taken : List Nat} {s : State} (tracks : Tracks n incoming successors taken s)
    {v : Nat} (vertex : v < n) :
    ∃ left, s.pending[v]? = some left ∧ left + (taken.flatMap successors).count v = incoming v := by
  have there := List.getElem?_eq_getElem
    (show v < s.pending.length by rw [tracks.length]; exact vertex)
  exact ⟨_, there, tracks.counter v _ there⟩

/-- The ready vertices are the free ones. -/
theorem mem_ready {taken : List Nat} {s : State} (tracks : Tracks n incoming successors taken s)
    {v : Nat} : v ∈ s.ready ↔ v < n ∧ v ∉ taken ∧ Free incoming successors taken v := by
  rw [tracks.ready]
  constructor
  · rintro ⟨fresh, zero⟩
    have counted := tracks.counter v 0 zero
    have inside := (List.getElem?_eq_some_iff.mp zero).1
    rw [tracks.length] at inside
    rw [Nat.zero_add] at counted
    exact ⟨inside, fresh, counted⟩
  · rintro ⟨vertex, fresh, free⟩
    obtain ⟨left, there, counted⟩ := tracks.counter_of_lt vertex
    unfold Free at free
    have zero : left = 0 := by omega
    exact ⟨fresh, zero ▸ there⟩

/-- No edge into a vertex that has been taken is still open. -/
theorem fresh_of_open {taken : List Nat} {s : State} (greedy : Greedy n incoming successors taken)
    (tracks : Tracks n incoming successors taken s) {v left : Nat}
    (counter : s.pending[v]? = some left) (open_ : 0 < left) : v ∉ taken := by
  intro old
  obtain ⟨front, back, rfl⟩ := List.append_of_mem old
  have wasFree := greedy.free_of_split
  have sub : front.Sublist (front ++ v :: back) := List.sublist_append_left _ _
  have more := (sub.flatMap successors).count_le v
  have counted := tracks.counter v left counter
  unfold Free at wasFree
  omega

theorem greedy_snoc {taken ready pending : List Nat} {v : Nat}
    (greedy : Greedy n incoming successors taken)
    (tracks : Tracks n incoming successors taken ⟨pending, v :: ready⟩) :
    Greedy n incoming successors (taken ++ [v]) := by
  obtain ⟨vertex, fresh, free⟩ := tracks.mem_ready.mp List.mem_cons_self
  refine .snoc greedy vertex fresh free fun w vertexW freshW freeW => ?_
  rcases List.mem_cons.mp (tracks.mem_ready.mpr ⟨vertexW, freshW, freeW⟩) with same | later
  · exact Nat.le_of_eq same.symm
  · exact Nat.le_of_lt ((List.pairwise_cons.mp tracks.ascending).1 w later)

/-- The edges that leave a vertex that is taken next are open. -/
theorem exists_open (covered : Covered n incoming successors) {taken ready pending : List Nat}
    {v : Nat} (tracks : Tracks n incoming successors taken ⟨pending, v :: ready⟩)
    (next : Greedy n incoming successors (taken ++ [v])) :
    ∀ w ∈ successors v, ∃ left, pending[w]? = some (left + (successors v).count w) := by
  intro w edge
  have vertex := (tracks.mem_ready.mp List.mem_cons_self).1
  have vertexW := covered.within v vertex w edge
  obtain ⟨left, there, counted⟩ := tracks.counter_of_lt vertexW
  have bound := count_le_of_subperm successors next.subperm w
  have covers := covered.counted w vertexW
  rw [count_snoc] at bound
  exact ⟨left - (successors v).count w, there.trans (congrArg some (by omega))⟩

/-- Closing the edges that leave the first ready vertex keeps the counters right. -/
theorem of_closes {taken ready pending : List Nat} {v : Nat} {s : State}
    (greedy : Greedy n incoming successors taken)
    (tracks : Tracks n incoming successors taken ⟨pending, v :: ready⟩)
    (closes : State.Closes (successors v) ⟨pending, ready⟩ s) :
    Tracks n incoming successors (taken ++ [v]) s := by
  refine ⟨closes.length.trans tracks.length, fun w left there => ?_, fun w => ?_, closes.ascending⟩
  · have before := tracks.counter w _ (closes.counter w left there)
    rw [count_snoc]
    omega
  · rw [closes.ready, List.mem_append, List.mem_singleton]
    constructor
    · rintro (old | ⟨edge, zero⟩)
      · obtain ⟨freshW, zero⟩ := (tracks.ready w).mp (List.mem_cons_of_mem v old)
        have different := Nat.ne_of_gt ((List.pairwise_cons.mp tracks.ascending).1 w old)
        exact ⟨not_or.mpr ⟨freshW, different⟩, closes.zero zero⟩
      · have positive : 0 < (successors v).count w := List.count_pos_iff.mpr edge
        have before := closes.counter w 0 zero
        rw [Nat.zero_add] at before
        -- No edge into `v` is open, so none leads from it to itself.
        have different : w ≠ v := by
          rintro rfl
          have free := (tracks.mem_ready.mp List.mem_cons_self).2.2
          have counted := tracks.counter w _ before
          unfold Free at free
          omega
        exact ⟨not_or.mpr ⟨tracks.fresh_of_open greedy before positive, different⟩, zero⟩
    · rintro ⟨freshW, zero⟩
      obtain ⟨freshW, different⟩ := not_or.mp freshW
      by_cases edge : w ∈ successors v
      · exact .inr ⟨edge, zero⟩
      · have before := closes.counter w 0 zero
        rw [List.count_eq_zero_of_not_mem edge] at before
        have wasReady := (tracks.ready w).mpr ⟨freshW, before⟩
        exact .inl ((List.mem_cons.mp wasReady).resolve_left different)

/-- Taking the first ready vertex keeps the counters right. -/
theorem step (covered : Covered n incoming successors) {taken ready pending : List Nat} {v : Nat}
    (greedy : Greedy n incoming successors taken)
    (tracks : Tracks n incoming successors taken ⟨pending, v :: ready⟩) :
    ∃ s, State.releaseAll? ⟨pending, ready⟩ (successors v) = some s ∧
      Greedy n incoming successors (taken ++ [v]) ∧
      Tracks n incoming successors (taken ++ [v]) s := by
  have next := tracks.greedy_snoc greedy
  obtain ⟨s, closed, closes⟩ := State.releaseAll?_spec (s := ⟨pending, ready⟩)
    (tracks.exists_open covered next) (List.pairwise_cons.mp tracks.ascending).2
  exact ⟨s, closed, next, tracks.of_closes greedy closes⟩

end Tracks

/-- A sort takes vertices in a greedy order until none is free. -/
theorem run_spec (covered : Covered n incoming successors) (fuel : Nat) {taken : List Nat}
    {s : State} (greedy : Greedy n incoming successors taken)
    (tracks : Tracks n incoming successors taken s) (enough : n ≤ taken.length + fuel) :
    ∃ rest, run successors fuel s = .ok rest ∧ Greedy n incoming successors (taken ++ rest) ∧
      Exhausted n incoming successors (taken ++ rest) := by
  induction fuel generalizing taken s with
  | zero =>
    have full : taken.length = n := by
      have bound := greedy.length_le
      omega
    have perm : taken.Perm (List.range n) :=
      greedy.subperm.perm_of_length_le (by simp only [List.length_range, full, Nat.le_refl])
    have all : ∀ w < n, w ∈ taken := fun w vertex => perm.mem_iff.mpr (List.mem_range.mpr vertex)
    match s, tracks with
    | ⟨pending, []⟩, _ =>
      refine ⟨[], rfl, by simpa only [List.append_nil] using greedy, ?_⟩
      intro w vertex fresh
      rw [List.append_nil] at fresh
      exact absurd (all w vertex) fresh
    | ⟨pending, v :: ready⟩, tracks =>
      obtain ⟨vertex, fresh, _⟩ := tracks.mem_ready.mp List.mem_cons_self
      exact absurd (all v vertex) fresh
  | succ fuel ih =>
    match s, tracks with
    | ⟨pending, []⟩, tracks =>
      refine ⟨[], rfl, by simpa only [List.append_nil] using greedy, ?_⟩
      intro w vertex fresh free
      rw [List.append_nil] at fresh free
      simpa using tracks.mem_ready.mpr ⟨vertex, fresh, free⟩
    | ⟨pending, v :: ready⟩, tracks =>
      obtain ⟨next, closed, greedyNext, tracksNext⟩ := tracks.step covered greedy
      obtain ⟨rest, ran, greedyAll, exhausted⟩ := ih greedyNext tracksNext (by
        simp only [List.length_append, List.length_singleton]
        omega)
      rw [List.append_assoc, List.singleton_append] at greedyAll exhausted
      exact ⟨v :: rest, by simp only [run, closed, ran, Except.map], greedyAll, exhausted⟩

theorem mem_foldr_place {xs : List Nat} {v : Nat} :
    v ∈ xs.foldr (Ascending.place id) [] ↔ v ∈ xs := by
  induction xs with
  | nil => rfl
  | cons x rest ih => rw [List.foldr_cons, Ascending.mem_place_id, ih, List.mem_cons]

theorem foldr_place_ascending (xs : List Nat) :
    Ascending id (xs.foldr (Ascending.place id) []) := by
  induction xs with
  | nil => exact List.Pairwise.nil
  | cons x rest ih => exact Ascending.place_ascending x ih

theorem start_tracks (n : Nat) (incoming : Nat → Nat) (successors : Nat → List Nat) :
    Tracks n incoming successors [] (start (List.range n) incoming) := by
  refine ⟨by simp [start], ?_, ?_, foldr_place_ascending _⟩
  · intro v left there
    simp only [start, List.getElem?_map, Option.map_eq_some_iff, List.getElem?_eq_some_iff,
      List.getElem_range] at there
    obtain ⟨_, ⟨_, rfl⟩, rfl⟩ := there
    simp
  · intro v
    simp only [start, mem_foldr_place, List.mem_filter, List.mem_range, beq_iff_eq,
      List.not_mem_nil, not_false_eq_true, true_and, and_iff_right_iff_imp]
    intro zero
    simpa using (List.getElem?_eq_some_iff.mp zero).1

/-- The result of a sort: the greedy order as far as it goes, if it names all vertices. -/
theorem order_spec (covered : Covered n incoming successors) :
    ∃ taken, Greedy n incoming successors taken ∧ Exhausted n incoming successors taken ∧
      order (List.range n) incoming successors =
        if taken.length = n then .ok taken else .error .cycle := by
  obtain ⟨taken, ran, greedy, exhausted⟩ := run_spec covered n .nil
    (start_tracks n incoming successors) (Nat.le_add_left n _)
  refine ⟨taken, greedy, exhausted, ?_⟩
  simp only [order, List.length_range, ran]

/-- A sort that succeeds names every vertex once. -/
theorem greedy_of_order (covered : Covered n incoming successors) {result : List Nat}
    (success : order (List.range n) incoming successors = .ok result) :
    Greedy n incoming successors result ∧ result.Perm (List.range n) := by
  obtain ⟨taken, greedy, _, outcome⟩ := order_spec covered
  rw [outcome] at success
  by_cases full : taken.length = n
  · simp only [full, ↓reduceIte, Except.ok.injEq] at success
    subst success
    exact ⟨greedy, greedy.subperm.perm_of_length_le
      (by simp only [List.length_range, full, Nat.le_refl])⟩
  · simp [full] at success

/-- Counters that fit the edges never run out. -/
theorem order_ne_counter (covered : Covered n incoming successors) :
    order (List.range n) incoming successors ≠ .error .counter := by
  obtain ⟨taken, _, _, outcome⟩ := order_spec covered
  rw [outcome]
  by_cases full : taken.length = n <;> simp [full]

end Wavefront.Precedence
