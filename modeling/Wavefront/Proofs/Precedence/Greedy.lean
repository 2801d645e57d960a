import Mathlib.Algebra.GroupWithZero.Nat
import Mathlib.Data.List.Flatten
import Mathlib.Data.List.Nodup
import Mathlib.Data.List.Perm.Subperm
import Wavefront.Precedence
set_option autoImplicit false

/-!
What sorting by precedence computes. A greedy order takes, again and again, the smallest vertex into
which no edge is open. Main statement: where no edge is left uncounted, a sort never runs into a
counter that does not fit; it takes the vertices in a greedy order until no vertex is free, and it
succeeds if that order names them all.
-/
namespace Wavefront.Precedence

/-- Every edge between the vertices below `n` is counted where it ends. A vertex may wait for more
edges than there are. -/
structure Covered (n : Nat) (incoming : Nat → Nat) (successors : Nat → List Nat) : Prop where
  within : ∀ u < n, ∀ v ∈ successors u, v < n
  counted : ∀ v < n, ((List.range n).flatMap successors).count v ≤ incoming v

/-- No edge into `v` is open once some vertices are taken. -/
def Free (incoming : Nat → Nat) (successors : Nat → List Nat) (taken : List Nat) (v : Nat) : Prop :=
  (taken.flatMap successors).count v = incoming v

/-- The orders in which every vertex is the smallest that is free when its turn comes. -/
inductive Greedy (n : Nat) (incoming : Nat → Nat) (successors : Nat → List Nat) :
    List Nat → Prop where
  | nil : Greedy n incoming successors []
  | snoc {taken : List Nat} {v : Nat} (earlier : Greedy n incoming successors taken)
      (vertex : v < n) (fresh : v ∉ taken) (free : Free incoming successors taken v)
      (least : ∀ w < n, w ∉ taken → Free incoming successors taken w → v ≤ w) :
      Greedy n incoming successors (taken ++ [v])

def Exhausted (n : Nat) (incoming : Nat → Nat) (successors : Nat → List Nat)
    (taken : List Nat) : Prop :=
  ∀ w < n, w ∉ taken → ¬ Free incoming successors taken w

variable {n : Nat} {incoming : Nat → Nat} {successors : Nat → List Nat}

namespace Greedy

theorem lt {taken : List Nat} (greedy : Greedy n incoming successors taken) {v : Nat}
    (member : v ∈ taken) : v < n := by
  induction greedy with
  | nil => simp at member
  | snoc earlier vertex fresh free least ih =>
    rcases List.mem_append.mp member with before | last
    · exact ih before
    · rw [List.mem_singleton.mp last]
      exact vertex

theorem nodup {taken : List Nat} (greedy : Greedy n incoming successors taken) : taken.Nodup := by
  induction greedy with
  | nil => exact List.nodup_nil
  | snoc earlier vertex fresh free least ih =>
    rw [List.nodup_append_comm]
    exact List.nodup_cons.mpr ⟨fresh, ih⟩

theorem subperm {taken : List Nat} (greedy : Greedy n incoming successors taken) :
    taken.Subperm (List.range n) :=
  List.subperm_of_subset greedy.nodup fun _ member => List.mem_range.mpr (greedy.lt member)

theorem length_le {taken : List Nat} (greedy : Greedy n incoming successors taken) :
    taken.length ≤ n := by
  simpa only [List.length_range] using greedy.subperm.length_le

/-- A vertex is free when its turn comes. -/
theorem free_of_split {before after : List Nat} {v : Nat}
    (greedy : Greedy n incoming successors (before ++ v :: after)) :
    Free incoming successors before v := by
  generalize same : before ++ v :: after = taken at greedy
  induction greedy generalizing after with
  | nil => simp at same
  | @snoc earlierTaken last earlier vertex fresh free least ih =>
    rcases List.eq_nil_or_concat after with rfl | ⟨rest, final, rfl⟩
    · obtain ⟨rfl, equal⟩ := List.append_inj' same rfl
      obtain rfl : v = last := by simpa using equal
      exact free
    · have shifted : (before ++ v :: rest) ++ [final] = earlierTaken ++ [last] := by
        simpa using same
      exact ih (List.append_inj' shifted rfl).1

end Greedy

/-- Where all edges rise and are counted, the vertices are taken one after the other. -/
theorem Greedy.eq_range (rises : ∀ u < n, ∀ v ∈ successors u, u < v)
    (counted : ∀ v < n, ((List.range n).flatMap successors).count v = incoming v) {taken : List Nat}
    (greedy : Greedy n incoming successors taken) : taken = List.range taken.length := by
  induction greedy with
  | nil => rfl
  | @snoc taken v earlier vertex fresh free least ih =>
    have above : taken.length ≤ v := by
      rw [ih, List.mem_range] at fresh
      omega
    -- No edge into the next vertex comes from itself or from one after it.
    have open_ : Free incoming successors taken taken.length := by
      obtain ⟨more, size⟩ := Nat.exists_eq_add_of_le (show taken.length ≤ n by omega)
      have later : (((List.range more).map (taken.length + ·)).flatMap successors).count
          taken.length = 0 := by
        refine List.count_eq_zero.mpr fun member => ?_
        obtain ⟨u, among, edge⟩ := List.mem_flatMap.mp member
        obtain ⟨offset, below, rfl⟩ := List.mem_map.mp among
        have lower := rises _ (by have := List.mem_range.mp below; omega) _ edge
        omega
      rw [Free, ← counted taken.length (by omega), size, List.range_add, List.flatMap_append,
        List.count_append, later, ← ih, Nat.add_zero]
    have notYet : taken.length ∉ taken := by
      rw [ih]
      simp
    have next : v = taken.length := by
      have := least taken.length (by omega) notYet open_
      omega
    rw [List.length_append, List.length_singleton, List.range_succ, ← ih, next]

theorem count_le_of_subperm (successors : Nat → List Nat) {taken : List Nat}
    (subperm : taken.Subperm (List.range n)) (v : Nat) :
    (taken.flatMap successors).count v ≤ ((List.range n).flatMap successors).count v := by
  obtain ⟨rearranged, same, sublist⟩ := subperm
  rw [← (same.flatMap_right successors).count_eq v]
  exact (sublist.flatMap successors).count_le v

/-- A free vertex has no edge from a vertex that is not taken yet. -/
theorem Covered.mem_of_free (covered : Covered n incoming successors) {taken : List Nat}
    (subperm : taken.Subperm (List.range n)) (distinct : taken.Nodup) {u v : Nat} (source : u < n)
    (edge : v ∈ successors u) (free : Free incoming successors taken v) : u ∈ taken := by
  by_contra missing
  have within : ∀ w ∈ u :: taken, w ∈ List.range n := by
    intro w member
    rcases List.mem_cons.mp member with same | old
    · exact List.mem_range.mpr (same ▸ source)
    · exact subperm.subset old
  have larger : (u :: taken).Subperm (List.range n) :=
    List.subperm_of_subset (List.nodup_cons.mpr ⟨missing, distinct⟩) within
  have bound := count_le_of_subperm successors larger v
  have covers := covered.counted v (covered.within u source v edge)
  have positive : 0 < (successors u).count v := List.count_pos_iff.mpr edge
  simp only [List.flatMap_cons, List.count_append] at bound
  unfold Free at free
  omega

theorem Greedy.mem_before (covered : Covered n incoming successors) {before after : List Nat}
    {u v : Nat} (greedy : Greedy n incoming successors (before ++ v :: after)) (source : u < n)
    (edge : v ∈ successors u) : u ∈ before := by
  have sub : before.Sublist (before ++ v :: after) := List.sublist_append_left _ _
  exact covered.mem_of_free (sub.subperm.trans greedy.subperm) (sub.nodup greedy.nodup) source edge
    greedy.free_of_split

theorem countP_lt_succ (n : Nat) (xs : List Nat) :
    xs.countP (· < n + 1) = xs.countP (· < n) + xs.count n := by
  induction xs with
  | nil => rfl
  | cons x rest ih =>
    simp only [List.countP_cons, List.count_cons, ih, decide_eq_true_eq, beq_iff_eq]
    by_cases low : x < n
    · simp only [low, Nat.lt_succ_of_lt low, Nat.ne_of_lt low, ↓reduceIte]
      omega
    · by_cases same : x = n
      · subst same
        simp only [Nat.lt_succ_self, Nat.lt_irrefl, ↓reduceIte]
        omega
      · have high : ¬ x < n + 1 := by omega
        simp only [low, high, same, ↓reduceIte]
        omega

theorem sum_count_range (n : Nat) (xs : List Nat) :
    ((List.range n).map fun u => xs.count u).sum = xs.countP (· < n) := by
  induction n with
  | zero => simp
  | succ n ih =>
    rw [List.range_succ, List.map_append, List.sum_append, ih, countP_lt_succ]
    simp

end Wavefront.Precedence
