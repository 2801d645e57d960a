import Mathlib.Data.List.Basic
import Wavefront.Step
set_option autoImplicit false

/-!
Steps as functions. Where all that a world holds is a state, a step takes that state to an answer and
the next state. The lemmas say what the ways of putting steps together come to on such functions.
-/
namespace Wavefront

/-- A world that is a state. -/
class Stateful (m : Type → Type) [Monad m] (W : outParam Type) where
  act {α : Type} : m α → W → α × W
  act_pure {α : Type} (x : α) (w : W) : act (pure x) w = (x, w)
  act_bind {α β : Type} (x : m α) (f : α → m β) (w : W) :
    act (x >>= f) w = act (f (act x w).1) (act x w).2

instance Stateful.ofStateM {σ : Type} : Stateful (StateM σ) σ where
  act x w := x.run w
  act_pure _ _ := rfl
  act_bind _ _ _ := rfl

variable {m : Type → Type} [Monad m] {W : Type} [Stateful m W]

/-- A state beside the state of a world. -/
instance Stateful.ofStateT {S : Type} : Stateful (StateT S m) (S × W) where
  act x w := let r := act (x.run w.1) w.2; (r.1.1, (r.1.2, r.2))
  act_pure x w := by
    have same : (pure x : StateT S m _).run w.1 = pure (x, w.1) := rfl
    simp only [same, act_pure]
  act_bind x f w := by
    have same : (x >>= f).run w.1 = x.run w.1 >>= fun p => (f p.1).run p.2 := rfl
    simp only [same, act_bind]

variable {S ε δ α β : Type}

theorem StateT.act_eq (x : StateT S m α) (s : S) (w : W) :
    Stateful.act x (s, w) =
      ((Stateful.act (x.run s) w).1.1, ((Stateful.act (x.run s) w).1.2,
        (Stateful.act (x.run s) w).2)) := rfl

theorem act_monadLift (x : m α) (s : S) (w : W) :
    Stateful.act (MonadLift.monadLift x : StateT S m α) (s, w) =
      ((Stateful.act x w).1, (s, (Stateful.act x w).2)) := by
  have same : (MonadLift.monadLift x : StateT S m α).run s = x >>= fun a => pure (a, s) := rfl
  simp only [StateT.act_eq, same, Stateful.act_bind, Stateful.act_pure]

@[simp] theorem act_get (s : S) (w : W) : Stateful.act (get : StateT S m S) (s, w) = (s, (s, w)) := by
  have same : (get : StateT S m S).run s = pure (s, s) := rfl
  simp only [StateT.act_eq, same, Stateful.act_pure]

@[simp] theorem act_set (s s' : S) (w : W) :
    Stateful.act (set s' : StateT S m PUnit) (s, w) = (⟨⟩, (s', w)) := by
  have same : (set s' : StateT S m PUnit).run s = pure (⟨⟩, s') := rfl
  simp only [StateT.act_eq, same, Stateful.act_pure]

@[simp] theorem act_modify (f : S → S) (s : S) (w : W) :
    Stateful.act (modify f : StateT S m PUnit) (s, w) = (⟨⟩, (f s, w)) := by
  have same : (modify f : StateT S m PUnit).run s = pure (⟨⟩, f s) := rfl
  simp only [StateT.act_eq, same, Stateful.act_pure]

theorem act_reads (read : S → α) (s : S) (w : W) :
    Stateful.act (do return read (← get) : StateT S m α) (s, w) = (read s, (s, w)) := by
  rw [Stateful.act_bind, act_get, Stateful.act_pure]

theorem act_map [LawfulMonad m] (f : α → β) (x : m α) (w : W) :
    Stateful.act (f <$> x) w = (f (Stateful.act x w).1, (Stateful.act x w).2) := by
  rw [map_eq_pure_bind, Stateful.act_bind, Stateful.act_pure]

theorem act_run' [LawfulMonad m] (x : StateT S m α) (s : S) (w : W) :
    Stateful.act (x.run' s) w = ((Stateful.act x (s, w)).1, (Stateful.act x (s, w)).2.2) := by
  rw [StateT.act_eq]
  exact act_map Prod.fst (x.run s) w

namespace Step

def act (x : Step m ε α) (w : W) : Except ε α × W := Stateful.act (ExceptT.run x) w

@[simp] theorem act_pure (x : α) (w : W) : act (pure x : Step m ε α) w = (.ok x, w) :=
  Stateful.act_pure _ w

@[simp] theorem act_throw (e : ε) (w : W) : act (throw e : Step m ε α) w = (.error e, w) :=
  Stateful.act_pure _ w

@[simp] theorem act_ofExcept (r : Except ε α) (w : W) :
    act (Step.ofExcept r : Step m ε α) w = (r, w) :=
  Stateful.act_pure r w

/-- The second of two steps is taken where the first has an answer. -/
theorem act_bind (x : Step m ε α) (f : α → Step m ε β) (w : W) :
    (x >>= f).act w =
      match x.act w with
      | (.ok a, w) => (f a).act w
      | (.error e, w) => (.error e, w) := by
  rw [act, ExceptT.run_bind, Stateful.act_bind, act]
  rcases Stateful.act (ExceptT.run x) w with ⟨answer, w⟩
  cases answer with
  | ok a => rfl
  | error e => exact Stateful.act_pure _ w

theorem act_bind_ok {x : Step m ε α} {f : α → Step m ε β} {w w' : W} {a : α}
    (first : x.act w = (.ok a, w')) : (x >>= f).act w = (f a).act w' := by
  rw [act_bind, first]

theorem act_bind_error {x : Step m ε α} {f : α → Step m ε β} {w w' : W} {e : ε}
    (first : x.act w = (.error e, w')) : (x >>= f).act w = (.error e, w') := by
  rw [act_bind, first]

/-- What handles a failure starts from where the failed step has left the world. -/
theorem act_tryCatch (x : Step m ε α) (handle : ε → Step m ε α) (w : W) :
    (tryCatch x handle).act w =
      match x.act w with
      | (.ok a, w) => (.ok a, w)
      | (.error e, w) => (handle e).act w := by
  have opened : (tryCatch x handle).run = x.run >>= fun
    | .ok a => pure (.ok a)
    | .error e => (handle e).run := rfl
  rw [act, opened, Stateful.act_bind, act]
  rcases Stateful.act (ExceptT.run x) w with ⟨answer, w⟩
  cases answer with
  | ok a => exact Stateful.act_pure _ w
  | error e => rfl

theorem act_adapt [LawfulMonad m] (rename : ε → δ) (x : Step m ε α) (w : W) :
    act (ExceptT.adapt rename x : Step m δ α) w = ((x.act w).1.mapError rename, (x.act w).2) :=
  act_map (Except.mapError rename) (ExceptT.run x) w

/-- A step of the world never fails of itself. -/
@[simp] theorem act_liftM [LawfulMonad m] (x : m α) (w : W) :
    act (liftM x : Step m ε α) w = (.ok (Stateful.act x w).1, (Stateful.act x w).2) :=
  act_map Except.ok x w

@[simp] theorem act_widen (x : Step m ε α) (s : S) (w : W) :
    act (x.widen : Step (StateT S m) ε α) (s, w) = ((x.act w).1, (s, (x.act w).2)) :=
  act_monadLift _ s w

@[simp] theorem act_get (s : S) (w : W) :
    (get : Step (StateT S m) ε S).act (s, w) = (.ok s, (s, w)) := by
  have lifted : (get : Step (StateT S m) ε S).run = (get >>= fun s => pure (.ok s)) := rfl
  rw [act, lifted, Stateful.act_bind, Wavefront.act_get, Stateful.act_pure]

@[simp] theorem act_set (s s' : S) (w : W) :
    (set s' : Step (StateT S m) ε PUnit).act (s, w) = (.ok ⟨⟩, (s', w)) := by
  have lifted : (set s' : Step (StateT S m) ε PUnit).run = (set s' >>= fun u => pure (.ok u)) := rfl
  rw [act, lifted, Stateful.act_bind, Wavefront.act_set, Stateful.act_pure]

@[simp] theorem act_modify (f : S → S) (s : S) (w : W) :
    (modify f : Step (StateT S m) ε PUnit).act (s, w) = (.ok ⟨⟩, (f s, w)) := by
  have lifted : (modify f : Step (StateT S m) ε PUnit).run =
    (modify f >>= fun u => pure (.ok u)) := rfl
  rw [act, lifted, Stateful.act_bind, Wavefront.act_modify, Stateful.act_pure]

@[simp] theorem act_forM_nil (f : α → Step m ε PUnit) (w : W) :
    (([] : List α).forM f).act w = (.ok ⟨⟩, w) :=
  act_pure _ w

theorem act_forM_cons (f : α → Step m ε PUnit) (x : α) (rest : List α) (w : W) :
    ((x :: rest).forM f).act w =
      match (f x).act w with
      | (.ok _, w) => (rest.forM f).act w
      | (.error e, w) => (.error e, w) := by
  have opened : (x :: rest).forM f = (f x >>= fun _ => rest.forM f) := rfl
  rw [opened, act_bind]
  rcases (f x).act w with ⟨_ | _, _⟩ <;> rfl

@[simp] theorem act_mapM_nil [LawfulMonad m] (f : α → Step m ε β) (w : W) :
    ([].mapM f).act w = (.ok [], w) := by
  rw [List.mapM_nil, act_pure]

theorem act_mapM_cons [LawfulMonad m] (f : α → Step m ε β) (x : α) (rest : List α) (w : W) :
    ((x :: rest).mapM f).act w =
      match (f x).act w with
      | (.ok y, w) =>
        match (rest.mapM f).act w with
        | (.ok ys, w) => (.ok (y :: ys), w)
        | (.error e, w) => (.error e, w)
      | (.error e, w) => (.error e, w) := by
  rw [List.mapM_cons, act_bind]
  rcases (f x).act w with ⟨answer, w⟩
  cases answer with
  | error e => rfl
  | ok y =>
    simp only [act_bind, act_pure]
    rcases (rest.mapM f).act w with ⟨answer, w⟩
    cases answer <;> rfl

theorem act_mapM_of_forall [LawfulMonad m] {f : α → Step m ε β} {answer : α → β} {xs : List α} {w : W}
    (each : ∀ x ∈ xs, (f x).act w = (.ok (answer x), w)) :
    (xs.mapM f).act w = (.ok (xs.map answer), w) := by
  induction xs with
  | nil => exact act_mapM_nil f w
  | cons x rest ih =>
    have others := ih fun y member => each y (List.mem_cons_of_mem x member)
    simp only [act_mapM_cons, each x List.mem_cons_self, others, List.map_cons]

end Step

end Wavefront
