set_option autoImplicit false

/-!
Steps in a world. The world is a monad: the state of a model in proofs, the machine itself in a
program. A step may fail, and what it has done to the world until then stays done.
-/
namespace Wavefront

/-- A step in a world `m` that fails with an `ε` or returns an `α`. -/
abbrev Step (m : Type → Type) (ε α : Type) : Type := ExceptT ε m α

/-- A step in a world is a step in every world around it. -/
def Step.widen {m n : Type → Type} [MonadLift m n] {ε α : Type} (step : Step m ε α) : Step n ε α :=
  ExceptT.mk (MonadLift.monadLift (ExceptT.run step))

/-- The step that answers without touching the world. -/
def Step.ofExcept {m : Type → Type} [Monad m] {ε α : Type} (r : Except ε α) : Step m ε α :=
  ExceptT.mk (pure r)

end Wavefront
