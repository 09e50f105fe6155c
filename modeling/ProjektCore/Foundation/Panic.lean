import Mathlib.Logic.Basic

/-!
# Computations that may panic

A Go call either returns its results or panics. Error values are ordinary results and are
kept beside the other results; only a panic ends the computation. The type of error values
is a parameter, since a panic may carry one.
-/

namespace ProjektCore.Foundation

/-- The value carried by a panic: an error value, a text, or a failed run-time check. -/
inductive Panic (E : Type) where
  | error (e : E)
  | text (message : String)
  | runtime (message : String)
deriving Repr, DecidableEq

/-- A call that returns a value or panics. -/
abbrev Call (E A : Type) := Except (Panic E) A

namespace Call

variable {E A B : Type}

/-- A sequence of two calls returns exactly when both return. -/
theorem bind_eq_ok {x : Call E A} {f : A → Call E B} {b : B} :
    (x >>= f) = .ok b ↔ ∃ a, x = .ok a ∧ f a = .ok b := by
  cases x with
  | error p => simp [bind, Except.bind]
  | ok a => simp [bind, Except.bind]

/-- A returned value is passed on. -/
@[simp] theorem ok_bind (a : A) (f : A → Call E B) : ((Except.ok a : Call E A) >>= f) = f a := rfl

/-- A panic ends the sequence. -/
@[simp] theorem panic_bind (p : Panic E) (f : A → Call E B) :
    ((Except.error p : Call E A) >>= f) = .error p := rfl

/-- Returning a value is the call that returns it. -/
@[simp] theorem pure_eq_ok (a : A) : (pure a : Call E A) = .ok a := rfl

end Call

end ProjektCore.Foundation
