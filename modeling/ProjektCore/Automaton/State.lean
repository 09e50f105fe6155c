import Mathlib.Data.Int.Notation
import ProjektCore.Errors

/-!
# States and state handles

A transition handler sees the automaton's state only through a `StateHandle`. The handle may
set the state once, to one of the states allowed by the transition, and may ask which of the
triggering states the automaton was in. Every misuse panics.

A handler is modelled as the tree of its handle operations: what it does next may depend on
the answers it got. Everything else a handler computes is in the result it returns.
-/

namespace ProjektCore

open Foundation

/-- The state of an automaton. The value 0 is reserved for an invalid state. -/
abbrev State := ℤ

/-- The invalid, unset state. -/
def NoState : State := 0

/-- A handle on the state cell of an automaton while a transition runs. -/
structure StateHandle where
  /-- The value of the state cell that the handle points to. -/
  state : State
  original : List State
  target : List State
  mutated : Bool
deriving Repr, DecidableEq

/-- A handle for one invocation; nothing is mutated yet. -/
def newStateHandle (state : State) (originalStates targetStates : List State) : StateHandle where
  state := state
  original := originalStates
  target := targetStates
  mutated := false

namespace StateHandle

/-- Only states listed as targets may be set. -/
def requireTarget (h : StateHandle) (state : State) : Go Unit :=
  if state ∈ h.target then .ok () else panicError .illegalStateMutation

/-- Only states listed as origins may be asked for. -/
def requireOriginal (h : StateHandle) (state : State) : Go Unit :=
  if state ∈ h.original then .ok () else panicError .nonTriggeringState

/-- Asking for the state is illegal once it was set. -/
def requireNotMutated (h : StateHandle) : Go Unit :=
  if h.mutated then panicError .unexpectedMutatedState else .ok ()

/-- Mark the handle as used; a second use panics. -/
def mutate (h : StateHandle) : Go StateHandle :=
  if h.mutated then panicError .multipleStateMutations else .ok { h with mutated := true }

/-- Set the new state. -/
def set (h : StateHandle) (newState : State) : Go StateHandle := do
  h.requireTarget newState
  let h ← h.mutate
  return { h with state := newState }

/-- Whether the input state is the given one. -/
def is (h : StateHandle) (state : State) : Go Bool := do
  h.requireNotMutated
  h.requireOriginal state
  return decide (h.state = state)

/-- The negation of `is`. -/
def isNot (h : StateHandle) (state : State) : Go Bool := do
  return !(← h.is state)

/-- Whether `is` answers true for any of the states; the first one ends the search. -/
def isAny (h : StateHandle) : List State → Go Bool
  | [] => .ok false
  | other :: rest => do
    if ← h.is other then return true
    else h.isAny rest

/-- Whether `is` answers true for none of the states. -/
def isNone (h : StateHandle) (states : List State) : Go Bool := do
  return !(← h.isAny states)

/-- Setting succeeds exactly once, to a listed target. -/
theorem set_eq_ok {h h' : StateHandle} {newState : State} :
    h.set newState = .ok h' ↔
      newState ∈ h.target ∧ h.mutated = false ∧ h' = { h with state := newState, mutated := true } := by
  rcases h with ⟨state, original, target, mutated⟩
  by_cases ht : newState ∈ target <;> cases mutated <;>
    simp [set, requireTarget, mutate, ht, panicError, eq_comm]

end StateHandle

/-- A transition handler as the tree of its operations on the handle. -/
inductive Handler (R : Type) where
  | ret (result : R)
  | set (newState : State) (next : Handler R)
  | is (state : State) (next : Bool → Handler R)
  | panic (value : Panic Err)

namespace Handler

variable {R Q : Type}

/-- Continue with the result of a handler. -/
def bind : Handler R → (R → Handler Q) → Handler Q
  | .ret result, f => f result
  | .set newState next, f => .set newState (next.bind f)
  | .is state next, f => .is state fun answer => (next answer).bind f
  | .panic value, _ => .panic value

instance : Monad Handler where
  pure := .ret
  bind := bind

/-- A call that does not touch the handle. -/
def call : Go R → Handler R
  | .ok result => .ret result
  | .error value => .panic value

/-- Run a handler against a handle. -/
def run : Handler R → StateHandle → Go (R × StateHandle)
  | .ret result, h => .ok (result, h)
  | .set newState next, h => do next.run (← h.set newState)
  | .is state next, h => do (next (← h.is state)).run h
  | .panic value, _ => .error value

/-- Running a sequence of handlers threads the handle through both. -/
theorem run_bind (x : Handler R) (f : R → Handler Q) (h : StateHandle) :
    (x.bind f).run h = (do let (result, h') ← x.run h; (f result).run h') := by
  induction x generalizing h with
  | ret result => rfl
  | set newState next ih =>
    simp only [Handler.bind, run]
    cases h.set newState with
    | error p => rfl
    | ok h' => exact ih h'
  | is state next ih =>
    simp only [Handler.bind, run]
    cases h.is state with
    | error p => rfl
    | ok answer => exact ih answer h
  | panic value => rfl

/-- A call inside a handler runs before the rest and leaves the handle alone. -/
@[simp] theorem run_call_bind (x : Go R) (f : R → Handler Q) (h : StateHandle) :
    Handler.run (call x >>= f) h = (do (f (← x)).run h) := by
  cases x with
  | error value => rfl
  | ok result => rfl

/-- The first mutation to a listed target goes through. -/
theorem run_set {newState : State} {next : Handler R} {h : StateHandle} (ht : newState ∈ h.target)
    (hm : h.mutated = false) :
    (Handler.set newState next).run h = next.run { h with state := newState, mutated := true } := by
  have hset := StateHandle.set_eq_ok.mpr ⟨ht, hm, rfl⟩
  simp only [run, hset, Call.ok_bind]

/-- A handler that leaves the handle unmutated has not touched it at all. -/
theorem run_unmutated {x : Handler R} {h h' : StateHandle} {result : R}
    (hrun : x.run h = .ok (result, h')) (hm : h'.mutated = false) : h' = h := by
  induction x generalizing h with
  | ret r =>
    simp only [run, Except.ok.injEq, Prod.mk.injEq] at hrun
    exact hrun.2.symm
  | set newState next ih =>
    simp only [run, Call.bind_eq_ok] at hrun
    obtain ⟨h₁, hset, hrest⟩ := hrun
    have h₁_eq := (StateHandle.set_eq_ok.mp hset).2.2
    have hsame := ih hrest
    subst h₁_eq
    rw [hsame] at hm
    cases hm
  | is state next ih =>
    simp only [run, Call.bind_eq_ok] at hrun
    obtain ⟨answer, -, hrest⟩ := hrun
    exact ih answer hrest
  | panic value => simp [run] at hrun

end Handler

end ProjektCore
