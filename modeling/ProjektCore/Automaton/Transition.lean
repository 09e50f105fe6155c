import ProjektCore.Automaton.State

/-!
# Transitions and their invokers

A transition lists the states that trigger it, the states its handler may set, the state it
moves to by itself, and an optional handler. Compiling a transition checks that these fields
fit together and registers one invoker for each triggering state.

The handler's free variables (the fields of a sender, a receiver, a test) are an explicit world
that every invocation takes and returns.
-/

namespace ProjektCore

open Foundation

/-- A Go interface value: nil or some value. -/
abbrev Any (V : Type) := Option V

/-- What a handler returns: the world it leaves, its output and its error. -/
structure Returned (W V : Type) where
  world : W
  out : Any V
  err : Option Err

/-- A compiled handler of type `func(*StateHandle, Any) (Any, error)`. -/
abbrev TransitionHandler (W V : Type) := W → Any V → Handler (Returned W V)

/-- A compiled transition, run on the current value of the state cell. -/
abbrev Invoker (W V : Type) := State → W → Any V → Go (State × Returned W V)

/-- A transition; nil slices and a nil handler are `none`, an unset destination is `NoState`. -/
structure Transition (D : Type) where
  atStates : Option (List State) := none
  okStates : Option (List State) := none
  toState : State := NoState
  doHandler : Option D := none

/-- The handler of a transition without one. -/
def emptyTransitionHandler {W V : Type} : TransitionHandler W V :=
  fun world _ => .ret ⟨world, none, none⟩

namespace Transition

variable {D W V : Type}

/-- The consistency checks made before a transition is compiled. -/
def check (t : Transition D) : Go Unit :=
  match t.okStates with
  | none => if t.doHandler.isNone ∧ t.toState = NoState then panicError .emptyTransition else .ok ()
  | some _ =>
    if t.toState ≠ NoState then panicError .okWithTo
    else if t.doHandler.isNone then panicError .okWithoutDo
    else .ok ()

/-- The handler that is run: the one made from `Do`, or the empty one. -/
def handler (t : Transition D) (create : D → TransitionHandler W V) : TransitionHandler W V :=
  match t.doHandler with
  | none => emptyTransitionHandler
  | some d => create d

/-- The state cell after the handler: the destination wins, with or without an error. -/
def finalState (t : Transition D) (h : StateHandle) : State :=
  if t.toState ≠ NoState then t.toState else h.state

/-- One invocation: run the handler, move to the destination, then check how the state was used. -/
def invoke (t : Transition D) (create : D → TransitionHandler W V) : Invoker W V :=
  fun state world input => do
    let handle := newStateHandle state (t.atStates.getD []) (t.okStates.getD [])
    let (returned, handle) ← (t.handler create world input).run handle
    if returned.err.isSome ∧ handle.mutated then panicError .newStateWithError
    else if returned.err.isNone ∧ t.okStates.isSome ∧ ¬ handle.mutated then panicError .okWithoutMutation
    else return (t.finalState handle, returned)

/-- Check a transition and register its invoker for each of its triggering states. -/
def compile (t : Transition D) (create : D → TransitionHandler W V)
    (callback : List (State × Invoker W V) → State → Invoker W V → Go (List (State × Invoker W V)))
    (handlers : List (State × Invoker W V)) : Go (List (State × Invoker W V)) := do
  t.check
  (t.atStates.getD []).foldlM (fun registered x => callback registered x (t.invoke create)) handlers

end Transition

end ProjektCore
