import Mathlib.Data.List.Basic
import ProjektCore.Automaton.Transition

/-!
# Compiling an automaton

An automaton maps keys to lists of transitions. A key is either a state, which then is the only
triggering state of the one transition below it, or any other value, below which every transition
names its triggering states. The compiled automaton is a two-level table from keys and states to
invokers.

The main result is that a lookup in the compiled table runs exactly the transition of the source
map that the key and the state trigger.
-/

namespace ProjektCore

open Foundation

/-- A key of a transition map: a state, or a value of another type. -/
inductive Key (K : Type) where
  | state (s : State)
  | value (k : K)
deriving Repr, DecidableEq

/-- A Go map from keys to transitions: entries in some iteration order, each key at most once. -/
structure Transitions (K D : Type) where
  entries : List (Key K × List (Transition D))
  nodup : (entries.map Prod.fst).Nodup

/-- A factory that makes a handler from the `Do` field of a transition. -/
abbrev TransitionHandlerFactory (K D W V : Type) := Key K → D → TransitionHandler W V

/-- An automaton before compilation. -/
structure Automaton (K D W V : Type) where
  handlerFactory : TransitionHandlerFactory K D W V
  transitions : Transitions K D

/-- The two-level table of a compiled automaton. -/
structure CompiledAutomaton (K W V : Type) where
  transitions : List (Key K × List (State × Invoker W V))

variable {K D W V : Type}

/-- Register an invoker for a state that has none yet. -/
def register (handlers : List (State × Invoker W V)) (state : State) (invoker : Invoker W V) :
    Go (List (State × Invoker W V)) :=
  if (handlers.lookup state).isSome then panicError .ambiguousTransitions
  else .ok (handlers ++ [(state, invoker)])

/-- Move the state of a state key into `At`; other keys need an explicit `At`. -/
def withTrigger (key : Key K) (t : Transition D) : Go (Transition D) :=
  match key with
  | .state at' =>
    if t.atStates.isSome then panicError .ambiguousAtAndKey else .ok { t with atStates := some [at'] }
  | .value _ => if t.atStates.isNone then panicError .missingTriggerState else .ok t

/-- Compile one transition into the handlers collected below its key. -/
def compileTransition (factory : TransitionHandlerFactory K D W V) (key : Key K)
    (handlers : List (State × Invoker W V)) (t : Transition D) :
    Go (List (State × Invoker W V)) := do
  (← withTrigger key t).compile (factory key) register handlers

/-- Compile all transitions below one key. -/
def compileKey (factory : TransitionHandlerFactory K D W V) (key : Key K)
    (transitions : List (Transition D)) : Go (List (State × Invoker W V)) :=
  match key with
  | .state _ =>
    if transitions.length > 1 then panicError .ambiguousTransitions
    else transitions.foldlM (compileTransition factory key) []
  | .value _ => transitions.foldlM (compileTransition factory key) []

/-- Compile every entry of the map. -/
def Automaton.compile (a : Automaton K D W V) : Go (CompiledAutomaton K W V) := do
  let compiled ← a.transitions.entries.mapM fun (key, transitions) => do
    return (key, ← compileKey a.handlerFactory key transitions)
  return ⟨compiled⟩

/-- Look the key and the state up and run the invoker found. -/
def CompiledAutomaton.transition [DecidableEq K] (a : CompiledAutomaton K W V) (key : Key K)
    (state : State) :
    Invoker W V :=
  fun cell world input =>
    match a.transitions.lookup key with
    | none => .ok (cell, ⟨world, none, some .badTransitionKey⟩)
    | some sub =>
      match sub.lookup state with
      | none => .ok (cell, ⟨world, none, some .badTransitionState⟩)
      | some handler => handler cell world input

/-- The transition with the triggering states that compilation gives it. -/
def Transition.triggeredBy (key : Key K) (t : Transition D) : Transition D :=
  match key with
  | .state at' => { t with atStates := some [at'] }
  | .value _ => t

/-- The transition of the source map below a key that a state triggers. -/
def triggeredBelow (key : Key K) (transitions : List (Transition D)) (state : State) :
    Option (Transition D) :=
  (transitions.map (Transition.triggeredBy key)).find? fun t => state ∈ t.atStates.getD []

/-- The meaning of a transition map, without compilation. -/
def Automaton.interpret [DecidableEq K] (a : Automaton K D W V) (key : Key K) (state : State) :
    Invoker W V :=
  fun cell world input =>
    match a.transitions.entries.lookup key with
    | none => .ok (cell, ⟨world, none, some .badTransitionKey⟩)
    | some transitions =>
      match triggeredBelow key transitions state with
      | none => .ok (cell, ⟨world, none, some .badTransitionState⟩)
      | some t => t.invoke (a.handlerFactory key) cell world input

/-- Compilation gives a transition exactly the triggering states of its meaning. -/
theorem withTrigger_eq_ok {key : Key K} {t t' : Transition D} (h : withTrigger key t = .ok t') :
    t' = t.triggeredBy key := by
  cases key with
  | state s =>
    by_cases ha : t.atStates.isSome <;> simp [withTrigger, ha, panicError] at h
    exact h.symm
  | value k =>
    by_cases ha : t.atStates.isNone <;> simp [withTrigger, ha, panicError] at h
    exact h.symm

/-- Registering one invoker for a list of states adds it for exactly these states. -/
theorem foldlM_register_lookup (states : List State) (invoker : Invoker W V)
    (handlers handlers' : List (State × Invoker W V))
    (h : states.foldlM (fun registered x => register registered x invoker) handlers = .ok handlers')
    (state : State) :
    handlers'.lookup state =
      (handlers.lookup state).or (if state ∈ states then some invoker else none) := by
  induction states generalizing handlers with
  | nil =>
    simp only [List.foldlM_nil, Call.pure_eq_ok, Except.ok.injEq] at h
    simp [h]
  | cons x rest ih =>
    simp only [List.foldlM_cons, Call.bind_eq_ok] at h
    obtain ⟨mid, hmid, hrest⟩ := h
    by_cases hx : (handlers.lookup x).isSome <;> simp [register, hx, panicError] at hmid
    rw [ih mid hrest, ← hmid, List.lookup_append]
    by_cases hs : state = x
    · subst hs
      simp
    · have hne : (state == x) = false := by simpa using hs
      simp [List.lookup_cons, hne, hs]

/-- Compiling transitions one after the other looks up the first one that a state triggers. -/
theorem foldlM_compileTransition_lookup (factory : TransitionHandlerFactory K D W V) (key : Key K)
    (transitions : List (Transition D)) (handlers handlers' : List (State × Invoker W V))
    (h : transitions.foldlM (compileTransition factory key) handlers = .ok handlers')
    (state : State) :
    handlers'.lookup state =
      (handlers.lookup state).or
        ((triggeredBelow key transitions state).map fun t => t.invoke (factory key)) := by
  induction transitions generalizing handlers with
  | nil =>
    simp only [List.foldlM_nil, Call.pure_eq_ok, Except.ok.injEq] at h
    simp [h, triggeredBelow]
  | cons t rest ih =>
    simp only [List.foldlM_cons, Call.bind_eq_ok] at h
    obtain ⟨mid, hmid, hrest⟩ := h
    simp only [compileTransition, Call.bind_eq_ok, Transition.compile] at hmid
    obtain ⟨t', ht', _, -, hregister⟩ := hmid
    obtain rfl := withTrigger_eq_ok ht'
    rw [ih mid hrest, foldlM_register_lookup _ _ _ _ hregister state, Option.or_assoc]
    congr 1
    by_cases hs : state ∈ (t.triggeredBy key).atStates.getD [] <;>
      simp [triggeredBelow, hs]

/-- The handlers compiled below one key. -/
theorem compileKey_lookup {factory : TransitionHandlerFactory K D W V} {key : Key K}
    {transitions : List (Transition D)} {handlers : List (State × Invoker W V)}
    (h : compileKey factory key transitions = .ok handlers) (state : State) :
    handlers.lookup state =
      (triggeredBelow key transitions state).map fun t => t.invoke (factory key) := by
  have hfold : transitions.foldlM (compileTransition factory key) [] = .ok handlers := by
    cases key with
    | state s =>
      by_cases hl : transitions.length > 1 <;> simp [compileKey, hl, panicError] at h
      exact h
    | value k => exact h
  simpa using foldlM_compileTransition_lookup factory key transitions [] handlers hfold state

/-- Looking a key up in the compiled entries compiles the entry found. -/
theorem mapM_compileKey_lookup [DecidableEq K] {factory : TransitionHandlerFactory K D W V}
    {entries : List (Key K × List (Transition D))} {compiled : List (Key K × List (State × Invoker W V))}
    (h : (entries.mapM fun (entry : Key K × List (Transition D)) => do
      return (entry.1, ← compileKey factory entry.1 entry.2)) = .ok compiled) (key : Key K) :
    match entries.lookup key with
    | none => compiled.lookup key = none
    | some transitions => ∃ sub, compileKey factory key transitions = .ok sub ∧
        compiled.lookup key = some sub := by
  induction entries generalizing compiled with
  | nil =>
    simp only [List.mapM_nil, Call.pure_eq_ok, Except.ok.injEq] at h
    simp [← h]
  | cons entry rest ih =>
    obtain ⟨key', transitions⟩ := entry
    simp only [List.mapM_cons, Call.bind_eq_ok, Call.pure_eq_ok, Except.ok.injEq] at h
    obtain ⟨_, ⟨sub, hsub, rfl⟩, compiledRest, hrest, rfl⟩ := h
    by_cases hk : key = key'
    · subst hk
      simp [hsub]
    · have hne : (key == key') = false := by simpa using hk
      simpa [List.lookup_cons, hne] using ih hrest

/-- Compilation keeps the keys of the map. -/
theorem Automaton.compile_keys {a : Automaton K D W V} {c : CompiledAutomaton K W V}
    (h : a.compile = .ok c) :
    c.transitions.map Prod.fst = a.transitions.entries.map Prod.fst := by
  simp only [Automaton.compile, Call.bind_eq_ok, Call.pure_eq_ok, Except.ok.injEq] at h
  obtain ⟨compiled, hcompiled, rfl⟩ := h
  revert hcompiled
  generalize a.transitions.entries = entries
  intro hcompiled
  induction entries generalizing compiled with
  | nil =>
    simp only [List.mapM_nil, Call.pure_eq_ok, Except.ok.injEq] at hcompiled
    simp [← hcompiled]
  | cons entry rest ih =>
    simp only [List.mapM_cons, Call.bind_eq_ok, Call.pure_eq_ok, Except.ok.injEq] at hcompiled
    obtain ⟨_, ⟨sub, -, rfl⟩, compiledRest, hrest, rfl⟩ := hcompiled
    simp [ih compiledRest hrest]

/-- A compiled automaton runs exactly the transition that its source map triggers. -/
theorem Automaton.compile_transition [DecidableEq K] {a : Automaton K D W V}
    {c : CompiledAutomaton K W V} (h : a.compile = .ok c) (key : Key K) (state : State) :
    c.transition key state = a.interpret key state := by
  simp only [Automaton.compile, Call.bind_eq_ok, Call.pure_eq_ok, Except.ok.injEq] at h
  obtain ⟨compiled, hcompiled, rfl⟩ := h
  have hkey := mapM_compileKey_lookup hcompiled key
  funext cell world input
  simp only [CompiledAutomaton.transition, Automaton.interpret]
  cases hentry : a.transitions.entries.lookup key with
  | none =>
    rw [hentry] at hkey
    simp [hkey]
  | some transitions =>
    rw [hentry] at hkey
    obtain ⟨sub, hsub, hlookup⟩ := hkey
    simp only [hlookup, compileKey_lookup hsub]
    cases triggeredBelow key transitions state <;> rfl

end ProjektCore
