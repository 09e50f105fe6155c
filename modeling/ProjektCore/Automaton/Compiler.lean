import Mathlib.Data.List.Nodup
import ProjektCore.Automaton.Automaton

/-!
# Correctness of the automaton compiler

Compilation succeeds exactly for the maps in which the triggering states are given once, either by
the key or by `At`, no two transitions below a key share one, and the fields of every transition fit
together. A lookup in the compiled automaton then finds the one transition that the key and the
state trigger, in whatever order the map is iterated.
-/

namespace ProjektCore

open Foundation

variable {K D W V : Type}

namespace Transition

/-- The states that trigger a transition below a key. -/
def triggers (key : Key K) (t : Transition D) : List State := (t.triggeredBy key).atStates.getD []

/-- The fields of a transition fit together. -/
def Consistent (t : Transition D) : Prop :=
  t.okStates = none ∧ (t.toState ≠ NoState ∨ t.doHandler.isSome) ∨
    t.okStates.isSome ∧ t.toState = NoState ∧ t.doHandler.isSome

/-- The triggering states are given by exactly one of the key and `At`. -/
def GivenOnce : Key K → Transition D → Prop
  | .state _, t => t.atStates = none
  | .value _, t => t.atStates ≠ none

end Transition

/-- The triggering states below a key are given once, and no state occurs twice. -/
def TriggersFit : Key K → List (Transition D) → Prop
  | .state _, transitions => transitions.length ≤ 1 ∧ ∀ t ∈ transitions, t.atStates = none
  | .value _, transitions =>
    (∀ t ∈ transitions, t.atStates ≠ none) ∧ (transitions.flatMap fun t => t.atStates.getD []).Nodup

/-- The map of an automaton is one that can be compiled. -/
def Automaton.WellDefined (a : Automaton K D W V) : Prop :=
  ∀ key transitions, (key, transitions) ∈ a.transitions.entries →
    TriggersFit key transitions ∧ ∀ t ∈ transitions, t.Consistent

/-- The checks of a transition succeed exactly if its fields fit together. -/
theorem Transition.check_eq_ok {t : Transition D} : t.check = .ok () ↔ t.Consistent := by
  cases hok : t.okStates with
  | none =>
    simp only [check, hok, Consistent, true_and, Option.isSome_none, Bool.false_eq_true, false_and,
      or_false]
    cases hdo : t.doHandler with
    | none =>
      by_cases hto : t.toState = NoState <;> simp [hto, panicError]
    | some d => simp
  | some states =>
    simp only [check, hok, Consistent, reduceCtorEq, false_and, false_or, Option.isSome_some,
      true_and]
    by_cases hto : t.toState = NoState
    · cases hdo : t.doHandler <;> simp [hto, panicError]
    · simp [hto, panicError]

/-- The triggering states are found exactly if they are given once. -/
theorem withTrigger_ok_iff {key : Key K} {t t' : Transition D} :
    withTrigger key t = .ok t' ↔ t.GivenOnce key ∧ t' = t.triggeredBy key := by
  constructor
  · intro h
    refine ⟨?_, withTrigger_eq_ok h⟩
    cases key with
    | state s =>
      by_cases hat : t.atStates.isSome <;> simp [withTrigger, hat, panicError] at h
      simpa [Transition.GivenOnce] using hat
    | value k =>
      by_cases hat : t.atStates.isNone <;> simp [withTrigger, hat, panicError] at h
      simpa [Transition.GivenOnce] using hat
  · rintro ⟨hgiven, rfl⟩
    cases key with
    | state s =>
      have hat : t.atStates = none := hgiven
      simp [withTrigger, hat, Transition.triggeredBy]
    | value k =>
      have hat : t.atStates ≠ none := hgiven
      simp [withTrigger, hat, Transition.triggeredBy]

/-- Registering succeeds exactly for states that are all different and not registered yet. -/
theorem foldlM_register_ok_iff (states : List State) (invoker : Invoker W V)
    (handlers : List (State × Invoker W V)) :
    (∃ handlers', states.foldlM (fun registered x => register registered x invoker) handlers = .ok handlers') ↔
      states.Nodup ∧ ∀ x ∈ states, handlers.lookup x = none := by
  induction states generalizing handlers with
  | nil => simp
  | cons x rest ih =>
    simp only [List.foldlM_cons]
    cases hx : handlers.lookup x with
    | some found =>
      have hregister : register handlers x invoker = panicError .ambiguousTransitions := by simp [register, hx]
      simp only [hregister, panicError, Call.panic_bind, reduceCtorEq, exists_false, false_iff]
      rintro ⟨-, hfree⟩
      simp [hfree x List.mem_cons_self] at hx
    | none =>
      have hregister : register handlers x invoker = .ok (handlers ++ [(x, invoker)]) := by simp [register, hx]
      have hlookup (y : State) : (handlers ++ [(x, invoker)]).lookup y = none ↔ handlers.lookup y = none ∧ y ≠ x := by
        rw [List.lookup_append, Option.or_eq_none_iff]
        by_cases hy : y = x
        · simp [hy]
        · have hne : (y == x) = false := by simpa using hy
          simp [List.lookup_cons, hne, hy]
      simp only [hregister, Call.ok_bind, ih, hlookup, List.nodup_cons, List.mem_cons,
        forall_eq_or_imp, hx, true_and]
      constructor
      · rintro ⟨hnodup, hfree⟩
        exact ⟨⟨fun hmem => (hfree x hmem).2 rfl, hnodup⟩, fun y hy => (hfree y hy).1⟩
      · rintro ⟨⟨hnot, hnodup⟩, hfree⟩
        exact ⟨hnodup, fun y hy => ⟨hfree y hy, fun heq => hnot (heq ▸ hy)⟩⟩

/-- One transition is compiled exactly if it is given once and consistent and its states are new. -/
theorem compileTransition_ok_iff (factory : TransitionHandlerFactory K D W V) (key : Key K)
    (handlers : List (State × Invoker W V)) (t : Transition D) :
    (∃ handlers', compileTransition factory key handlers t = .ok handlers') ↔
      t.GivenOnce key ∧ t.Consistent ∧ (t.triggers key).Nodup ∧ ∀ x ∈ t.triggers key, handlers.lookup x = none := by
  have hconsistent : (t.triggeredBy key).Consistent ↔ t.Consistent := by cases key <;> rfl
  rw [← hconsistent, Transition.triggers,
    ← foldlM_register_ok_iff _ ((t.triggeredBy key).invoke (factory key)) handlers,
    ← Transition.check_eq_ok]
  simp only [compileTransition, Call.bind_eq_ok, withTrigger_ok_iff, Transition.compile]
  constructor
  · rintro ⟨handlers', _, ⟨hgiven, rfl⟩, _, hcheck, hregister⟩
    exact ⟨hgiven, hcheck, handlers', hregister⟩
  · rintro ⟨hgiven, hcheck, handlers', hregister⟩
    exact ⟨handlers', _, ⟨hgiven, rfl⟩, (), hcheck, hregister⟩

/-- After one transition the states that are not registered are those it does not have either. -/
theorem compileTransition_lookup {factory : TransitionHandlerFactory K D W V} {key : Key K}
    {handlers handlers' : List (State × Invoker W V)} {t : Transition D}
    (h : compileTransition factory key handlers t = .ok handlers') (x : State) :
    handlers'.lookup x = none ↔ handlers.lookup x = none ∧ x ∉ t.triggers key := by
  have hlookup := foldlM_compileTransition_lookup factory key [t] handlers handlers' (by simp [h]) x
  rw [hlookup, Option.or_eq_none_iff]
  by_cases hx : x ∈ (t.triggeredBy key).atStates.getD [] <;> simp [triggeredBelow, Transition.triggers, hx]

/-- The transitions below a key are compiled exactly if each can be and no state occurs twice. -/
theorem foldlM_compileTransition_ok_iff (factory : TransitionHandlerFactory K D W V) (key : Key K)
    (transitions : List (Transition D)) (handlers : List (State × Invoker W V)) :
    (∃ handlers', transitions.foldlM (compileTransition factory key) handlers = .ok handlers') ↔
      (∀ t ∈ transitions, t.GivenOnce key ∧ t.Consistent) ∧
        (transitions.flatMap (Transition.triggers key)).Nodup ∧
        ∀ x ∈ transitions.flatMap (Transition.triggers key), handlers.lookup x = none := by
  induction transitions generalizing handlers with
  | nil => simp
  | cons t rest ih =>
    simp only [List.foldlM_cons, Call.bind_eq_ok, List.flatMap_cons, List.nodup_append',
      List.mem_append, List.mem_cons, forall_eq_or_imp]
    constructor
    · rintro ⟨handlers', mid, hmid, hrest⟩
      obtain ⟨hgiven, hconsistent, hnodup, hfree⟩ := (compileTransition_ok_iff ..).mp ⟨mid, hmid⟩
      obtain ⟨hall, hrestNodup, hrestFree⟩ := (ih mid).mp ⟨handlers', hrest⟩
      have hapart (x : State) (hx : x ∈ rest.flatMap (Transition.triggers key)) :=
        (compileTransition_lookup hmid x).mp (hrestFree x hx)
      refine ⟨⟨⟨hgiven, hconsistent⟩, hall⟩, ⟨hnodup, hrestNodup, ?_⟩, ?_⟩
      · intro x hx hrestx
        exact (hapart x hrestx).2 hx
      · rintro x (hx | hx)
        · exact hfree x hx
        · exact (hapart x hx).1
    · rintro ⟨⟨⟨hgiven, hconsistent⟩, hall⟩, ⟨hnodup, hrestNodup, hdisjoint⟩, hfree⟩
      obtain ⟨mid, hmid⟩ := (compileTransition_ok_iff factory key handlers t).mpr
        ⟨hgiven, hconsistent, hnodup, fun x hx => hfree x (.inl hx)⟩
      have hrestFree (x : State) (hx : x ∈ rest.flatMap (Transition.triggers key)) : mid.lookup x = none :=
        (compileTransition_lookup hmid x).mpr ⟨hfree x (.inr hx), fun hmem => hdisjoint hmem hx⟩
      obtain ⟨handlers', hrest⟩ := (ih mid).mpr ⟨hall, hrestNodup, hrestFree⟩
      exact ⟨handlers', mid, hmid, hrest⟩

/-- The states of at most one transition below a state key are different. -/
theorem nodup_triggers_of_length_le (s : State) {transitions : List (Transition D)}
    (h : transitions.length ≤ 1) :
    (transitions.flatMap (Transition.triggers (.state s : Key K))).Nodup := by
  match transitions, h with
  | [], _ => simp
  | [t], _ => simp [Transition.triggers, Transition.triggeredBy]

/-- A key is compiled exactly if its triggering states fit and its transitions are consistent. -/
theorem compileKey_ok_iff (factory : TransitionHandlerFactory K D W V) (key : Key K)
    (transitions : List (Transition D)) :
    (∃ handlers, compileKey factory key transitions = .ok handlers) ↔
      TriggersFit key transitions ∧ ∀ t ∈ transitions, t.Consistent := by
  have hfold := foldlM_compileTransition_ok_iff factory key transitions []
  simp only [List.lookup_nil, implies_true, and_true, forall_and] at hfold
  cases key with
  | state s =>
    simp only [compileKey, TriggersFit]
    by_cases hlength : transitions.length ≤ 1
    · rw [if_neg (by omega), hfold]
      simp only [hlength, true_and, nodup_triggers_of_length_le s hlength, and_true]
      rfl
    · rw [if_pos (by omega)]
      simp [panicError, hlength]
  | value k =>
    simp only [compileKey, hfold, TriggersFit]
    constructor
    · rintro ⟨⟨hgiven, hconsistent⟩, hnodup⟩
      exact ⟨⟨hgiven, hnodup⟩, hconsistent⟩
    · rintro ⟨⟨hgiven, hnodup⟩, hconsistent⟩
      exact ⟨⟨hgiven, hconsistent⟩, hnodup⟩

/-- Compiling every entry succeeds exactly if every entry can be compiled. -/
theorem mapM_compileKey_ok_iff (factory : TransitionHandlerFactory K D W V)
    (entries : List (Key K × List (Transition D))) :
    (∃ compiled, (entries.mapM fun (entry : Key K × List (Transition D)) => do
      return (entry.1, ← compileKey factory entry.1 entry.2)) = .ok compiled) ↔
      ∀ entry ∈ entries, ∃ handlers, compileKey factory entry.1 entry.2 = .ok handlers := by
  induction entries with
  | nil => simp
  | cons entry rest ih =>
    simp only [List.mapM_cons, Call.bind_eq_ok, Call.pure_eq_ok, Except.ok.injEq, List.mem_cons,
      forall_eq_or_imp, ← ih]
    constructor
    · rintro ⟨_, _, ⟨handlers, hentry, rfl⟩, compiled, hrest, rfl⟩
      exact ⟨⟨handlers, hentry⟩, compiled, hrest⟩
    · rintro ⟨⟨handlers, hentry⟩, compiled, hrest⟩
      exact ⟨_, _, ⟨handlers, hentry, rfl⟩, compiled, hrest, rfl⟩

namespace Automaton

/-- Compilation succeeds exactly for the maps that are well defined. -/
theorem compile_ok_iff (a : Automaton K D W V) : (∃ c, a.compile = .ok c) ↔ a.WellDefined := by
  have hentries := mapM_compileKey_ok_iff a.handlerFactory a.transitions.entries
  simp only [compileKey_ok_iff, Prod.forall] at hentries
  rw [WellDefined, ← hentries]
  simp only [compile, Call.bind_eq_ok, Call.pure_eq_ok, Except.ok.injEq]
  constructor
  · rintro ⟨_, compiled, hcompiled, rfl⟩
    exact ⟨compiled, hcompiled⟩
  · rintro ⟨compiled, hcompiled⟩
    exact ⟨_, compiled, hcompiled, rfl⟩

/-- The transition is the only one below the key that the state triggers. -/
def Selects (a : Automaton K D W V) (key : Key K) (state : State) (t : Transition D) : Prop :=
  ∃ before after, (key, before ++ t :: after) ∈ a.transitions.entries ∧ state ∈ t.triggers key ∧
    ∀ other ∈ before ++ after, state ∉ other.triggers key

/-- A call returns an error. -/
def Reports (result : Go (State × Returned W V)) (err : Err) : Prop :=
  ∃ cell world out, result = .ok (cell, ⟨world, out, some err⟩)

/-- Below a key that can be compiled no state occurs twice. -/
theorem WellDefined.nodup {a : Automaton K D W V} (h : a.WellDefined) {key : Key K}
    {transitions : List (Transition D)} (hentry : (key, transitions) ∈ a.transitions.entries) :
    (transitions.flatMap (Transition.triggers key)).Nodup := by
  have hfit := (h key transitions hentry).1
  cases key with
  | state s => exact nodup_triggers_of_length_le s hfit.1
  | value k => exact hfit.2

/-- A transition below a key that a state triggers is the only one. -/
theorem WellDefined.selects {a : Automaton K D W V} (h : a.WellDefined) {key : Key K}
    {transitions : List (Transition D)} (hentry : (key, transitions) ∈ a.transitions.entries)
    {t : Transition D} (ht : t ∈ transitions) {state : State} (hstate : state ∈ t.triggers key) :
    a.Selects key state t := by
  obtain ⟨before, after, rfl⟩ := List.append_of_mem ht
  refine ⟨before, after, hentry, hstate, ?_⟩
  have hnodup := h.nodup hentry
  rw [List.flatMap_append, List.flatMap_cons, List.nodup_append', List.nodup_append'] at hnodup
  obtain ⟨-, ⟨-, -, hafter⟩, hbefore⟩ := hnodup
  intro other hother hmem
  rcases List.mem_append.mp hother with hother | hother
  · exact hbefore (List.mem_flatMap.mpr ⟨other, hother, hmem⟩) (List.mem_append_left _ hstate)
  · exact hafter hstate (List.mem_flatMap.mpr ⟨other, hother, hmem⟩)

section Lookup

variable [DecidableEq K]

/-- An entry of the map is found under its key. -/
theorem lookup_eq_some_iff (a : Automaton K D W V) (key : Key K)
    (transitions : List (Transition D)) :
    a.transitions.entries.lookup key = some transitions ↔ (key, transitions) ∈ a.transitions.entries := by
  have hnodup := a.transitions.nodup
  revert hnodup
  generalize a.transitions.entries = entries
  intro hnodup
  induction entries with
  | nil => simp
  | cons entry rest ih =>
    obtain ⟨key', transitions'⟩ := entry
    rw [List.map_cons, List.nodup_cons] at hnodup
    by_cases hkey : key = key'
    · subst hkey
      have hnot : (key, transitions) ∉ rest := fun hmem => hnodup.1 (List.mem_map.mpr ⟨_, hmem, rfl⟩)
      simp [hnot, eq_comm]
    · have hne : (key == key') = false := by simpa using hkey
      simp [List.lookup_cons, hne, hkey, ih hnodup.2]

/-- A key that is not in the map is not found. -/
theorem lookup_eq_none_iff (a : Automaton K D W V) (key : Key K) :
    a.transitions.entries.lookup key = none ↔ key ∉ a.transitions.entries.map Prod.fst := by
  rw [← not_iff_not, not_not, ← ne_eq, Option.ne_none_iff_exists']
  simp [lookup_eq_some_iff]

variable {a : Automaton K D W V} {key : Key K} {state : State}

/-- A key that is not in the map is reported. -/
theorem interpret_badKey (hkey : key ∉ a.transitions.entries.map Prod.fst) (cell : State)
    (world : W) (input : Any V) :
    a.interpret key state cell world input = .ok (cell, ⟨world, none, some .badTransitionKey⟩) := by
  rw [← lookup_eq_none_iff] at hkey
  simp only [interpret, hkey]

/-- A state that triggers nothing below the key is reported. -/
theorem interpret_badState {transitions : List (Transition D)}
    (hentry : (key, transitions) ∈ a.transitions.entries)
    (hnone : ∀ t ∈ transitions, state ∉ t.triggers key) (cell : State) (world : W) (input : Any V) :
    a.interpret key state cell world input = .ok (cell, ⟨world, none, some .badTransitionState⟩) := by
  have htriggered : triggeredBelow key transitions state = none := by
    rw [triggeredBelow, List.find?_eq_none]
    intro t ht
    obtain ⟨t, hmem, rfl⟩ := List.mem_map.mp ht
    simpa [Transition.triggers] using hnone t hmem
  rw [← lookup_eq_some_iff] at hentry
  simp only [interpret, hentry, htriggered]

/-- The only transition that the state triggers is run. -/
theorem interpret_selects {t : Transition D} (h : a.Selects key state t) :
    a.interpret key state = (t.triggeredBy key).invoke (a.handlerFactory key) := by
  obtain ⟨before, after, hentry, hstate, hothers⟩ := h
  have htriggered : triggeredBelow key (before ++ t :: after) state = some (t.triggeredBy key) := by
    rw [triggeredBelow, List.map_append, List.find?_append, List.find?_eq_none.mpr, Option.none_or,
      List.map_cons, List.find?_cons_of_pos]
    · simpa [Transition.triggers] using hstate
    · intro u hu
      obtain ⟨other, hmem, rfl⟩ := List.mem_map.mp hu
      simpa [Transition.triggers] using hothers other (List.mem_append_left _ hmem)
  rw [← lookup_eq_some_iff] at hentry
  funext cell world input
  simp only [interpret, hentry, htriggered]

/-- A well-defined map has three kinds of lookups. -/
theorem WellDefined.cases (h : a.WellDefined) (key : Key K) (state : State) :
    key ∉ a.transitions.entries.map Prod.fst ∨
      (∃ transitions, (key, transitions) ∈ a.transitions.entries ∧ ∀ t ∈ transitions, state ∉ t.triggers key) ∨
      ∃ t, a.Selects key state t := by
  by_cases hkey : key ∈ a.transitions.entries.map Prod.fst
  · obtain ⟨⟨key, transitions⟩, hentry, rfl⟩ := List.mem_map.mp hkey
    by_cases hnone : ∀ t ∈ transitions, state ∉ t.triggers key
    · exact .inr (.inl ⟨transitions, hentry, hnone⟩)
    · push Not at hnone
      obtain ⟨t, ht, hstate⟩ := hnone
      exact .inr (.inr ⟨t, h.selects hentry ht hstate⟩)
  · exact .inl hkey

/-- A lookup reports that the key is not in the map, unless a transition that it runs reports
this. -/
theorem WellDefined.reports_badKey_iff (h : a.WellDefined) (key : Key K) (state cell : State)
    (world : W) (input : Any V) :
    Reports (a.interpret key state cell world input) .badTransitionKey ↔
      key ∉ a.transitions.entries.map Prod.fst ∨ ∃ t, a.Selects key state t ∧
        Reports ((t.triggeredBy key).invoke (a.handlerFactory key) cell world input) .badTransitionKey := by
  constructor
  · intro hreports
    rcases h.cases key state with hkey | ⟨transitions, hentry, hnone⟩ | ⟨t, hselects⟩
    · exact .inl hkey
    · rw [interpret_badState hentry hnone] at hreports
      obtain ⟨_, _, _, heq⟩ := hreports
      simp at heq
    · rw [interpret_selects hselects] at hreports
      exact .inr ⟨t, hselects, hreports⟩
  · rintro (hkey | ⟨t, hselects, hreports⟩)
    · rw [interpret_badKey hkey]
      exact ⟨cell, world, none, rfl⟩
    · rw [interpret_selects hselects]
      exact hreports

/-- A lookup reports that the state triggers nothing, unless a transition that it runs reports
this. -/
theorem WellDefined.reports_badState_iff (h : a.WellDefined) (key : Key K) (state cell : State)
    (world : W) (input : Any V) :
    Reports (a.interpret key state cell world input) .badTransitionState ↔
      (∃ transitions, (key, transitions) ∈ a.transitions.entries ∧ ∀ t ∈ transitions, state ∉ t.triggers key) ∨
        ∃ t, a.Selects key state t ∧
          Reports ((t.triggeredBy key).invoke (a.handlerFactory key) cell world input) .badTransitionState := by
  constructor
  · intro hreports
    rcases h.cases key state with hkey | hentry | ⟨t, hselects⟩
    · rw [interpret_badKey hkey] at hreports
      obtain ⟨_, _, _, heq⟩ := hreports
      simp at heq
    · exact .inl hentry
    · rw [interpret_selects hselects] at hreports
      exact .inr ⟨t, hselects, hreports⟩
  · rintro (⟨transitions, hentry, hnone⟩ | ⟨t, hselects, hreports⟩)
    · rw [interpret_badState hentry hnone]
      exact ⟨cell, world, none, rfl⟩
    · rw [interpret_selects hselects]
      exact hreports

/-- The meaning of a map does not depend on the order of its entries. -/
theorem interpret_of_perm {a' : Automaton K D W V} (hfactory : a'.handlerFactory = a.handlerFactory)
    (hperm : a'.transitions.entries.Perm a.transitions.entries) : a'.interpret = a.interpret := by
  have hlookup (key : Key K) : a'.transitions.entries.lookup key = a.transitions.entries.lookup key := by
    apply Option.ext
    intro transitions
    rw [lookup_eq_some_iff, lookup_eq_some_iff, hperm.mem_iff]
  funext key state cell world input
  simp only [interpret, hlookup, hfactory]

end Lookup

/-- Compilation succeeds exactly for the well-defined maps. The compiled automaton then reports a
key that is not in the map and a state that triggers nothing below its key, and otherwise runs the
only transition that is triggered; an error of that transition is passed on. The order in which the
map is iterated does not matter. -/
theorem compile_correct [DecidableEq K] (a : Automaton K D W V) :
    ((∃ c, a.compile = .ok c) ↔ a.WellDefined) ∧
      ∀ c, a.compile = .ok c → ∀ (key : Key K) (state cell : State) (world : W) (input : Any V),
        (key ∉ a.transitions.entries.map Prod.fst →
          c.transition key state cell world input = .ok (cell, ⟨world, none, some .badTransitionKey⟩)) ∧
        (∀ transitions, (key, transitions) ∈ a.transitions.entries →
          ((∀ t ∈ transitions, state ∉ t.triggers key) →
            c.transition key state cell world input = .ok (cell, ⟨world, none, some .badTransitionState⟩)) ∧
          ∀ t ∈ transitions, state ∈ t.triggers key →
            a.Selects key state t ∧ c.transition key state cell world input =
              (t.triggeredBy key).invoke (a.handlerFactory key) cell world input) ∧
        (Reports (c.transition key state cell world input) .badTransitionKey ↔
          key ∉ a.transitions.entries.map Prod.fst ∨ ∃ t, a.Selects key state t ∧
            Reports ((t.triggeredBy key).invoke (a.handlerFactory key) cell world input) .badTransitionKey) ∧
        (Reports (c.transition key state cell world input) .badTransitionState ↔
          (∃ transitions, (key, transitions) ∈ a.transitions.entries ∧ ∀ t ∈ transitions, state ∉ t.triggers key) ∨
            ∃ t, a.Selects key state t ∧
              Reports ((t.triggeredBy key).invoke (a.handlerFactory key) cell world input) .badTransitionState) ∧
        ∀ a' : Automaton K D W V, a'.handlerFactory = a.handlerFactory →
          a'.transitions.entries.Perm a.transitions.entries →
            ∃ c', a'.compile = .ok c' ∧
              c'.transition key state cell world input = c.transition key state cell world input := by
  refine ⟨a.compile_ok_iff, ?_⟩
  intro c hc key state cell world input
  have hwell : a.WellDefined := a.compile_ok_iff.mp ⟨c, hc⟩
  rw [compile_transition hc]
  refine ⟨fun hkey => interpret_badKey hkey .., ?_, hwell.reports_badKey_iff .., hwell.reports_badState_iff .., ?_⟩
  · intro transitions hentry
    refine ⟨fun hnone => interpret_badState hentry hnone .., ?_⟩
    intro t ht hstate
    have hselects := hwell.selects hentry ht hstate
    exact ⟨hselects, by rw [interpret_selects hselects]⟩
  · intro a' hfactory hperm
    have hwell' : a'.WellDefined := fun key transitions hentry => hwell key transitions (hperm.mem_iff.mp hentry)
    obtain ⟨c', hc'⟩ := a'.compile_ok_iff.mpr hwell'
    exact ⟨c', hc', by rw [compile_transition hc', interpret_of_perm hfactory hperm]⟩

/-- A map with a state key and another key, and a handler that sets the state. -/
def twoKeys : Automaton ℕ Unit Unit Unit where
  handlerFactory := fun _ _ world _ => .set 3 (.ret ⟨world, none, none⟩)
  transitions :=
    { entries := [(.state 1, [{ toState := 2 }]),
        (.value 0, [{ atStates := some [1], toState := 2 },
          { atStates := some [2], okStates := some [3], doHandler := some () }])]
      nodup := by decide }

/-- The map with two keys can be compiled, and its second transition below the other key is run in
its state. -/
theorem compile_correct_twoKeys :
    ∃ c t, twoKeys.compile = .ok c ∧ twoKeys.Selects (.value 0) 2 t ∧
      c.transition (.value 0) 2 2 () none =
        (t.triggeredBy (.value 0 : Key ℕ)).invoke (twoKeys.handlerFactory (.value 0)) 2 () none ∧
      c.transition (.value 0) 2 2 () none = .ok (3, ⟨(), none, none⟩) := by
  refine ⟨_, { atStates := some [2], okStates := some [3], doHandler := some () }, rfl, ?_⟩
  have hselected := ((compile_correct twoKeys).2 _ rfl (.value 0) 2 2 () none).2.1 _
    (List.mem_cons_of_mem _ List.mem_cons_self)
  obtain ⟨hselects, hruns⟩ := hselected.2 _ (List.mem_cons_of_mem _ List.mem_cons_self) List.mem_cons_self
  exact ⟨hselects, hruns, rfl⟩

end Automaton

end ProjektCore
