import ProjektCore.Automaton.Transition

/-!
# What a handler does with its handle

A script is any adaptive finite sequence of operations on a state handle: what it does next may
depend on the answers it got. Every script is a handler, and what it did is recorded up to its end
or its panic. All answers are about the state in which the handle was made, and a handle that was
not refused is set at most once.
-/

namespace ProjektCore

open Foundation

/-- The questions that a handle answers. -/
inductive Query where
  | is (state : State)
  | isNot (state : State)
  | isAny (states : List State)
  | isNone (states : List State)
deriving Repr, DecidableEq

namespace Query

/-- Ask a handle. -/
def ask (h : StateHandle) : Query → Go Bool
  | .is state => h.is state
  | .isNot state => h.isNot state
  | .isAny states => h.isAny states
  | .isNone states => h.isNone states

/-- The right answer in a state. -/
def holdsAt (cell : State) : Query → Bool
  | .is state => cell = state
  | .isNot state => cell ≠ state
  | .isAny states => cell ∈ states
  | .isNone states => cell ∉ states

end Query

/-- A sequence of operations on a handle, followed by a result. -/
inductive Script (R : Type) where
  | ret (result : R)
  | set (newState : State) (next : Script R)
  | ask (query : Query) (next : Bool → Script R)

/-- An operation on a handle that was not refused. -/
inductive Did where
  | set (newState : State)
  | asked (query : Query) (answer : Bool)
deriving Repr, DecidableEq

/-- The state that an operation set. -/
def Did.setState : Did → Option State
  | .set newState => some newState
  | .asked _ _ => none

variable {R : Type}

/-- Ask for states one after the other, up to the first one that the state is. -/
def Handler.isAny (next : Bool → Handler R) : List State → Handler R
  | [] => next false
  | other :: rest => .is other fun answer => if answer then next true else Handler.isAny next rest

/-- A question as a handler. -/
def Query.handler (next : Bool → Handler R) : Query → Handler R
  | .is state => .is state next
  | .isNot state => .is state fun answer => next !answer
  | .isAny states => .isAny next states
  | .isNone states => .isAny (fun answer => next !answer) states

namespace Script

/-- A script as a handler. -/
def handler : Script R → Handler R
  | .ret result => .ret result
  | .set newState next => .set newState next.handler
  | .ask query next => query.handler fun answer => (next answer).handler

/-- What a script does with a handle, up to its end or its panic. -/
def did : Script R → StateHandle → List Did
  | .ret _, _ => []
  | .set newState next, h =>
    match h.set newState with
    | .ok h => .set newState :: next.did h
    | .error _ => []
  | .ask query next, h =>
    match query.ask h with
    | .ok answer => .asked query answer :: (next answer).did h
    | .error _ => []

/-- The states that a script sets. -/
def sets (script : Script R) (h : StateHandle) : List State := (script.did h).filterMap Did.setState

end Script

/-- Asking for states one after the other asks the handle for any of them. -/
theorem Handler.run_isAny (next : Bool → Handler R) (states : List State) (h : StateHandle) :
    (Handler.isAny next states).run h = (do (next (← h.isAny states)).run h) := by
  induction states with
  | nil => rfl
  | cons other rest ih =>
    simp only [Handler.isAny, Handler.run, StateHandle.isAny]
    cases h.is other with
    | error value => rfl
    | ok answer =>
      cases answer with
      | true => rfl
      | false => exact ih

/-- A question as a handler asks the handle. -/
theorem Query.run_handler (query : Query) (next : Bool → Handler R) (h : StateHandle) :
    (query.handler next).run h = (do (next (← query.ask h)).run h) := by
  cases query with
  | is state => rfl
  | isNot state =>
    simp only [Query.handler, Query.ask, Handler.run, StateHandle.isNot]
    cases h.is state <;> rfl
  | isAny states => exact Handler.run_isAny next states h
  | isNone states =>
    simp only [Query.handler, Query.ask, StateHandle.isNone, Handler.run_isAny]
    cases h.isAny states <;> rfl

namespace StateHandle

variable {h : StateHandle} {cell : State}

/-- A handle answers only before it is set, and then about the state it was made in. -/
theorem is_eq_ok (hcell : h.mutated = false → h.state = cell) {state : State} {answer : Bool}
    (hanswer : h.is state = .ok answer) : answer = decide (cell = state) := by
  cases hmutated : h.mutated with
  | true => simp [is, requireNotMutated, hmutated, panicError] at hanswer
  | false =>
    by_cases horiginal : state ∈ h.original
    · simp only [is, requireNotMutated, hmutated, requireOriginal, horiginal, if_true, Call.ok_bind,
        Bool.false_eq_true, if_false, Call.pure_eq_ok, Except.ok.injEq] at hanswer
      rw [← hanswer, hcell hmutated]
    · simp [is, requireNotMutated, hmutated, requireOriginal, horiginal, panicError] at hanswer

/-- The answer for a list of states is that of its states together. -/
theorem isAny_eq_ok (hcell : h.mutated = false → h.state = cell) {states : List State}
    {answer : Bool} (hanswer : h.isAny states = .ok answer) : answer = decide (cell ∈ states) := by
  induction states with
  | nil =>
    simp only [isAny, Except.ok.injEq] at hanswer
    simp [← hanswer]
  | cons other rest ih =>
    simp only [isAny, Call.bind_eq_ok] at hanswer
    obtain ⟨first, hfirst, hrest⟩ := hanswer
    have hother := is_eq_ok hcell hfirst
    cases first with
    | true =>
      simp only [if_true, Call.pure_eq_ok, Except.ok.injEq] at hrest
      have heq : cell = other := by simpa using hother.symm
      simp [← hrest, heq]
    | false =>
      have hne : cell ≠ other := by simpa using hother.symm
      rw [ih (by simpa using hrest)]
      simp [hne]

end StateHandle

/-- Every answer is the right one in the state in which the handle was made. -/
theorem Query.ask_eq_ok {h : StateHandle} {cell : State}
    (hcell : h.mutated = false → h.state = cell) {query : Query} {answer : Bool}
    (hanswer : query.ask h = .ok answer) : answer = query.holdsAt cell := by
  cases query with
  | is state => exact StateHandle.is_eq_ok hcell hanswer
  | isNot state =>
    simp only [ask, StateHandle.isNot, Call.bind_eq_ok, Call.pure_eq_ok, Except.ok.injEq] at hanswer
    obtain ⟨first, hfirst, rfl⟩ := hanswer
    simp [StateHandle.is_eq_ok hcell hfirst, holdsAt]
  | isAny states => exact StateHandle.isAny_eq_ok hcell hanswer
  | isNone states =>
    simp only [ask, StateHandle.isNone, Call.bind_eq_ok, Call.pure_eq_ok,
      Except.ok.injEq] at hanswer
    obtain ⟨first, hfirst, rfl⟩ := hanswer
    simp [StateHandle.isAny_eq_ok hcell hfirst, holdsAt]

namespace Script

/-- All answers that a script gets are right in the state in which its handle was made. -/
theorem answers (script : Script R) {h : StateHandle} {cell : State}
    (hcell : h.mutated = false → h.state = cell) {query : Query} {answer : Bool}
    (hasked : .asked query answer ∈ script.did h) : answer = query.holdsAt cell := by
  induction script generalizing h with
  | ret result => simp [did] at hasked
  | set newState next ih =>
    simp only [did] at hasked
    split at hasked
    · next h' hset =>
      have hmutated : h'.mutated = true := by rw [(StateHandle.set_eq_ok.mp hset).2.2]
      rw [List.mem_cons] at hasked
      rcases hasked with hasked | hasked
      · cases hasked
      · exact ih (by simp [hmutated]) hasked
    · simp at hasked
  | ask other next ih =>
    simp only [did] at hasked
    split at hasked
    · next first hfirst =>
      rw [List.mem_cons] at hasked
      rcases hasked with hasked | hasked
      · obtain ⟨rfl, rfl⟩ := Did.asked.inj hasked
        exact Query.ask_eq_ok hcell hfirst
      · exact ih first hcell hasked
    · simp at hasked

/-- Setting the state adds it to what the script sets. -/
theorem sets_set {newState : State} {next : Script R} {h h' : StateHandle}
    (hset : h.set newState = .ok h') :
    (Script.set newState next).sets h = newState :: next.sets h' := by
  simp [sets, did, hset, Did.setState]

/-- Asking does not set anything. -/
theorem sets_ask {query : Query} {next : Bool → Script R} {h : StateHandle} {answer : Bool}
    (hanswer : query.ask h = .ok answer) :
    (Script.ask query next).sets h = (next answer).sets h := by
  simp only [sets, did, hanswer]
  rfl

/-- A script that starts with a handle that was set sets nothing. -/
theorem sets_of_mutated (script : Script R) {h h' : StateHandle} {result : R}
    (hmutated : h.mutated = true) (hrun : script.handler.run h = .ok (result, h')) :
    script.sets h = [] ∧ h' = h := by
  induction script with
  | ret r =>
    simp only [handler, Handler.run, Except.ok.injEq, Prod.mk.injEq] at hrun
    exact ⟨rfl, hrun.2.symm⟩
  | set newState next ih =>
    simp only [handler, Handler.run, Call.bind_eq_ok] at hrun
    obtain ⟨_, hset, -⟩ := hrun
    simp [(StateHandle.set_eq_ok.mp hset).2.1] at hmutated
  | ask query next ih =>
    simp only [handler, Query.run_handler, Call.bind_eq_ok] at hrun
    obtain ⟨answer, hanswer, hrest⟩ := hrun
    rw [sets_ask hanswer]
    exact ih answer hrest

/-- A script that returns sets nothing and leaves its handle alone, or sets one listed target. -/
theorem sets_cases (script : Script R) {h h' : StateHandle} {result : R}
    (hrun : script.handler.run h = .ok (result, h')) :
    script.sets h = [] ∧ h' = h ∨
      ∃ newState ∈ h.target, script.sets h = [newState] ∧ h' = { h with state := newState, mutated := true } := by
  induction script with
  | ret r =>
    simp only [handler, Handler.run, Except.ok.injEq, Prod.mk.injEq] at hrun
    exact .inl ⟨rfl, hrun.2.symm⟩
  | set newState next ih =>
    simp only [handler, Handler.run, Call.bind_eq_ok] at hrun
    obtain ⟨mid, hset, hrest⟩ := hrun
    obtain ⟨htarget, -, rfl⟩ := StateHandle.set_eq_ok.mp hset
    obtain ⟨hsets, rfl⟩ := next.sets_of_mutated rfl hrest
    exact .inr ⟨newState, htarget, by rw [sets_set hset, hsets], rfl⟩
  | ask query next ih =>
    simp only [handler, Query.run_handler, Call.bind_eq_ok] at hrun
    obtain ⟨answer, hanswer, hrest⟩ := hrun
    rw [sets_ask hanswer]
    exact ih answer hrest

end Script

end ProjektCore
