import ProjektCore.Automaton.Compiler
import ProjektCore.Automaton.Script
import ProjektCore.Protocol.Failure

/-!
# The states that transitions lead to

Whatever its handler does, a transition that does not panic leads where it declares: to its
destination, to the allowed state that its handler set, or nowhere. So the state of a protocol
client is always the initial state or one that some transition of its definition declares.
-/

namespace ProjektCore

open Foundation

variable {D W V R : Type}

/-- The states that a transition declares to lead to. -/
def Transition.LeadsTo (t : Transition D) (state : State) : Prop :=
  (t.toState ≠ NoState ∧ state = t.toState) ∨ ∃ states, t.okStates = some states ∧ state ∈ states

/-- A handler leaves the state as it was or sets a listed target. -/
theorem Handler.run_state {x : Handler R} {h h' : StateHandle} {result : R}
    (hrun : x.run h = .ok (result, h')) :
    h'.state = h.state ∨ h'.state ∈ h.target := by
  induction x generalizing h with
  | ret r =>
    simp only [run, Except.ok.injEq, Prod.mk.injEq] at hrun
    exact .inl (hrun.2 ▸ rfl)
  | set newState next ih =>
    simp only [run, Call.bind_eq_ok] at hrun
    obtain ⟨mid, hset, hrest⟩ := hrun
    obtain ⟨htarget, -, rfl⟩ := StateHandle.set_eq_ok.mp hset
    rcases ih hrest with hstate | hstate
    · exact .inr (hstate ▸ htarget)
    · exact .inr hstate
  | is state next ih =>
    simp only [run, Call.bind_eq_ok] at hrun
    obtain ⟨answer, -, hrest⟩ := hrun
    exact ih answer hrest
  | panic value => simp [run] at hrun

namespace Transition

variable {t : Transition D} {create : D → TransitionHandler W V} {cell cell' : State} {world : W} {input : Any V}
  {returned : Returned W V}

/-- An invocation returns if its handler returns and has used its handle as declared. -/
theorem invoke_eq_ok (h : t.invoke create cell world input = .ok (cell', returned)) :
    ∃ handle, (t.handler create world input).run (newStateHandle cell (t.atStates.getD []) (t.okStates.getD [])) =
        .ok (returned, handle) ∧
      (returned.err = none → t.okStates.isSome → handle.mutated = true) ∧ cell' = t.finalState handle := by
  simp only [invoke, Call.bind_eq_ok, Prod.exists] at h
  obtain ⟨returned', handle, hrun, h⟩ := h
  split at h
  · simp [panicError] at h
  · split at h
    · simp [panicError] at h
    · next hmutated =>
      simp only [Call.pure_eq_ok, Except.ok.injEq, Prod.mk.injEq] at h
      obtain ⟨rfl, rfl⟩ := h
      refine ⟨handle, hrun, ?_, rfl⟩
      intro herr hok
      by_contra hnot
      exact hmutated ⟨by simp [herr], hok, hnot⟩

/-- An invocation leaves the state as it was or leads to a declared one. -/
theorem leadsTo_of_invoke (h : t.invoke create cell world input = .ok (cell', returned)) :
    cell' = cell ∨ t.LeadsTo cell' := by
  obtain ⟨handle, hrun, -, rfl⟩ := invoke_eq_ok h
  by_cases hto : t.toState = NoState
  · have hfinal : t.finalState handle = handle.state := by simp [finalState, hto]
    rw [hfinal]
    rcases Handler.run_state hrun with hstate | hstate
    · exact .inl hstate
    · cases hok : t.okStates with
      | none => simp [newStateHandle, hok] at hstate
      | some states => exact .inr (.inr ⟨states, hok, by simpa [newStateHandle, hok] using hstate⟩)
  · exact .inr (.inl ⟨hto, by simp [finalState, hto]⟩)

/-- An invocation of a script that returns no error: the state is the destination, the state that
the script set, or the old one. -/
theorem invoke_script {script : Script (Returned W V)}
    (hscript : t.handler create world input = script.handler)
    (h : t.invoke create cell world input = .ok (cell', returned)) (herr : returned.err = none) :
    (t.toState ≠ NoState → cell' = t.toState) ∧
      (∀ states, t.okStates = some states → t.toState = NoState → ∃ newState ∈ states,
        script.sets (newStateHandle cell (t.atStates.getD []) (t.okStates.getD [])) = [newState] ∧ cell' = newState) ∧
      (t.toState = NoState → t.okStates = none → cell' = cell) := by
  obtain ⟨handle, hrun, hmutated, rfl⟩ := invoke_eq_ok h
  rw [hscript] at hrun
  have hcases := script.sets_cases hrun
  refine ⟨fun hto => by simp [finalState, hto], ?_, ?_⟩
  · intro states hok hto
    rcases hcases with ⟨-, rfl⟩ | ⟨newState, htarget, hsets, rfl⟩
    · have hset := hmutated herr (by simp [hok])
      simp [newStateHandle] at hset
    · exact ⟨newState, by simpa [newStateHandle, hok] using htarget, hsets, by simp [finalState, hto]⟩
  · intro hto hok
    rcases hcases with ⟨-, rfl⟩ | ⟨newState, htarget, -⟩
    · simp [finalState, hto, newStateHandle]
    · simp [newStateHandle, hok] at htarget

end Transition

namespace Protocol

variable {K M : Type}

/-- A transition of a definition declares to lead to a state. -/
def Definition.Declares (d : Definition K M W) (state : State) : Prop :=
  (∃ entry ∈ d.writeMessage.entries, ∃ t ∈ entry.2, t.LeadsTo state) ∨
    ∃ entry ∈ d.readMessage.entries, ∃ t ∈ entry.2, t.LeadsTo state

variable [DecidableEq K]

/-- What a lookup in a map finds declares the same as a transition of the map. -/
theorem leadsTo_of_triggered {D : Type} {entries : List (Key K × List (Transition D))} {key : Key K}
    {state final : State} {t : Transition D}
    (h : ((entries.lookup key).bind fun ts => triggeredBelow key ts state) = some t)
    (hfinal : t.LeadsTo final) :
    ∃ entry ∈ entries, ∃ t ∈ entry.2, t.LeadsTo final := by
  obtain ⟨transitions, hlookup, htriggered⟩ := Option.bind_eq_some_iff.mp h
  obtain ⟨before, after, rfl, -⟩ := List.lookup_eq_some_iff.mp hlookup
  obtain ⟨source, hsource, rfl⟩ := List.mem_map.mp (List.mem_of_find?_eq_some htriggered)
  refine ⟨(key, transitions), by simp, source, hsource, ?_⟩
  cases key <;> exact hfinal

variable {d : Definition K M W} {c : Client K M W}

/-- A write leaves the state as it was or leads to a declared one. -/
theorem Compiles.writeMessage_declares (h : Compiles d c) {world : W} {r : Written K M W}
    (hwrite : c.writeMessage world = .ok r) :
    r.client.state = c.state ∨ d.Declares r.client.state := by
  cases ht : d.writeTransition c.state with
  | none =>
    rw [h.writeMessage_untriggered world ht, Except.ok.injEq] at hwrite
    exact .inl (hwrite ▸ rfl)
  | some t =>
    rw [h.writeMessage_triggered world ht, Call.bind_eq_ok] at hwrite
    obtain ⟨⟨state, returned⟩, hinvoke, hrest⟩ := hwrite
    have hstate : r.client.state = state := by
      dsimp only at hrest
      split at hrest
      · exact (Except.ok.inj hrest) ▸ rfl
      · split at hrest
        · simp [panicRuntime] at hrest
        · exact (Except.ok.inj hrest) ▸ rfl
    rw [hstate]
    exact (Transition.leadsTo_of_invoke hinvoke).imp_right fun hleads => .inl (leadsTo_of_triggered ht hleads)

/-- A read leaves the state as it was or leads to a declared one. -/
theorem Compiles.readMessage_declares (h : Compiles d c) {world : W} {message : M}
    {r : ReadResult K M W} (hread : c.readMessage world message = .ok r) :
    r.client.state = c.state ∨ d.Declares r.client.state := by
  cases hkey : d.protocol.typeOf message with
  | error value => simp [Client.readMessage, h.protocol, hkey] at hread
  | ok key =>
    cases ht : d.readTransition key c.state with
    | none =>
      rw [h.readMessage_untriggered world message key hkey ht, Except.ok.injEq] at hread
      exact .inl (hread ▸ rfl)
    | some t =>
      rw [h.readMessage_triggered world message key hkey ht, Call.bind_eq_ok] at hread
      obtain ⟨⟨state, returned⟩, hinvoke, hrest⟩ := hread
      have hstate : r.client.state = state := (Except.ok.inj hrest) ▸ rfl
      rw [hstate]
      exact (Transition.leadsTo_of_invoke hinvoke).imp_right fun hleads => .inr (leadsTo_of_triggered ht hleads)

/-- The state of a client is always the initial one or a declared one. -/
theorem Client.Reachable.declares (h : Client.Reachable d c) :
    c.state = d.initialState ∨ d.Declares c.state := by
  induction h with
  | new hnew => exact .inl (newClient_eq_ok hnew).2.1
  | wrote world hbefore hwrite ih =>
    rcases hbefore.compiles.writeMessage_declares hwrite with hsame | hdeclares
    · rwa [hsame]
    · exact .inr hdeclares
  | read world message hbefore hread ih =>
    rcases hbefore.compiles.readMessage_declares hread with hsame | hdeclares
    · rwa [hsame]
    · exact .inr hdeclares

end Protocol

/-- A transition of a compiled automaton whose handler is any script and returns no error leads to
its destination, to the one state that the script set, which is an allowed one, or nowhere; every
answer of the handle is about the state at entry. The state of a protocol client is always the
initial one or one that a transition declares. -/
theorem state_discipline {K D W V M : Type} [DecidableEq K] :
    (∀ (a : Automaton K D W V) (c : CompiledAutomaton K W V), a.compile = .ok c →
      ∀ (key : Key K) (state cell : State) (world : W) (input : Any V) (t : Transition D)
        (script : Script (Returned W V)), a.Selects key state t →
          t.handler (a.handlerFactory key) world input = script.handler →
        (∀ query answer, .asked query answer ∈
            script.did (newStateHandle cell (t.triggers key) (t.okStates.getD [])) → answer = query.holdsAt cell) ∧
        ∀ cell' returned, c.transition key state cell world input = .ok (cell', returned) → returned.err = none →
          (t.toState ≠ NoState → cell' = t.toState) ∧
          (∀ states, t.okStates = some states → ∃ newState ∈ states,
            script.sets (newStateHandle cell (t.triggers key) states) = [newState] ∧ cell' = newState) ∧
          (t.toState = NoState → t.okStates = none → cell' = cell)) ∧
      ∀ (d : Protocol.Definition K M W) (client : Protocol.Client K M W), Protocol.Client.Reachable d client →
        client.state = d.initialState ∨ d.Declares client.state := by
  refine ⟨?_, fun d client hreachable => hreachable.declares⟩
  intro a c hc key state cell world input t script hselects hscript
  refine ⟨fun query answer hasked => script.answers (fun _ => rfl) hasked, ?_⟩
  intro cell' returned hrun herr
  rw [Automaton.compile_transition hc, Automaton.interpret_selects hselects] at hrun
  have hsame : (t.triggeredBy key).handler (a.handlerFactory key) world input = script.handler := by
    cases key <;> exact hscript
  have hto : (t.triggeredBy key).toState = t.toState := by cases key <;> rfl
  have hok : (t.triggeredBy key).okStates = t.okStates := by cases key <;> rfl
  obtain ⟨hdestination, hset, hstays⟩ := Transition.invoke_script hsame hrun herr
  rw [hto] at hdestination hstays
  rw [hok] at hstays
  refine ⟨hdestination, ?_, hstays⟩
  intro states hstates
  -- a transition with allowed states that was compiled has no destination
  have hconsistent : t.Consistent := by
    obtain ⟨before, after, hentry, -⟩ := hselects
    exact (a.compile_ok_iff.mp ⟨c, hc⟩ _ _ hentry).2 t (by simp)
  have hnone : t.toState = NoState := by
    rcases hconsistent with ⟨hnil, -⟩ | ⟨-, hnone, -⟩
    · simp [hstates] at hnil
    · exact hnone
  rw [hto, hok] at hset
  obtain ⟨newState, hmem, hsets, hcell⟩ := hset states hstates hnone
  refine ⟨newState, hmem, ?_, hcell⟩
  rw [hstates] at hsets
  exact hsets

/-- A script that asks for the state and then sets another one. -/
def askThenSet : Script (Returned Unit Unit) :=
  .ask (.isAny [2, 1]) fun answer => .set (if answer then 3 else 4) (.ret ⟨(), none, none⟩)

/-- A map with one transition, which runs this script. -/
def askingMap : Automaton ℕ Unit Unit Unit where
  handlerFactory := fun _ _ _ _ => askThenSet.handler
  transitions :=
    { entries := [(.value 0, [{ atStates := some [1, 2], okStates := some [3, 4], doHandler := some () }])]
      nodup := by decide }

/-- The script sets the state that it chooses after the answer. -/
theorem state_discipline_asking :
    ∃ c, askingMap.compile = .ok c ∧ c.transition (.value 0) 1 1 () none = .ok (3, ⟨(), none, none⟩) ∧
      askThenSet.did (newStateHandle 1 [1, 2] [3, 4]) = [.asked (.isAny [2, 1]) true, .set 3] ∧
      ∃ newState ∈ [(3 : State), 4], askThenSet.sets (newStateHandle 1 [1, 2] [3, 4]) = [newState] ∧ 3 = newState := by
  refine ⟨_, rfl, rfl, rfl, ?_⟩
  have hselects : askingMap.Selects (.value 0) 1
      { atStates := some [1, 2], okStates := some [3, 4], doHandler := some () } :=
    ⟨[], [], List.mem_cons_self, List.mem_cons_self, by simp⟩
  have hdiscipline := ((state_discipline (M := Unit)).1 askingMap _ rfl (.value 0) 1 1 () none _
    askThenSet hselects rfl).2
  exact (hdiscipline 3 ⟨(), none, none⟩ rfl rfl).2.1 [3, 4] rfl

end ProjektCore
