import ProjektCore.Protocol.Client

/-!
# Failing handlers and the protocol state

A call to `ReadMessage` or `WriteMessage` is meant to leave the protocol state alone when it fails.
It does so when no transition is triggered. When the handler of the triggered transition fails,
the call returns its error with the state unchanged exactly if the transition does not move to
another state by itself, the error is not one of the two lookup errors (which the client replaces
by its own), and, for a written message, the handler returned a message beside the error.
-/

namespace ProjektCore.Protocol

open Foundation

variable {K M W : Type}

/-- A transition that does not move away from a state by itself. -/
def staysAt {D : Type} (t : Transition D) (state : State) : Prop :=
  t.toState = NoState ∨ t.toState = state

/-- The state left by a failing invocation is the old one exactly if the transition stays there. -/
theorem destination_eq_iff {D : Type} (t : Transition D) (state : State) :
    (if t.toState ≠ NoState then t.toState else state) = state ↔ staysAt t state := by
  by_cases h : t.toState = NoState <;> simp [staysAt, h]

/-- The errors that the client puts in the place of a lookup error are not lookup errors. -/
theorem Client.isBadTransition_ne {e : Err} (h : Client.isBadTransition (some e)) :
    e ≠ .nothingToWrite ∧ e ≠ .unexpectedMessage := by
  constructor <;>
  · rintro rfl
    simp [Client.isBadTransition] at h

variable [DecidableEq K]

/-- The clients of a definition that its calls can lead to, whatever its handlers' world does. -/
inductive Client.Reachable (d : Definition K M W) : Client K M W → Prop
  | new {c : Client K M W} : newClient d = .ok c → Reachable d c
  | wrote {c : Client K M W} {r : Written K M W} (world : W) : Reachable d c →
      c.writeMessage world = .ok r → Reachable d r.client
  | read {c : Client K M W} {r : ReadResult K M W} (world : W) (message : M) : Reachable d c →
      c.readMessage world message = .ok r → Reachable d r.client

/-- A write whose triggered handler fails without setting the state. -/
structure WriteFailure (d : Definition K M W) (c : Client K M W) where
  world : W
  transition : Transition (WriteMessageHandler W M)
  handle : WriteMessageHandler W M
  returned : Returned W M
  stateHandle : StateHandle
  err : Err
  triggered : d.writeTransition c.state = some transition
  isDo : transition.doHandler = some handle
  runs : (handle world).run (handleOf transition c.state) = .ok (returned, stateHandle)
  fails : returned.err = some err
  notSet : stateHandle.mutated = false

/-- A read whose triggered handler fails without setting the state. -/
structure ReadFailure (d : Definition K M W) (c : Client K M W) where
  world : W
  message : M
  key : Key K
  transition : Transition (ReadMessageHandler W M)
  handle : ReadMessageHandler W M
  after : W
  stateHandle : StateHandle
  err : Err
  typed : d.protocol.typeOf message = .ok key
  triggered : d.readTransition key c.state = some transition
  isDo : transition.doHandler = some handle
  runs : (handle world message).run (handleOf transition c.state) = .ok ((after, some err), stateHandle)
  notSet : stateHandle.mutated = false

/-- The failed write returns the handler's error and leaves the protocol state unchanged. -/
def WriteFailure.Intact {d : Definition K M W} {c : Client K M W} (f : WriteFailure d c) : Prop :=
  ∃ r, c.writeMessage f.world = .ok r ∧ r.err = some f.err ∧ r.client.state = c.state

/-- The failed read returns the handler's error and leaves the protocol state unchanged. -/
def ReadFailure.Intact {d : Definition K M W} {c : Client K M W} (f : ReadFailure d c) : Prop :=
  ∃ r, c.readMessage f.world f.message = .ok r ∧ r.err = some f.err ∧ r.client.state = c.state

/-- A failed write leaves the destination of its transition, or the old state if there is none. -/
theorem WriteFailure.finalState_eq {d : Definition K M W} {c : Client K M W}
    (f : WriteFailure d c) :
    f.transition.finalState f.stateHandle =
      if f.transition.toState ≠ NoState then f.transition.toState else c.state := by
  rw [Handler.run_unmutated f.runs f.notSet]
  rfl

/-- A failed read leaves the destination of its transition, or the old state if there is none. -/
theorem ReadFailure.finalState_eq {d : Definition K M W} {c : Client K M W} (f : ReadFailure d c) :
    f.transition.finalState f.stateHandle =
      if f.transition.toState ≠ NoState then f.transition.toState else c.state := by
  rw [Handler.run_unmutated f.runs f.notSet]
  rfl

/-- Writing changes nothing of the client but its state. -/
theorem Client.writeMessage_client {c : Client K M W} {world : W} {r : Written K M W}
    (h : c.writeMessage world = .ok r) : ∃ state, r.client = { c with state := state } := by
  simp only [Client.writeMessage, Call.bind_eq_ok] at h
  obtain ⟨⟨state, returned⟩, -, h⟩ := h
  refine ⟨state, ?_⟩
  split at h
  · simp only [Call.pure_eq_ok, Except.ok.injEq] at h
    rw [← h]
  · split at h
    · simp [panicRuntime] at h
    · simp only [Call.pure_eq_ok, Except.ok.injEq] at h
      rw [← h]

/-- Reading changes nothing of the client but its state. -/
theorem Client.readMessage_client {c : Client K M W} {world : W} {message : M}
    {r : ReadResult K M W} (h : c.readMessage world message = .ok r) :
    ∃ state, r.client = { c with state := state } := by
  simp only [Client.readMessage, Call.bind_eq_ok] at h
  obtain ⟨key, -, ⟨state, returned⟩, -, h⟩ := h
  refine ⟨state, ?_⟩
  simp only [Call.pure_eq_ok, Except.ok.injEq] at h
  rw [← h]

/-- Every client of a definition still runs the automata the definition compiles to. -/
theorem Client.Reachable.compiles {d : Definition K M W} {c : Client K M W}
    (h : Client.Reachable d c) :
    Compiles d c := by
  induction h with
  | new hnew => exact (newClient_eq_ok hnew).1
  | wrote world _ hcall ih =>
    obtain ⟨state, hstate⟩ := Client.writeMessage_client hcall
    rw [hstate]
    exact ⟨ih.protocol, ih.writeFirst, ih.finalState, ih.writer, ih.reader, ih.writeAt⟩
  | read world message _ hcall ih =>
    obtain ⟨state, hstate⟩ := Client.readMessage_client hcall
    rw [hstate]
    exact ⟨ih.protocol, ih.writeFirst, ih.finalState, ih.writer, ih.reader, ih.writeAt⟩

/-- When a failed write is intact. -/
theorem WriteFailure.intact_iff {d : Definition K M W} {c : Client K M W} (hc : Compiles d c)
    (f : WriteFailure d c) :
    f.Intact ↔ f.returned.out.isSome ∧ ¬ Client.isBadTransition (some f.err) ∧ staysAt f.transition c.state := by
  have hstate := f.finalState_eq
  have hfails : f.returned.err.isSome := by simp [f.fails]
  unfold WriteFailure.Intact
  cases hout : f.returned.out with
  | none =>
    rw [hc.writeMessage_nil f.world f.triggered f.isDo f.runs hout]
    simp [panicText]
  | some message =>
    rw [hc.writeMessage_of_run f.world f.triggered f.isDo f.runs hout (by simp [hfails, f.notSet])
      (by simp [f.fails])]
    by_cases hbad : Client.isBadTransition (some f.err)
    · have hne := (Client.isBadTransition_ne hbad).1
      simp [f.fails, hbad, hne.symm]
    · simp [f.fails, hbad, hstate, ← destination_eq_iff]

/-- When a failed read is intact. -/
theorem ReadFailure.intact_iff {d : Definition K M W} {c : Client K M W} (hc : Compiles d c)
    (f : ReadFailure d c) :
    f.Intact ↔ ¬ Client.isBadTransition (some f.err) ∧ staysAt f.transition c.state := by
  have hstate := f.finalState_eq
  unfold ReadFailure.Intact
  rw [hc.readMessage_of_run f.world f.typed f.triggered f.isDo f.runs (by simp [f.notSet]) (by simp)]
  by_cases hbad : Client.isBadTransition (some f.err)
  · have hne := (Client.isBadTransition_ne hbad).2
    simp [Client.readError, hbad, hne.symm]
  · simp [Client.readError, hbad, hstate, ← destination_eq_iff]

/-- Exactly which failed calls leave the protocol state intact, from every state of a client. -/
theorem failed_call_intact_iff (d : Definition K M W) (c : Client K M W)
    (hc : Client.Reachable d c) :
    (∀ f : WriteFailure d c, f.Intact ↔
      f.returned.out.isSome ∧ ¬ Client.isBadTransition (some f.err) ∧ staysAt f.transition c.state) ∧
    (∀ f : ReadFailure d c, f.Intact ↔
      ¬ Client.isBadTransition (some f.err) ∧ staysAt f.transition c.state) ∧
    (∀ world, d.writeTransition c.state = none →
      c.writeMessage world = .ok ⟨c, world, none, some .nothingToWrite⟩) ∧
    (∀ world message key, d.protocol.typeOf message = .ok key → d.readTransition key c.state = none →
      c.readMessage world message = .ok ⟨c, world, some .unexpectedMessage⟩) := by
  have hcompiles := hc.compiles
  exact ⟨fun f => f.intact_iff hcompiles, fun f => f.intact_iff hcompiles,
    fun world ht => hcompiles.writeMessage_untriggered world ht,
    fun world message key hkey ht => hcompiles.readMessage_untriggered world message key hkey ht⟩

end ProjektCore.Protocol
