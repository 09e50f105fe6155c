import ProjektCore.Automaton.Automaton

/-!
# Protocol clients

A protocol definition holds two automata: one that is triggered by the current state when a
message is written, and one that is triggered by the type of a message when it is read. A client
compiles both over one shared state cell. `NothingToWrite` and `UnexpectedMessage` stand for the
two ways in which no transition is triggered.

Calls take and return the world of the definition's handlers together with the client.
-/

namespace ProjektCore

/-- The part of a protocol that a client uses: the type by which a message is dispatched. -/
structure Protocol (K M : Type) where
  typeOf : M → Go (Key K)

namespace Protocol

open Foundation

/-- A handler of type `func(*StateHandle) (proto.Message, error)`. -/
abbrev WriteMessageHandler (W M : Type) := W → Handler (Returned W M)

/-- A handler of type `func(*StateHandle, proto.Message) error`. -/
abbrev ReadMessageHandler (W M : Type) := W → M → Handler (W × Option Err)

/-- How the two functions of a protocol client operate. -/
structure Definition (K M W : Type) where
  protocol : Protocol K M
  writeFirst : Bool := false
  initialState : State
  finalState : State
  writeMessage : Transitions K (WriteMessageHandler W M)
  readMessage : Transitions K (ReadMessageHandler W M)

/-- One side of protocol communication. -/
structure Client (K M W : Type) where
  protocol : Protocol K M
  writeFirst : Bool
  initialState : State
  finalState : State
  state : State
  writer : CompiledAutomaton K W M
  reader : CompiledAutomaton K W M
  writeAt : List State

/-- The results of a call to `WriteMessage`. -/
structure Written (K M W : Type) where
  client : Client K M W
  world : W
  message : Any M
  err : Option Err

/-- The results of a call to `ReadMessage`. -/
structure ReadResult (K M W : Type) where
  client : Client K M W
  world : W
  err : Option Err

variable {K M W : Type}

/-- A written message may not be nil, even beside an error. -/
def writeMessageHandlerFactory : TransitionHandlerFactory K (WriteMessageHandler W M) W M :=
  fun _ handle world _ => do
    let returned ← handle world
    if returned.out.isNone then .panic (.text "written message needs be a protobuf message")
    else return returned

/-- Reading produces no output. -/
def readMessageHandlerFactory : TransitionHandlerFactory K (ReadMessageHandler W M) W M :=
  fun _ handle world input =>
    match input with
    | none => .panic (.text "read message needs to be a protobuf message")
    | some message => do
      let (world, err) ← handle world message
      return ⟨world, none, err⟩

/-- The automaton behind `WriteMessage`. -/
def Definition.writer (d : Definition K M W) : Automaton K (WriteMessageHandler W M) W M :=
  ⟨writeMessageHandlerFactory, d.writeMessage⟩

/-- The automaton behind `ReadMessage`. -/
def Definition.reader (d : Definition K M W) : Automaton K (ReadMessageHandler W M) W M :=
  ⟨readMessageHandlerFactory, d.readMessage⟩

/-- The states in which a message can be written; every key must be a state. -/
def writeStates (entries : List (Key K × List (State × Invoker W M))) : Go (List State) :=
  entries.mapM fun (key, _) =>
    match key with
    | .state s => .ok s
    | .value _ => panicRuntime "interface conversion: key is not a State"

/-- Compile a definition into a client in its initial state. -/
def newClient (d : Definition K M W) : Go (Client K M W) := do
  if d.initialState = NoState then panicText "initial state is required in protocol definition"
  else if d.finalState = NoState then panicText "final state is required in protocol definition"
  else
    let writer ← d.writer.compile
    let reader ← d.reader.compile
    let writeAt ← writeStates writer.transitions
    return {
      protocol := d.protocol, writeFirst := d.writeFirst, initialState := d.initialState
      finalState := d.finalState, state := d.initialState, writer := writer, reader := reader
      writeAt := writeAt }

namespace Client

/-- Whether an error only says that no transition is triggered. -/
def isBadTransition (err : Option Err) : Bool :=
  err = some .badTransitionKey || err = some .badTransitionState

/-- The error of a read: a lookup error is reported as an unexpected message. -/
def readError (err : Option Err) : Option Err :=
  if isBadTransition err then some .unexpectedMessage else err

/-- An error stays one. -/
theorem readError_some_ne_none (err : Err) : readError (some err) ≠ none := by
  unfold readError
  split <;> simp

/-- Trigger the write transition of the current state and return its message. -/
def writeMessage [DecidableEq K] (s : Client K M W) (world : W) : Go (Written K M W) := do
  let (state, returned) ← s.writer.transition (.state s.state) s.state s.state world none
  let s := { s with state := state }
  if isBadTransition returned.err then return ⟨s, returned.world, none, some .nothingToWrite⟩
  else match returned.out with
    | none => panicRuntime "interface conversion: interface is nil, not proto.Message"
    | some message => return ⟨s, returned.world, some message, returned.err⟩

/-- Trigger the read transition of the message's type in the current state. -/
def readMessage [DecidableEq K] (s : Client K M W) (world : W) (message : M) :
    Go (ReadResult K M W) := do
  let messageType ← s.protocol.typeOf message
  let (state, returned) ← s.reader.transition messageType s.state s.state world (some message)
  return ⟨{ s with state := state }, returned.world, readError returned.err⟩

/-- Whether there is a message to write in the current state. -/
def canWrite (s : Client K M W) : Bool := s.state ∈ s.writeAt

/-- Whether a message has to be written before the next one is read. -/
def mustWrite (s : Client K M W) : Bool := s.writeFirst && s.canWrite

/-- Whether the final state is reached. -/
def isDone (s : Client K M W) : Bool := s.state = s.finalState

end Client

/-- The parts of a client that are fixed when its definition is compiled. -/
structure Compiles (d : Definition K M W) (c : Client K M W) : Prop where
  protocol : c.protocol = d.protocol
  writeFirst : c.writeFirst = d.writeFirst
  finalState : c.finalState = d.finalState
  writer : d.writer.compile = .ok c.writer
  reader : d.reader.compile = .ok c.reader
  writeAt : writeStates c.writer.transitions = .ok c.writeAt

/-- A new client starts in the initial state of the definition it compiles. -/
theorem newClient_eq_ok {d : Definition K M W} {c : Client K M W} (h : newClient d = .ok c) :
    Compiles d c ∧ c.state = d.initialState ∧ d.initialState ≠ NoState ∧ d.finalState ≠ NoState := by
  by_cases hi : d.initialState = NoState
  · simp [newClient, hi, panicText] at h
  by_cases hf : d.finalState = NoState
  · simp [newClient, hi, hf, panicText] at h
  simp only [newClient, hi, hf, if_false, Call.bind_eq_ok, Call.pure_eq_ok, Except.ok.injEq] at h
  obtain ⟨writer, hwriter, reader, hreader, writeAt, hwriteAt, rfl⟩ := h
  exact ⟨⟨rfl, rfl, rfl, hwriter, hreader, hwriteAt⟩, rfl, hi, hf⟩

/-- The transition of the definition that is triggered by writing in a state. -/
def Definition.writeTransition [DecidableEq K] (d : Definition K M W) (state : State) :
    Option (Transition (WriteMessageHandler W M)) :=
  (d.writeMessage.entries.lookup (.state state)).bind fun ts =>
    triggeredBelow (Key.state state : Key K) ts state

/-- The transition of the definition that is triggered by reading a message type in a state. -/
def Definition.readTransition [DecidableEq K] (d : Definition K M W) (key : Key K) (state : State) :
    Option (Transition (ReadMessageHandler W M)) :=
  (d.readMessage.entries.lookup key).bind fun ts => triggeredBelow key ts state

/-- The handle that an invocation of a transition gives to its handler. -/
def handleOf {D : Type} (t : Transition D) (state : State) : StateHandle :=
  newStateHandle state (t.atStates.getD []) (t.okStates.getD [])

/-- The write factory refuses a nil message and passes everything else on. -/
theorem writeFactory_run (key : Key K) (input : Any M) (handle : WriteMessageHandler W M)
    (world : W) (h : StateHandle) : (writeMessageHandlerFactory key handle world input).run h = (do
      let (returned, h) ← (handle world).run h
      if returned.out.isNone then panicText "written message needs be a protobuf message"
      else return (returned, h)) := by
  change ((handle world).bind _).run h = _
  rw [Handler.run_bind]
  cases (handle world).run h with
  | error value => rfl
  | ok result =>
    obtain ⟨⟨after, out, err⟩, h'⟩ := result
    cases out <;> rfl

/-- The read factory passes the handler's error on. -/
theorem readFactory_run (key : Key K) (handle : ReadMessageHandler W M) (world : W) (message : M)
    (h : StateHandle) : (readMessageHandlerFactory key handle world (some message)).run h = (do
      let ((world, err), h) ← (handle world message).run h
      return (⟨world, none, err⟩, h)) := by
  change ((handle world message).bind _).run h = _
  rw [Handler.run_bind]
  rfl

/-- The write states are exactly the state keys. -/
theorem mem_map_of_writeStates {entries : List (Key K × List (State × Invoker W M))}
    {states : List State} (h : writeStates entries = .ok states) (state : State) :
    (Key.state state : Key K) ∈ entries.map Prod.fst ↔ state ∈ states := by
  induction entries generalizing states with
  | nil =>
    simp only [writeStates, List.mapM_nil, Call.pure_eq_ok, Except.ok.injEq] at h
    simp [← h]
  | cons entry rest ih =>
    obtain ⟨key, invokers⟩ := entry
    simp only [writeStates, List.mapM_cons, Call.bind_eq_ok, Call.pure_eq_ok, Except.ok.injEq] at h
    obtain ⟨first, hfirst, others, hothers, rfl⟩ := h
    cases key with
    | value k => simp [panicRuntime] at hfirst
    | state s =>
      simp only [Except.ok.injEq] at hfirst
      simp [ih hothers, hfirst]

variable [DecidableEq K]

/-- Interpreting a map without a triggered transition only reports one of the two lookup errors. -/
theorem interpret_untriggered {D : Type} (a : Automaton K D W M) (key : Key K) (state cell : State)
    (world : W) (input : Any M)
    (h : ((a.transitions.entries.lookup key).bind fun ts => triggeredBelow key ts state) = none) :
    ∃ err, Client.isBadTransition err ∧ a.interpret key state cell world input = .ok (cell, ⟨world, none, err⟩) := by
  cases hkey : a.transitions.entries.lookup key with
  | none =>
    refine ⟨some .badTransitionKey, by decide, ?_⟩
    simp only [Automaton.interpret, hkey]
  | some ts =>
    rw [hkey, Option.bind_some] at h
    refine ⟨some .badTransitionState, by decide, ?_⟩
    simp only [Automaton.interpret, hkey, h]

/-- Interpreting a map with a triggered transition invokes it. -/
theorem interpret_triggered {D : Type} (a : Automaton K D W M) (key : Key K) (state cell : State)
    (world : W) (input : Any M) {t : Transition D}
    (h : ((a.transitions.entries.lookup key).bind fun ts => triggeredBelow key ts state) = some t) :
    a.interpret key state cell world input = t.invoke (a.handlerFactory key) cell world input := by
  obtain ⟨ts, hkey, ht⟩ := Option.bind_eq_some_iff.mp h
  simp only [Automaton.interpret, hkey, ht]

namespace Compiles

variable {d : Definition K M W} {c : Client K M W}

omit [DecidableEq K] in
/-- Only states with a transition are states to write in. -/
theorem canWrite_iff (h : Compiles d c) :
    c.canWrite = true ↔ (Key.state c.state : Key K) ∈ d.writeMessage.entries.map Prod.fst := by
  have hkeys : c.writer.transitions.map Prod.fst = d.writeMessage.entries.map Prod.fst :=
    Automaton.compile_keys h.writer
  rw [← hkeys, Client.canWrite, decide_eq_true_iff]
  exact (mem_map_of_writeStates h.writeAt c.state).symm

/-- Without a transition for the state there is nothing to write, and nothing changes. -/
theorem writeMessage_untriggered (h : Compiles d c) (world : W)
    (ht : d.writeTransition c.state = none) :
    c.writeMessage world = .ok ⟨c, world, none, some .nothingToWrite⟩ := by
  obtain ⟨err, hbad, hrun⟩ := interpret_untriggered d.writer (.state c.state) c.state c.state world none ht
  rw [← Automaton.compile_transition h.writer] at hrun
  simp [Client.writeMessage, hrun, hbad]

/-- Without a transition for the message it is unexpected, and nothing changes. -/
theorem readMessage_untriggered (h : Compiles d c) (world : W) (message : M) (key : Key K)
    (hkey : d.protocol.typeOf message = .ok key) (ht : d.readTransition key c.state = none) :
    c.readMessage world message = .ok ⟨c, world, some .unexpectedMessage⟩ := by
  obtain ⟨err, hbad, hrun⟩ := interpret_untriggered d.reader key c.state c.state world (some message) ht
  rw [← Automaton.compile_transition h.reader] at hrun
  rw [← h.protocol] at hkey
  simp [Client.readMessage, hkey, hrun, Client.readError, hbad]

/-- Writing in a state with a transition invokes it and returns its message. -/
theorem writeMessage_triggered (h : Compiles d c) (world : W)
    {t : Transition (WriteMessageHandler W M)} (ht : d.writeTransition c.state = some t) :
    c.writeMessage world = (do
      let (state, returned) ← t.invoke (writeMessageHandlerFactory (Key.state c.state : Key K)) c.state world none
      if Client.isBadTransition returned.err then
        return ⟨{ c with state := state }, returned.world, none, some .nothingToWrite⟩
      else match returned.out with
        | none => panicRuntime "interface conversion: interface is nil, not proto.Message"
        | some message => return ⟨{ c with state := state }, returned.world, some message, returned.err⟩) := by
  have hrun := interpret_triggered d.writer (.state c.state) c.state c.state world none ht
  rw [← Automaton.compile_transition h.writer] at hrun
  simp only [Client.writeMessage, hrun]
  rfl

/-- Reading a message with a transition invokes it. -/
theorem readMessage_triggered (h : Compiles d c) (world : W) (message : M) (key : Key K)
    (hkey : d.protocol.typeOf message = .ok key)
    {t : Transition (ReadMessageHandler W M)} (ht : d.readTransition key c.state = some t) :
    c.readMessage world message = (do
      let (state, returned) ← t.invoke (readMessageHandlerFactory key) c.state world (some message)
      return ⟨{ c with state := state }, returned.world, Client.readError returned.err⟩) := by
  have hrun := interpret_triggered d.reader key c.state c.state world (some message) ht
  rw [← Automaton.compile_transition h.reader] at hrun
  rw [← h.protocol] at hkey
  simp only [Client.readMessage, hkey, Call.ok_bind, hrun]
  rfl

section Write

variable (h : Compiles d c) (world : W) {t : Transition (WriteMessageHandler W M)}
  (ht : d.writeTransition c.state = some t) {handle : WriteMessageHandler W M} (hd : t.doHandler = some handle)
include h ht hd

/-- A panic of the handler is a panic of the write. -/
theorem writeMessage_panic {value : Panic Err}
    (hrun : (handle world).run (handleOf t c.state) = .error value) :
    c.writeMessage world = .error value := by
  rw [h.writeMessage_triggered world ht]
  unfold handleOf at hrun
  simp [Transition.invoke, Transition.handler, hd, writeFactory_run, hrun]

/-- A handler that returns no message makes the write panic. -/
theorem writeMessage_nil {returned : Returned W M} {sh : StateHandle}
    (hrun : (handle world).run (handleOf t c.state) = .ok (returned, sh))
    (hout : returned.out = none) :
    c.writeMessage world = panicText "written message needs be a protobuf message" := by
  rw [h.writeMessage_triggered world ht]
  unfold handleOf at hrun
  simp [Transition.invoke, Transition.handler, hd, writeFactory_run, hrun, hout, panicText]

/-- A handler that uses its handle properly determines the message, the error and the new state. -/
theorem writeMessage_of_run {returned : Returned W M} {sh : StateHandle} {message : M}
    (hrun : (handle world).run (handleOf t c.state) = .ok (returned, sh))
    (hout : returned.out = some message) (hfailed : ¬ (returned.err.isSome ∧ sh.mutated))
    (hset : ¬ (returned.err.isNone ∧ t.okStates.isSome ∧ ¬ sh.mutated)) :
    c.writeMessage world =
      if Client.isBadTransition returned.err then
        .ok ⟨{ c with state := t.finalState sh }, returned.world, none, some .nothingToWrite⟩
      else .ok ⟨{ c with state := t.finalState sh }, returned.world, some message, returned.err⟩ := by
  rw [h.writeMessage_triggered world ht]
  unfold handleOf at hrun
  simp only [Transition.invoke, Transition.handler, hd, writeFactory_run, hrun, hout, Call.ok_bind,
    Option.isNone_some, Bool.false_eq_true, if_false, Call.pure_eq_ok, if_neg hfailed, if_neg hset]

/-- A handler that only returns a message moves the client to the destination. -/
theorem writeMessage_ret {after : W} {message : M} (hok : t.okStates = none)
    (hret : handle world = .ret ⟨after, some message, none⟩) :
    c.writeMessage world = .ok ⟨{ c with state := t.finalState (handleOf t c.state) }, after, some message, none⟩ := by
  have hrun : (handle world).run (handleOf t c.state) = .ok (⟨after, some message, none⟩, handleOf t c.state) := by
    rw [hret]
    rfl
  rw [h.writeMessage_of_run world ht hd hrun rfl (by simp) (by simp [hok])]
  rfl

end Write

section Read

variable (h : Compiles d c) (world : W) {message : M} {key : Key K} (hkey : d.protocol.typeOf message = .ok key)
  {t : Transition (ReadMessageHandler W M)} (ht : d.readTransition key c.state = some t)
include h hkey ht

/-- Without a handler the client only moves to the destination. -/
theorem readMessage_to (hd : t.doHandler = none) (hok : t.okStates = none) :
    c.readMessage world message =
      .ok ⟨{ c with state := if t.toState ≠ NoState then t.toState else c.state }, world, none⟩ := by
  rw [h.readMessage_triggered world message key hkey ht]
  simp [Transition.invoke, Transition.handler, hd, hok, emptyTransitionHandler, Handler.run,
    newStateHandle, Transition.finalState, Client.readError, Client.isBadTransition]

variable {handle : ReadMessageHandler W M} (hd : t.doHandler = some handle)
include hd

/-- A panic of the handler is a panic of the read. -/
theorem readMessage_panic {value : Panic Err}
    (hrun : (handle world message).run (handleOf t c.state) = .error value) :
    c.readMessage world message = .error value := by
  rw [h.readMessage_triggered world message key hkey ht]
  unfold handleOf at hrun
  simp [Transition.invoke, Transition.handler, hd, readFactory_run, hrun]

/-- A handler that uses its handle properly determines the error and the new state. -/
theorem readMessage_of_run {after : W} {err : Option Err} {sh : StateHandle}
    (hrun : (handle world message).run (handleOf t c.state) = .ok ((after, err), sh))
    (hfailed : ¬ (err.isSome ∧ sh.mutated))
    (hset : ¬ (err.isNone ∧ t.okStates.isSome ∧ ¬ sh.mutated)) :
    c.readMessage world message = .ok ⟨{ c with state := t.finalState sh }, after, Client.readError err⟩ := by
  rw [h.readMessage_triggered world message key hkey ht]
  unfold handleOf at hrun
  simp only [Transition.invoke, Transition.handler, hd, readFactory_run, hrun, Call.ok_bind,
    Call.pure_eq_ok, if_neg hfailed, if_neg hset]

/-- A handler that does not touch its handle moves the client to the destination, error or not. -/
theorem readMessage_call {x : Go (W × Option Err)} (hok : t.okStates = none)
    (hx : handle world message = .call x) :
    c.readMessage world message = (do
      let (after, err) ← x
      return ⟨{ c with state := t.finalState (handleOf t c.state) }, after, Client.readError err⟩) := by
  cases x with
  | error value =>
    refine h.readMessage_panic world hkey ht hd ?_
    rw [hx]
    rfl
  | ok result =>
    obtain ⟨after, err⟩ := result
    have hrun : (handle world message).run (handleOf t c.state) = .ok ((after, err), handleOf t c.state) := by
      rw [hx]
      rfl
    rw [h.readMessage_of_run world hkey ht hd hrun (by simp [handleOf, newStateHandle]) (by simp [hok])]
    rfl

end Read

end Compiles

end Protocol

end ProjektCore
