import Mathlib.Logic.Function.Basic
import ProjektCore.Session.Message

/-!
# The goroutines of a session

A session runs a reading goroutine and a broker. Calls to `OpenChannel` and `AcceptChannel` register
with the broker, exchange messages with the peer and then hand their channel to the broker; each
channel has a handler that queues its messages. Channels of Go are not buffered here, so a goroutine
that sends waits until the other one receives.

A call and the channel it creates share a number. The messages that a channel's `Write` has written
and that its `Read` has returned are recorded with it.
-/

namespace ProjektCore.Session

open Foundation

/-- Which of the two calls creates a channel. -/
inductive CallKind where
  | opener
  | acceptor
deriving Repr, DecidableEq

/-- How far a call is. An opener registers, writes its message and waits for the peer; an acceptor
registers, waits for the peer and writes its message. -/
inductive CallPhase where
  | registering
  | writing
  | waiting
  /-- It hands its channel to the broker. -/
  | joining
  | returned
  | failed (err : Err)
deriving Repr, DecidableEq

/-- A call and its channel. -/
structure ChannelCall (M : Type) where
  kind : CallKind
  handle : ChannelHandle
  phase : CallPhase
  /-- The peer has accepted the channel of an opener. -/
  accepted : Bool
  queue : List M
  isClosed : Bool
  hasExited : Bool
  written : List M
  read : List M

/-- A call that has just been made. -/
def ChannelCall.new {M : Type} (kind : CallKind) (protocolId : ℤ) (id : ℕ) : ChannelCall M :=
  ⟨kind, ⟨protocolId, id⟩, .registering, false, [], false, false, [], []⟩

/-- What the broker does. -/
inductive Broker (M : Type) where
  | ready
  /-- It tells an acceptor about a channel. -/
  | opening (k : ℕ) (channelId : ℕ) (protocolId : ℤ)
  /-- It hands a message to the handler of a channel. -/
  | delivering (k : ℕ) (message : M)
  | panicked
  | stopped

/-- Whether the broker waits for something to do. -/
def Broker.isReady {M : Type} : Broker M → Bool
  | .ready => true
  | _ => false

/-- The state of a session. -/
structure SessionState (M : Type) where
  nextId : ℕ
  broker : Broker M
  reader : Reader
  channels : ℕ → Option ℕ
  opens : ℤ → Option ℕ
  accepts : ℕ → Option ℕ
  calls : ℕ → Option (ChannelCall M)
  isDone : Bool

/-- What the goroutines of a session do. -/
inductive SessionEvent (M : Type) where
  | openChannel (k : ℕ) (protocolId : ℤ)
  | acceptChannel (k : ℕ) (protocolId : ℤ)
  /-- The broker takes the registration of a call, a message of the reading goroutine or a
  channel. -/
  | takeWait (k : ℕ)
  | takeMessage
  | takeChannel (k : ℕ)
  /-- The one that the broker hands something to receives it. -/
  | pass
  /-- A call writes its message; the connection may fail. -/
  | writeCall (k : ℕ) (failure : Option Err)
  /-- An opener finds its channel to be accepted. -/
  | proceed (k : ℕ)
  /-- The reading goroutine receives a message. -/
  | receive (message : Message)
  /-- The methods of a channel. -/
  | write (k : ℕ) (message : M) (failure : Option Err)
  | read (k : ℕ)
  | close (k : ℕ) (failure : Option Err)
  /-- The handler of a closed channel exits. -/
  | exit (k : ℕ)
  | closeSession
  | stopBroker
  /-- The reading goroutine finds the connection to be at its end or closed. Any other error of the
  connection is a panic of the program, which is not a step. -/
  | stopReader
  /-- A call finds the session to be closed. -/
  | leave (k : ℕ)

namespace SessionState

variable {M : Type}

/-- The number of the first channel that a side opens. -/
def firstChannelId (isInitiator : Bool) : ℕ := if isInitiator then 1 else 2

/-- A new session. -/
def new (isInitiator : Bool) : SessionState M :=
  ⟨firstChannelId isInitiator, .ready, .reading, fun _ => none, fun _ => none, fun _ => none, fun _ => none, false⟩

/-- Replace a call. -/
def setCall (s : SessionState M) (k : ℕ) (call : ChannelCall M) : SessionState M :=
  { s with calls := Function.update s.calls k (some call) }

/-- The replaced call. -/
theorem setCall_self (s : SessionState M) (k : ℕ) (call : ChannelCall M) :
    (s.setCall k call).calls k = some call :=
  Function.update_self ..

/-- The other calls. -/
theorem setCall_of_ne (s : SessionState M) {j k : ℕ} (call : ChannelCall M) (h : j ≠ k) :
    (s.setCall k call).calls j = s.calls j :=
  Function.update_of_ne h ..

/-- A call is either the replaced one or another one. -/
theorem setCall_cases {s : SessionState M} {j k : ℕ} {call other : ChannelCall M}
    (h : (s.setCall k call).calls j = some other) :
    j = k ∧ other = call ∨ j ≠ k ∧ s.calls j = some other := by
  by_cases hj : j = k
  · subst hj
    rw [setCall_self, Option.some.injEq] at h
    exact .inl ⟨rfl, h.symm⟩
  · rw [setCall_of_ne s call hj] at h
    exact .inr ⟨hj, h⟩

/-- The broker registers an opener. -/
def waitAccept (s : SessionState M) (k : ℕ) (call : ChannelCall M) : SessionState M :=
  if (s.accepts call.handle.id).isSome || (s.channels call.handle.id).isSome then { s with broker := .panicked }
  else
    { s.setCall k { call with phase := .writing } with
      accepts := Function.update s.accepts call.handle.id (some k) }

/-- The broker registers an acceptor. -/
def waitOpen (s : SessionState M) (k : ℕ) (call : ChannelCall M) : SessionState M :=
  if (s.opens call.handle.protocolId).isSome then { s with broker := .panicked }
  else
    { s.setCall k { call with phase := .waiting } with
      opens := Function.update s.opens call.handle.protocolId (some k) }

/-- The broker takes a message that opens a channel. -/
def inOpen (s : SessionState M) (channelId : ℕ) (protocolId : ℤ) : SessionState M :=
  if (s.channels channelId).isSome then s
  else
    match s.opens protocolId with
    | none => s
    | some k => { s with broker := .opening k channelId protocolId }

/-- The broker takes a message that accepts a channel. -/
def inAccept (s : SessionState M) (channelId : ℕ) : SessionState M :=
  if (s.channels channelId).isSome then s
  else
    match s.accepts channelId with
    | none => s
    | some k =>
      match s.calls k with
      | none => s
      | some call =>
        { s.setCall k { call with accepted := true } with accepts := Function.update s.accepts channelId none }

/-- The broker takes data. -/
def inData (protocols : Protocols M) (s : SessionState M) (data : Data) : SessionState M :=
  match s.channels data.channelId with
  | none => s
  | some k =>
    match s.calls k with
    | none => s
    | some call =>
      match call.handle.decode protocols data with
      | .error _ => s
      | .ok message => { s with broker := .delivering k message }

/-- The broker takes a channel. -/
def register (s : SessionState M) (k : ℕ) (call : ChannelCall M) : SessionState M :=
  if (s.channels call.handle.id).isSome then { s with broker := .panicked }
  else
    { s.setCall k { call with phase := .returned } with
      channels := Function.update s.channels call.handle.id (some k) }

/-- An acceptor is told about a channel. -/
def opened (s : SessionState M) (k : ℕ) (call : ChannelCall M) (channelId : ℕ) (protocolId : ℤ) :
    SessionState M :=
  { s.setCall k { call with handle := ⟨call.handle.protocolId, channelId⟩, phase := .writing } with
    broker := .ready
    opens := Function.update s.opens protocolId none }

/-- A call that has written its message goes on. -/
def afterWrite : CallKind → CallPhase
  | .opener => .waiting
  | .acceptor => .joining

/-- One step of a session. -/
def step (protocols : Protocols M) (s : SessionState M) : SessionEvent M → Option (SessionState M)
  | .openChannel k protocolId =>
    match s.calls k with
    | some _ => none
    | none => some ({ s with nextId := (s.nextId + 2) % 2 ^ 64 }.setCall k (.new .opener protocolId s.nextId))
  | .acceptChannel k protocolId =>
    match s.calls k with
    | some _ => none
    | none => some (s.setCall k (.new .acceptor protocolId 0))
  | .takeWait k => do
    let call ← s.calls k
    if s.broker.isReady ∧ call.phase = .registering then
      match call.kind with
      | .opener => some (s.waitAccept k call)
      | .acceptor => some (s.waitOpen k call)
    else none
  | .takeMessage =>
    if s.broker.isReady then
      match s.reader with
      | .data data => some ({ s with reader := .reading }.inData protocols data)
      | .inOpen channelId protocolId => some ({ s with reader := .reading }.inOpen channelId protocolId)
      | .inAccept channelId => some ({ s with reader := .reading }.inAccept channelId)
      | .reading | .stopped => none
    else none
  | .takeChannel k => do
    let call ← s.calls k
    if s.broker.isReady ∧ call.phase = .joining then some (s.register k call) else none
  | .pass =>
    match s.broker with
    | .opening k channelId protocolId => do
      let call ← s.calls k
      if call.phase = .waiting then some (s.opened k call channelId protocolId) else none
    | .delivering k message => do
      let call ← s.calls k
      if call.hasExited then none
      else some { s.setCall k { call with queue := call.queue ++ [message] } with broker := .ready }
    | .ready | .panicked | .stopped => none
  | .writeCall k failure => do
    let call ← s.calls k
    if call.phase = .writing then
      match failure with
      | some err => some (s.setCall k { call with phase := .failed err })
      | none => some (s.setCall k { call with phase := afterWrite call.kind })
    else none
  | .proceed k => do
    let call ← s.calls k
    if call.kind = .opener ∧ call.phase = .waiting ∧ call.accepted then
      some (s.setCall k { call with phase := .joining })
    else none
  | .receive message =>
    match s.reader with
    | .reading => some { s with reader := readHandler message }
    | _ => none
  | .write k message failure => do
    let call ← s.calls k
    if call.phase = .returned ∧ call.isClosed = false then
      match call.handle.wrapMessage protocols message, failure with
      | .ok _, none => some (s.setCall k { call with written := call.written ++ [message] })
      | .ok _, some _ => some s
      | .error _, _ => some s
    else none
  | .read k => do
    let call ← s.calls k
    match call.queue with
    | [] => none
    | message :: rest =>
      if call.phase = .returned ∧ call.hasExited = false then
        some (s.setCall k { call with queue := rest, read := call.read ++ [message] })
      else none
  | .close k _ => do
    let call ← s.calls k
    if call.phase = .returned ∧ call.isClosed = false then some (s.setCall k { call with isClosed := true }) else none
  | .exit k => do
    let call ← s.calls k
    if call.isClosed ∧ call.hasExited = false then some (s.setCall k { call with hasExited := true, queue := [] })
    else none
  | .closeSession => if s.isDone then none else some { s with isDone := true }
  | .stopBroker =>
    if s.isDone then
      match s.broker with
      | .ready | .delivering .. => some { s with broker := .stopped }
      | .opening .. | .panicked | .stopped => none
    else none
  | .stopReader =>
    match s.reader with
    | .reading => some { s with reader := .stopped }
    | _ => none
  | .leave k => do
    let call ← s.calls k
    if s.isDone ∧ call.phase = .waiting then some (s.setCall k { call with phase := .failed .sessionClosed }) else none

/-- The messages that a step writes to the connection. -/
def sends (protocols : Protocols M) (s : SessionState M) : SessionEvent M → List Message
  | .writeCall k none =>
    match s.calls k with
    | none => []
    | some call =>
      match call.kind with
      | .opener => [call.handle.openMessage]
      | .acceptor => [call.handle.acceptMessage]
  | .write k message none =>
    match s.calls k with
    | none => []
    | some call =>
      match call.handle.wrapMessage protocols message with
      | .ok data => [⟨some (.data data)⟩]
      | .error _ => []
  | .close k none =>
    match s.calls k with
    | none => []
    | some call => [call.handle.closeMessage]
  | _ => []

end SessionState

/-- The messages that a step takes from the connection. -/
def SessionEvent.receives {M : Type} : SessionEvent M → List Message
  | .receive message => [message]
  | _ => []

end ProjektCore.Session
