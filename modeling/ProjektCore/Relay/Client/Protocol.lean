import ProjektCore.Relay.Client.Waits

/-!
# The protocol of a relay client

The message handler of a client reads the messages of the server one by one and hands them to the
request handler and to the session handler, waiting until they take them. A caller that requests a
session and gets one goes on to wait until the session is accepted.
-/

namespace ProjektCore.Relay

open Foundation

/-- What the message handler does: it reads, or it hands a message to one of the other handlers. -/
inductive MessageHandler where
  /-- The protocol is started by the first message. -/
  | starting
  | reading
  | response (targetIdentity : Bytes) (output : RequestOutput) (result : Option SessionResult)
  | result (result : SessionResult)
  | accept (accept : SessionAccepted)
  | failed
  | ended
deriving Repr, DecidableEq

/-- A client, the messages that it has not read yet and those that the server has not read yet. -/
structure Client where
  requests : Requests
  waits : Waits
  messages : MessageHandler
  incoming : List Message
  outgoing : List Message

/-- What the goroutines of a client do. -/
inductive ClientEvent where
  | requests (event : RequestEvent)
  | waits (event : WaitEvent)
  /-- A caller whose request was successful waits for the session to be accepted. -/
  | readAccept (k : ℕ)
  /-- The message handler reads a message, or its connection fails. -/
  | read
  | readFails
  /-- The message handler hands a message to another handler. -/
  | sendResponse
  | sendResult
  | sendAccept
deriving Repr, DecidableEq

/-- Handle a message. -/
def handleMessage : Message → Except Err MessageHandler
  | .sessionFailed reason peer =>
    .ok (.response peer (.error (reasonToError reason)) (some (.failed reason peer)))
  | .sessionCreated session target => .ok (.response target (.ok session) none)
  | .sessionAccepted target data => .ok (.accept ⟨target, data⟩)
  | .sessionInvitation .. => .ok .reading
  | .sessionEstablished initiator => .ok (.result (.established initiator))
  | .connected | .alreadyConnected | .requestSession .. | .acceptSession .. => .error .unexpectedMessage

namespace Client

/-- A client that has not been started. -/
def new : Client := ⟨.new, .new, .starting, [], []⟩

/-- The handlers run once the protocol is started. -/
def isStarted (c : Client) : Bool := c.messages ≠ .starting ∧ c.messages ≠ .failed

/-- The message handler ends and closes the protocol. -/
def close (c : Client) : Client :=
  { c with messages := .ended, requests := { c.requests with isDone := true } }

/-- The message handler receives a message. -/
def receive (c : Client) (message : Message) : Option Client :=
  match c.messages with
  | .starting => some { c with messages := if message = .connected then .reading else .failed }
  | .reading =>
    if c.requests.isDone then some c.close
    else
      match handleMessage message with
      | .error _ => some c.close
      | .ok messages => some { c with messages := messages }
  | _ => none

/-- A step around the request table. -/
def requestStep (c : Client) (event : RequestEvent) : Option Client := do
  let requests ← c.requests.step event
  some { c with requests := requests, outgoing := c.outgoing ++ c.requests.sends event }

/-- A step around the session handler. -/
def waitStep (c : Client) (event : WaitEvent) : Option Client := do
  let waits ← c.waits.step c.requests.isDone event
  some { c with waits := waits, outgoing := c.outgoing ++ c.waits.sends event }

/-- One step of a client. -/
def step (c : Client) : ClientEvent → Option Client
  | .requests event =>
    match event with
    | .takeResponse .. => none
    | event => if c.isStarted then c.requestStep event else none
  | .waits event =>
    match event with
    | .readAccept .. | .takeAccept _ | .takeResult _ => none
    | event => if c.isStarted then c.waitStep event else none
  | .readAccept k =>
    match c.requests.calls k with
    | some ⟨targetIdentity, _, .returned (.ok _), _, _⟩ => c.waitStep (.readAccept k targetIdentity)
    | _ => none
  | .read =>
    match c.incoming with
    | [] => none
    | message :: rest => { c with incoming := rest }.receive message
  | .readFails =>
    match c.messages with
    | .starting => some { c with messages := .failed }
    | .reading => some c.close
    | _ => none
  | .sendResponse =>
    match c.messages with
    | .response targetIdentity output result =>
      { c with messages := (result.map MessageHandler.result).getD .reading }.requestStep
        (.takeResponse targetIdentity output)
    | _ => none
  | .sendResult =>
    match c.messages with
    | .result result => { c with messages := .reading }.waitStep (.takeResult result)
    | _ => none
  | .sendAccept =>
    match c.messages with
    | .accept accept => { c with messages := .reading }.waitStep (.takeAccept accept)
    | _ => none

/-- A step around the request table does not change the waiting calls. -/
theorem requestStep_waits {c d : Client} {event : RequestEvent} (h : c.requestStep event = some d) :
    d.waits = c.waits := by
  simp only [requestStep, Option.bind_eq_bind, Option.bind_eq_some_iff, Option.some.injEq] at h
  obtain ⟨requests, -, rfl⟩ := h
  rfl

/-- A step around the session handler is a step of the waiting calls. -/
theorem waitStep_waits {c d : Client} {event : WaitEvent} (h : c.waitStep event = some d) :
    c.waits.step c.requests.isDone event = some d.waits := by
  simp only [waitStep, Option.bind_eq_bind, Option.bind_eq_some_iff, Option.some.injEq] at h
  obtain ⟨waits, hwaits, rfl⟩ := h
  exact hwaits

/-- A step around the session handler changes neither the message handler nor the request table. -/
theorem waitStep_frame {c d : Client} {event : WaitEvent} (h : c.waitStep event = some d) :
    d.messages = c.messages ∧ d.requests = c.requests := by
  simp only [waitStep, Option.bind_eq_bind, Option.bind_eq_some_iff, Option.some.injEq] at h
  obtain ⟨waits, -, rfl⟩ := h
  exact ⟨rfl, rfl⟩

/-- A step of the waiting calls is a step around the session handler. -/
theorem waitStep_of_step {c : Client} {event : WaitEvent} {waits : Waits}
    (h : c.waits.step c.requests.isDone event = some waits) :
    ∃ d, c.waitStep event = some d ∧ d.waits = waits := by
  refine ⟨{ c with waits := waits, outgoing := c.outgoing ++ c.waits.sends event }, ?_, rfl⟩
  rw [waitStep, h]
  rfl

end Client

/-- The effects of the steps of a client. -/
inductive ClientEffect (c : Client) : ClientEvent → Client → Prop
  | requests {event : RequestEvent} {d : Client} :
      (∀ target output, event ≠ .takeResponse target output) →
      c.isStarted = true → c.requestStep event = some d → ClientEffect c (.requests event) d
  | waits {event : WaitEvent} {d : Client} : (∀ k target, event ≠ .readAccept k target) →
      (∀ accept, event ≠ .takeAccept accept) → (∀ result, event ≠ .takeResult result) → c.isStarted = true →
      c.waitStep event = some d → ClientEffect c (.waits event) d
  | readAccept {k : ℕ} {call : RequestCall} {info : SessionInfo} {d : Client} :
      c.requests.calls k = some call →
      call.phase = .returned (.ok info) → c.waitStep (.readAccept k call.targetIdentity) = some d →
      ClientEffect c (.readAccept k) d
  | connect {rest : List Message} : c.incoming = .connected :: rest → c.messages = .starting →
      ClientEffect c .read { c with incoming := rest, messages := .reading }
  | refuse {message : Message} {rest : List Message} :
      c.incoming = message :: rest → c.messages = .starting →
      message ≠ .connected → ClientEffect c .read { c with incoming := rest, messages := .failed }
  | receive {message : Message} {rest : List Message} {messages : MessageHandler} :
      c.incoming = message :: rest →
      c.messages = .reading → c.requests.isDone = false → handleMessage message = .ok messages →
      ClientEffect c .read { c with incoming := rest, messages := messages }
  | receiveDone {message : Message} {rest : List Message} :
      c.incoming = message :: rest → c.messages = .reading →
      c.requests.isDone = true → ClientEffect c .read { c with incoming := rest }.close
  | receiveFails {message : Message} {rest : List Message} {err : Err} :
      c.incoming = message :: rest →
      c.messages = .reading → c.requests.isDone = false → handleMessage message = .error err →
      ClientEffect c .read { c with incoming := rest }.close
  | connectFails : c.messages = .starting → ClientEffect c .readFails { c with messages := .failed }
  | readFails : c.messages = .reading → ClientEffect c .readFails c.close
  | sendResponse {target : Bytes} {output : RequestOutput} {result : Option SessionResult}
      {d : Client} :
      c.messages = .response target output result →
      { c with messages := (result.map MessageHandler.result).getD .reading }.requestStep
        (.takeResponse target output) = some d →
      ClientEffect c .sendResponse d
  | sendResult {result : SessionResult} {d : Client} : c.messages = .result result →
      { c with messages := .reading }.waitStep (.takeResult result) = some d → ClientEffect c .sendResult d
  | sendAccept {accept : SessionAccepted} {d : Client} : c.messages = .accept accept →
      { c with messages := .reading }.waitStep (.takeAccept accept) = some d → ClientEffect c .sendAccept d

namespace Client

/-- What the message handler does with a message. -/
theorem effect_of_receive {c d : Client} {message : Message} {rest : List Message}
    (hincoming : c.incoming = message :: rest)
    (h : { c with incoming := rest }.receive message = some d) :
    ClientEffect c .read d := by
  unfold receive at h
  split at h
  · next hstarting =>
    obtain rfl := Option.some.inj h
    by_cases hconnected : message = .connected
    · subst hconnected
      exact .connect hincoming hstarting
    · rw [if_neg hconnected]
      exact .refuse hincoming hstarting hconnected
  · next hreading =>
    split at h
    · next hdone =>
      obtain rfl := Option.some.inj h
      exact .receiveDone hincoming hreading hdone
    · next hdone =>
      have hopen : c.requests.isDone = false := Bool.eq_false_iff.mpr hdone
      split at h
      · next err herr =>
        obtain rfl := Option.some.inj h
        exact .receiveFails hincoming hreading hopen herr
      · next messages hmessages =>
        obtain rfl := Option.some.inj h
        exact .receive hincoming hreading hopen hmessages
  · cases h

/-- Every step has one of the effects. -/
theorem step_effect {c d : Client} {event : ClientEvent} (h : c.step event = some d) :
    ClientEffect c event d := by
  cases event with
  | requests event =>
    simp only [step] at h
    split at h
    · cases h
    · next hevent =>
      rw [Option.ite_none_right_eq_some] at h
      exact .requests hevent h.1 h.2
  | waits event =>
    simp only [step] at h
    split at h
    · cases h
    · cases h
    · cases h
    · next hread haccept hresult =>
      rw [Option.ite_none_right_eq_some] at h
      exact .waits hread haccept hresult h.1 h.2
  | readAccept k =>
    simp only [step] at h
    split at h
    · next hcall => exact .readAccept hcall rfl h
    · cases h
  | read =>
    simp only [step] at h
    split at h
    · cases h
    · next message rest hincoming => exact effect_of_receive hincoming h
  | readFails =>
    simp only [step] at h
    split at h
    · next hstarting =>
      obtain rfl := Option.some.inj h
      exact .connectFails hstarting
    · next hreading =>
      obtain rfl := Option.some.inj h
      exact .readFails hreading
    · cases h
  | sendResponse =>
    simp only [step] at h
    split at h
    · next hmessages => exact .sendResponse hmessages h
    · cases h
  | sendResult =>
    simp only [step] at h
    split at h
    · next hmessages => exact .sendResult hmessages h
    · cases h
  | sendAccept =>
    simp only [step] at h
    split at h
    · next hmessages => exact .sendAccept hmessages h
    · cases h

/-- A step changes the waiting calls by a step of theirs, or not at all. -/
theorem step_waits {c d : Client} {event : ClientEvent} (h : c.step event = some d) :
    d.waits = c.waits ∨ ∃ event, c.waits.step c.requests.isDone event = some d.waits := by
  cases step_effect h with
  | requests _ _ hstep | sendResponse _ hstep =>
    have hwaits := requestStep_waits hstep
    exact .inl hwaits
  | waits _ _ _ _ hstep | readAccept _ _ hstep | sendResult _ hstep | sendAccept _ hstep =>
    have hwaits := waitStep_waits hstep
    exact .inr ⟨_, hwaits⟩
  | connect | refuse | receive | receiveDone | receiveFails | connectFails | readFails => exact .inl rfl

end Client

end ProjektCore.Relay
