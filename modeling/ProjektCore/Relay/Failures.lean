import ProjektCore.Relay.Acceptance
import ProjektCore.Relay.Audit

/-!
# Failures of a request and of an acceptance

The server answers a request and an acceptance that fail with the same type of message. Its reason
tells which of the two failed, but the client does not look at it: every failure is handed to the
request handler and to the session handler, and each of them looks for a call with the identity of
the peer. A client that requests a session with a peer while it accepts one of the same peer has
such a call in both tables.
-/

namespace ProjektCore.Relay

open Foundation

/-- Whether a failure is the answer to a request, rather than to an acceptance. -/
def SessionError.answersRequest : SessionError → Bool
  | .targetUnavailable | .sessionExists => true
  | .unknownSession | .sessionAlreadyAccepted | .initiatorUnavailable | .none => false

/-- The message that a failure answers. -/
def SessionError.answered (reason : SessionError) (peer data : Bytes) : Message :=
  if reason.answersRequest then .requestSession peer data else .acceptSession peer data

/-- The failures with which a goroutine can answer the message that it handles. -/
def ClientHandler.failures : ClientHandler → List SessionError
  | .request .. => [.targetUnavailable]
  | .create .. => [.sessionExists]
  | .accept .. => [.unknownSession, .sessionAlreadyAccepted]
  | .notify .. => [.initiatorUnavailable]
  | .reading | .leaving | .ended => []

/-- A failure is sent by the goroutine of the client whose message is handled, and leaves the
sessions as they are. -/
theorem Server.failed_cases {s t : Server} {event : ServerEvent} (h : s.step event = some t)
    {write : PendingWrite} (hwrite : write ∈ Audit.started s t) {reason : SessionError}
    {peer : Bytes} (hmessage : write.message = .sessionFailed reason peer) :
    ∃ keys identity handler data, event = .run write.conn keys ∧
      s.handlers write.conn = some (identity, handler) ∧ handler.handles = some (reason.answered peer data) ∧
      reason ∈ handler.failures ∧ t.sessions = s.sessions := by
  cases step_effect h with
  | reject | add =>
    simp only [Audit.started, List.drop_left, List.mem_singleton] at hwrite
    subst hwrite
    cases hmessage
  | writeFails | write | greet =>
    have hnil (position : ℕ) := List.drop_eq_nil_of_le (List.length_eraseIdx_le s.writes position)
    simp [Audit.started, setHandler, hnil] at hwrite
  | receive | disconnect | findTarget | accept | deleteClient | panic | deleteSession =>
    simp [Audit.started, handleMessage, setHandler] at hwrite
  | noTarget hhandler | sessionExists hhandler | unknownSession hhandler | alreadyAccepted hhandler
  | noInitiator hhandler =>
    simp only [Audit.started, goWrite, setHandler, List.drop_left, List.mem_singleton] at hwrite
    subst hwrite
    obtain ⟨rfl, rfl⟩ := Message.sessionFailed.inj hmessage
    exact ⟨_, _, _, _, rfl, hhandler, rfl, by simp [ClientHandler.failures], rfl⟩
  | create | notify =>
    simp only [Audit.started, goWrite, setHandler, List.append_assoc, List.drop_left,
      List.cons_append, List.nil_append, List.mem_cons, List.not_mem_nil, or_false] at hwrite
    rcases hwrite with rfl | rfl <;> cases hmessage

namespace Requests

variable {s t : Requests}

/-- Offering an output does not touch the handler and its table. -/
theorem offerRequestOutput_frame (s : Requests) (k : ℕ) (output : RequestOutput) :
    (s.offerRequestOutput k output).handler = s.handler ∧ (s.offerRequestOutput k output).requests = s.requests := by
  simp only [offerRequestOutput]
  split
  · exact ⟨rfl, rfl⟩
  · split <;> exact ⟨rfl, rfl⟩

/-- Closing the protocol does not touch the handler and its table. -/
theorem handleConnErr_frame (s : Requests) (err : Err) :
    (s.handleConnErr err).handler = s.handler ∧ (s.handleConnErr err).requests = s.requests := by
  simp only [handleConnErr]
  split <;> exact ⟨rfl, rfl⟩

/-- Writing a message does not touch the handler and its table. -/
theorem writeRequest_frame (s : Requests) (k : ℕ) (call : RequestCall) (failure : Option Err) :
    (s.writeRequest k call failure).handler = s.handler ∧ (s.writeRequest k call failure).requests = s.requests := by
  have hoffered (next : Requests) (output : RequestOutput) (err : Err) :
      ((next.offerRequestOutput k output).handleConnErr err).handler = next.handler ∧
        ((next.offerRequestOutput k output).handleConnErr err).requests = next.requests := by
    obtain ⟨hhandler, hrequests⟩ := handleConnErr_frame (next.offerRequestOutput k output) err
    obtain ⟨hhandler', hrequests'⟩ := offerRequestOutput_frame next k output
    exact ⟨hhandler.trans hhandler', hrequests.trans hrequests'⟩
  simp only [writeRequest]
  split
  · exact hoffered _ _ _
  · exact hoffered _ _ _
  · exact ⟨rfl, rfl⟩

/-- A response stays with the handler, and the table does not change, until the response is
handled. -/
theorem response_of_step {event : RequestEvent} (h : s.step event = some t)
    (hevent : ∀ target output, event ≠ .takeResponse target output) {target : Bytes}
    {output : RequestOutput} (ht : t.handler = .response target output) :
    s.handler = .response target output ∧ t.requests = s.requests := by
  cases step_effect h with
  | @takeResponse target' output' => exact absurd rfl (hevent target' output')
  | call | arrive | cancel | close => exact ⟨ht, rfl⟩
  | takeRequest | takeDelete | takeDone | register | ignore | delete | panic => cases ht
  | reject | respond =>
    rw [(offerRequestOutput_frame _ _ _).1] at ht
    cases ht
  | @write k call failure =>
    obtain ⟨hhandler, hrequests⟩ := writeRequest_frame s k call failure
    exact ⟨hhandler.symm.trans ht, hrequests⟩

end Requests

namespace Waits

variable {s t : Waits}

/-- The session handler passes on a result that it has taken. -/
theorem result_of_step {isDone : Bool} {event : WaitEvent} (h : s.step isDone event = some t)
    (hevent : ∀ result, event ≠ .takeResult result) {k : ℕ} {result : SessionResult}
    (ht : t.handler = .result k result) : s.handler = .result k result := by
  cases step_effect h with
  | @newResult _ result' | @dropResult result' => exact absurd rfl (hevent result')
  | acceptPanics | resultPanics | newAccept | passAccept | passResult => cases ht
  | readAccept | accept | waitAccept | waitResult | dropAccept | write | writeFails | leaveReadAccept | leaveAccept =>
    exact ht

end Waits

namespace Client

/-- A step in which a call returns an error, or is about to, because of a failure that answers a
message of another call: an acceptance because of a failed request, or a request because of a failed
acceptance. -/
def Misdirects (c : Client) : ClientEvent → Prop
  | .waits .pass => ∃ k reason peer, c.waits.handler = .result k (.failed reason peer) ∧ reason.answersRequest = true
  | .requests .handle =>
    ∃ k call target reason, c.requests.handler = .response target (.error (reasonToError reason)) ∧
      reason.answersRequest = false ∧ c.requests.requests (hexEncode target) = some k ∧
      c.requests.calls k = some call ∧ call.phase = .waiting
  | _ => False

/-- A handler that takes a failure has no call of the other kind with this peer. -/
def Separate (c : Client) : ClientEvent → Prop
  | .sendResult =>
    ∀ reason peer, c.messages = .result (.failed reason peer) → reason.answersRequest = true →
      c.waits.results (hexEncode peer) = none
  | .sendResponse =>
    ∀ target reason result, c.messages = .response target (.error (reasonToError reason)) result →
      reason.answersRequest = false → c.requests.requests (hexEncode target) = none
  | _ => True

/-- The failures that the handlers have taken are for the calls that they serve. -/
structure Apart (c : Client) : Prop where
  result : ∀ k reason peer, c.waits.handler = .result k (.failed reason peer) → reason.answersRequest = false
  response : ∀ target reason, c.requests.handler = .response target (.error (reasonToError reason)) →
    reason.answersRequest = false → c.requests.requests (hexEncode target) = none

namespace Apart

variable {c d : Client}

/-- A client that has not been started. -/
theorem new : Client.new.Apart := by
  constructor <;> simp [Client.new, Waits.new, Requests.new]

/-- The handlers do not change. -/
theorem keep (h : c.Apart) (hwaits : d.waits = c.waits)
    (hhandler : d.requests.handler = c.requests.handler)
    (hrequests : d.requests.requests = c.requests.requests) : d.Apart where
  result k reason peer hd := h.result k reason peer (hwaits ▸ hd)
  response target reason hd hreason := by
    rw [hrequests]
    exact h.response target reason (hhandler ▸ hd) hreason

/-- A step around the request table that takes no response. -/
theorem requestStep (h : c.Apart) {event : RequestEvent}
    (hevent : ∀ target output, event ≠ .takeResponse target output)
    (hstep : c.requestStep event = some d) :
    d.Apart := by
  simp only [Client.requestStep, Option.bind_eq_bind, Option.bind_eq_some_iff,
    Option.some.injEq] at hstep
  obtain ⟨requests, hrequests, rfl⟩ := hstep
  refine ⟨h.result, ?_⟩
  intro target reason hresponse hreason
  obtain ⟨hhandler, htable⟩ := Requests.response_of_step hrequests hevent hresponse
  rw [htable]
  exact h.response target reason hhandler hreason

/-- A step around the session handler that takes no result. -/
theorem waitStep (h : c.Apart) {event : WaitEvent} (hevent : ∀ result, event ≠ .takeResult result)
    (hstep : c.waitStep event = some d) : d.Apart := by
  simp only [Client.waitStep, Option.bind_eq_bind, Option.bind_eq_some_iff,
    Option.some.injEq] at hstep
  obtain ⟨waits, hwaits, rfl⟩ := hstep
  refine ⟨?_, h.response⟩
  intro k reason peer hresult
  exact h.result k reason peer (Waits.result_of_step hwaits hevent hresult)

/-- The request handler takes a response. -/
theorem takeResponse (h : c.Apart) {target : Bytes} {output : RequestOutput}
    (hnone : ∀ reason, output = .error (reasonToError reason) → reason.answersRequest = false →
      c.requests.requests (hexEncode target) = none)
    (hstep : c.requestStep (.takeResponse target output) = some d) : d.Apart := by
  simp only [Client.requestStep, Requests.step, Option.bind_eq_bind, Option.bind_eq_some_iff,
    Option.ite_none_right_eq_some, Option.some.injEq] at hstep
  obtain ⟨requests, ⟨-, rfl⟩, rfl⟩ := hstep
  refine ⟨h.result, ?_⟩
  intro target' reason hresponse hreason
  obtain ⟨rfl, rfl⟩ := RequestHandler.response.inj hresponse
  exact hnone reason rfl hreason

/-- The session handler takes a result. -/
theorem takeResult (h : c.Apart) {result : SessionResult}
    (hnone : ∀ reason peer, result = .failed reason peer → reason.answersRequest = true →
      c.waits.results (hexEncode peer) = none)
    (hstep : c.waitStep (.takeResult result) = some d) : d.Apart := by
  simp only [Client.waitStep, Option.bind_eq_bind, Option.bind_eq_some_iff,
    Option.some.injEq] at hstep
  obtain ⟨waits, hwaits, rfl⟩ := hstep
  refine ⟨?_, h.response⟩
  intro k reason peer hresult
  cases Waits.step_effect hwaits with
  | newResult _ hk =>
    obtain ⟨rfl, rfl⟩ := SessionHandler.result.inj hresult
    by_contra hreason
    have hmissing := hnone reason peer rfl (Bool.not_eq_false _ ▸ hreason)
    exact absurd (hk.symm.trans hmissing) (by simp)
  | dropResult => exact h.result k reason peer hresult

/-- Every step that takes failures apart keeps them apart. -/
theorem step (h : c.Apart) {event : ClientEvent} (hguard : c.Separate event)
    (hstep : c.step event = some d) :
    d.Apart := by
  cases step_effect hstep with
  | requests hevent _ hrequests => exact h.requestStep hevent hrequests
  | waits _ _ hevent _ hwaits => exact h.waitStep hevent hwaits
  | readAccept _ _ hwaits => exact h.waitStep (by simp) hwaits
  | @sendResponse target output result _ hmessages hrequests =>
    have hkept : Apart { c with messages := (result.map MessageHandler.result).getD .reading } :=
      h.keep rfl rfl rfl
    apply hkept.takeResponse _ hrequests
    intro reason houtput hreason
    exact hguard target reason result (houtput ▸ hmessages) hreason
  | sendResult hmessages hwaits =>
    have hkept : Apart { c with messages := .reading } := h.keep rfl rfl rfl
    apply hkept.takeResult _ hwaits
    intro reason peer hresult hreason
    exact hguard reason peer (hresult ▸ hmessages) hreason
  | sendAccept _ hwaits =>
    have hkept : Apart { c with messages := .reading } := h.keep rfl rfl rfl
    exact hkept.waitStep (by simp) hwaits
  | connect | refuse | receive | receiveDone | receiveFails | connectFails | readFails => exact h.keep rfl rfl rfl

/-- No failure goes astray. -/
theorem not_misdirects (h : c.Apart) (event : ClientEvent) : ¬ c.Misdirects event := by
  unfold Misdirects
  split
  · rintro ⟨k, reason, peer, hresult, hreason⟩
    simp [h.result k reason peer hresult] at hreason
  · rintro ⟨k, call, target, reason, hresponse, hreason, hk, -⟩
    simp [h.response target reason hresponse hreason] at hk
  · exact fun hfalse => hfalse

end Apart

variable {c : Client}

/-- A waiting call to `Accept` returns the failure that the session handler takes. -/
theorem accept_returns_failure {k : ℕ} {call : AcceptCall} {reason : SessionError} {peer : Bytes}
    (hready : c.waits.handler = .ready) (hmessages : c.messages = .result (.failed reason peer))
    (hresults : c.waits.results (hexEncode peer) = some k)
    (hcall : c.waits.acceptCalls k = some call) (hphase : call.phase = .waiting) :
    ∃ d e, c.step .sendResult = some d ∧ d.step (.waits .pass) = some e ∧
      e.waits.acceptCalls k = some { call with phase := .returned (some (reasonToError reason)) } := by
  refine ⟨{ c with
      messages := .reading
      waits := { c.waits with handler := .result k (.failed reason peer) }
      outgoing := c.outgoing ++ [] },
    { c with
      messages := .reading
      waits := Waits.passResult { c.waits with handler := .result k (.failed reason peer) } k call (.failed reason peer)
      outgoing := c.outgoing ++ [] ++ [] }, ?_, ?_, ?_⟩
  · simp [step, hmessages, waitStep, Waits.step, hready, Waits.newResult,
      SessionResult.peerIdentity, hresults, Waits.sends]
  · simp [step, isStarted, waitStep, Waits.step, hcall, hphase, Waits.sends]
  · simp [Waits.passResult, Waits.setAccept, SessionResult.err]

/-- A waiting call to `Request` is about to return the failure that the request handler takes. -/
theorem request_returns_failure {k : ℕ} {call : RequestCall} {reason : SessionError} {peer : Bytes}
    {result : Option SessionResult} (hready : c.requests.handler = .ready)
    (hmessages : c.messages = .response peer (.error (reasonToError reason)) result)
    (hrequests : c.requests.requests (hexEncode peer) = some k)
    (hcall : c.requests.calls k = some call) (hphase : call.phase = .waiting) :
    ∃ d e, c.step .sendResponse = some d ∧ d.step (.requests .handle) = some e ∧
      e.requests.calls k = some { call with phase := .deleting (.error (reasonToError reason)) } := by
  have hstarted : ((result.map MessageHandler.result).getD .reading ≠ .starting) ∧
      (result.map MessageHandler.result).getD .reading ≠ .failed := by
    cases result <;> simp
  refine ⟨{ c with
      messages := (result.map MessageHandler.result).getD .reading
      requests := { c.requests with handler := .response peer (.error (reasonToError reason)) }
      outgoing := c.outgoing ++ [] },
    { c with
      messages := (result.map MessageHandler.result).getD .reading
      requests := Requests.handleResponse { c.requests with handler := .ready } peer (.error (reasonToError reason))
      outgoing := c.outgoing ++ [] ++ [] }, ?_, ?_, ?_⟩
  · simp [step, hmessages, requestStep, Requests.step, hready, Requests.sends]
  · simp [step, isStarted, requestStep, Requests.step, hstarted, Requests.sends]
  · simp [Requests.handleResponse, hrequests, Requests.offerRequestOutput, hcall, hphase,
      Requests.setCall, Except.map]

end Client

namespace System

/-- A handler of the client that takes a failure has no call of the other kind with this peer. -/
def Separate (s : System) : SystemEvent → Prop
  | .client event => s.client.Separate event
  | .server _ | .deliver => True

/-- Every step that takes failures apart keeps them apart. -/
theorem apart_step {s t : System} {event : SystemEvent} (h : s.client.Apart)
    (hguard : s.Separate event) (hstep : s.step event = some t) : t.client.Apart := by
  rcases step_client hstep with ⟨event', rfl, hclient⟩ | ⟨hwaits, hrequests⟩
  · exact h.step hguard hclient
  · exact h.keep hwaits (hrequests ▸ rfl) (hrequests ▸ rfl)

end System

/-- The reason of a failure tells which message of the client it answers. In every run in which no
handler takes a failure while it has a call of the other kind with the same peer, no failure reaches
a call that it does not belong to. In every state in which it has such a call that waits, the
failure makes this call return an error. -/
theorem failures_reach_own_calls (sessionPort : ℕ) :
    (∀ (s t : Server) event write reason peer, s.step event = some t → write ∈ Audit.started s t →
      write.message = .sessionFailed reason peer →
      ∃ keys identity handler data, event = .run write.conn keys ∧
        s.handlers write.conn = some (identity, handler) ∧ handler.handles = some (reason.answered peer data)) ∧
    (∀ s, Reached System.step System.Separate (.new sessionPort) s → ∀ event, ¬ s.client.Misdirects event) ∧
    (∀ (c : Client) k call reason peer, c.waits.handler = .ready → c.messages = .result (.failed reason peer) →
      c.waits.results (hexEncode peer) = some k → c.waits.acceptCalls k = some call → call.phase = .waiting →
      ∃ d e, c.step .sendResult = some d ∧ d.step (.waits .pass) = some e ∧
        e.waits.acceptCalls k = some { call with phase := .returned (some (reasonToError reason)) }) ∧
    ∀ (c : Client) k call reason peer result, c.requests.handler = .ready →
      c.messages = .response peer (.error (reasonToError reason)) result →
      c.requests.requests (hexEncode peer) = some k → c.requests.calls k = some call → call.phase = .waiting →
      ∃ d e, c.step .sendResponse = some d ∧ d.step (.requests .handle) = some e ∧
        e.requests.calls k = some { call with phase := .deleting (.error (reasonToError reason)) } := by
  refine ⟨?_, ?_, ?_, ?_⟩
  · intro s t event write reason peer hstep hwrite hmessage
    obtain ⟨keys, identity, handler, data, hevent, hhandler, hhandles, -⟩ :=
      Server.failed_cases hstep hwrite hmessage
    exact ⟨keys, identity, handler, data, hevent, hhandler, hhandles⟩
  · intro s h event
    have hapart : s.client.Apart := by
      apply h.invariant (fun s => s.client.Apart) Client.Apart.new
      intro s event t hs hguard hstep
      exact System.apart_step hs hguard hstep
    exact hapart.not_misdirects event
  · intro c k call reason peer hready hmessages hresults hcall hphase
    exact Client.accept_returns_failure hready hmessages hresults hcall hphase
  · intro c k call reason peer result hready hmessages hrequests hcall hphase
    exact Client.request_returns_failure hready hmessages hrequests hcall hphase

/-- The events of a client that requests a session with a second one. -/
def requestsPeer (k : ℕ) : List SystemEvent :=
  [.client (.requests (.call k [2] [])), .client (.requests (.takeRequest k)), .client (.requests .handle),
    .client (.requests (.write k none)), .client (.requests (.arrive k))]

/-- A client calls `Request` and `Accept` for one that is not connected. The failure of the request
arrives before the acceptance is registered. -/
def bothPending : List SystemEvent :=
  [.server (.addClient [1]), .server (.write 0 false), .client .read] ++ requestsPeer 0 ++
  [.client (.waits (.accept 0 [2] [])), .deliver, .server (.run 0 ([], [])), .server (.write 0 false), .client .read]

/-- A request and an acceptance for the same peer are pending at the same time. The failure of the
request reaches the request, and the acceptance goes on to wait for its own answer. -/
theorem failures_reach_own_calls_request :
    ∃ s t, execute System.step anyStep bothPending (.new 80) = some s ∧
      s.client.requests.calls 0 = some ⟨[2], [], .waiting, true, false⟩ ∧
      s.client.waits.acceptCalls 0 = some ⟨[2], [], .calling⟩ ∧
      (∃ d e, s.client.step .sendResponse = some d ∧ d.step (.requests .handle) = some e ∧
        e.requests.calls 0 = some ⟨[2], [], .deleting (.error .targetUnavailable), true, false⟩) ∧
      Reached System.step System.Separate (.new 80) t ∧ (∀ event, ¬ t.client.Misdirects event) ∧
      t.client.requests.calls 0 = some ⟨[2], [], .deleting (.error .targetUnavailable), true, false⟩ ∧
      t.client.waits.acceptCalls 0 = some ⟨[2], [], .waiting⟩ := by
  have hboth : Reached System.step System.Separate (.new 80) _ :=
    Reached.start.executeLabels bothPending (by simp [bothPending, requestsPeer, System.Separate, Client.Separate]) rfl
  have hanswered := hboth.extend (.client .sendResponse) (by
    intro target reason result hmessages hreason
    cases reason with
    | targetUnavailable => cases hreason
    | _ => cases hmessages) rfl
  -- no acceptance is registered when the session handler takes the failure of the request
  have htaken := (hanswered.extend (.client (.requests .handle)) trivial rfl).extend (.client .sendResult)
    (fun _ _ hmessages _ => by
      cases hmessages
      rfl) rfl
  have hwaiting := (htaken.extend (.client (.waits (.takeWaitResult 0))) trivial rfl).extend
    (.client (.waits (.write 0 none))) trivial rfl
  obtain ⟨-, hown, -, hrequest⟩ := failures_reach_own_calls 80
  refine ⟨_, _, rfl, rfl, rfl, ?_, hwaiting, hown _ hwaiting, rfl, rfl⟩
  exact hrequest _ 0 ⟨[2], [], .waiting, true, false⟩ .targetUnavailable [2] (some (.failed .targetUnavailable [2]))
    rfl rfl rfl rfl rfl

/-- Two clients are connected. The first one requests a session with the second one, and the second
one with the first. -/
def bothRequest : List SystemEvent :=
  [.server (.addClient [1]), .server (.addClient [2]), .server (.write 0 false), .server (.write 0 false),
    .client .read] ++ requestsPeer 0 ++
  [.deliver, .server (.run 0 ([], [])), .server (.run 0 ([7], [8])), .server (.write 0 false),
    .server (.write 0 false), .client .read, .client .sendResponse, .client (.requests .handle),
    .client (.requests (.takeDelete 0)), .client (.requests .handle),
    .server (.receive 1 (.requestSession [1] [])), .server (.run 1 ([], [])), .server (.run 1 ([5], [6])),
    .server (.write 0 false), .server (.write 0 false), .client .read]

/-- The first client requests the session again, while it accepts the one of the second. -/
def requestsAndAccepts : List SystemEvent :=
  requestsPeer 1 ++
  [.client (.waits (.accept 0 [2] [])), .client (.waits (.takeWaitResult 0)), .client (.waits (.write 0 none)),
    .deliver, .server (.run 0 ([], [])), .server (.run 0 ([], [])), .server (.write 0 false), .client .read]

/-- The request is refused, since its session exists. Its failure makes the acceptance return the
error, although the server accepts the session and says so. -/
theorem refused_request_fails_accept :
    ∃ s t u, Reached System.step anyStep (.new 80) s ∧
      s.client.messages = .response [2] (.error .sessionExists) (some (.failed .sessionExists [2])) ∧
      s.client.requests.calls 1 = some ⟨[2], [], .waiting, true, false⟩ ∧
      s.client.waits.acceptCalls 0 = some ⟨[2], [], .waiting⟩ ∧
      execute System.step anyStep [.client .sendResponse, .client (.requests .handle), .client .sendResult,
        .client (.waits .pass)] s = some t ∧
      t.client.waits.acceptCalls 0 = some ⟨[2], [], .returned (some .sessionExists)⟩ ∧
      execute System.step anyStep [.deliver, .server (.run 0 ([], [])), .server (.run 0 ([], []))] t = some u ∧
      ⟨0, .sessionEstablished [2], .plain⟩ ∈ u.server.writes := by
  refine ⟨_, _, _, reached_of_execute (bothRequest ++ requestsAndAccepts) rfl, rfl, rfl, rfl, rfl, rfl, rfl, ?_⟩
  decide

end ProjektCore.Relay
