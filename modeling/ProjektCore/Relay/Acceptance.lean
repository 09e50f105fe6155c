import ProjektCore.Foundation.Runs
import ProjektCore.Relay.Client.Protocol
import ProjektCore.Relay.Server

/-!
# Acceptances between a server and a client

A relay server and one of its clients, whose connection is the first one of the server. The other
connections belong to clients that send any messages at any time. The server announces a session and
its acceptance by goroutines that run in any order, so the acceptance reaches the client at any
time.
-/

namespace ProjektCore.Relay

open Foundation

/-- A server and a client. -/
structure System where
  server : Server
  client : Client

/-- What happens at a server and a client. -/
inductive SystemEvent where
  | server (event : ServerEvent)
  | client (event : ClientEvent)
  /-- The server receives a message of the client. -/
  | deliver
deriving Repr, DecidableEq

namespace System

/-- The number of the client's connection. -/
def ownConn : ℕ := 0

/-- A server without clients, and a client that has not been started. -/
def new (sessionPort : ℕ) : System := ⟨.new sessionPort, .new⟩

/-- A step of the server, which may deliver a message to the client. -/
def serverStep (s : System) (event : ServerEvent) : Option System := do
  let server ← s.server.step event
  some ⟨server, { s.client with incoming := s.client.incoming ++ s.server.delivers ownConn event }⟩

/-- One step of the system. -/
def step (s : System) : SystemEvent → Option System
  | .server event =>
    match event with
    | .receive conn message => if conn = ownConn then none else s.serverStep (.receive conn message)
    | event => s.serverStep event
  | .client event => do
    let client ← s.client.step event
    some { s with client := client }
  | .deliver =>
    match s.client.outgoing with
    | [] => none
    | message :: rest => { s with client := { s.client with outgoing := rest } }.serverStep (.receive ownConn message)

/-- A step of the server changes neither table of the client. -/
theorem serverStep_client {s t : System} {event : ServerEvent} (h : s.serverStep event = some t) :
    t.client.waits = s.client.waits ∧ t.client.requests = s.client.requests := by
  simp only [serverStep, Option.bind_eq_bind, Option.bind_eq_some_iff, Option.some.injEq] at h
  obtain ⟨server, -, rfl⟩ := h
  exact ⟨rfl, rfl⟩

/-- A step is one of the client, or changes neither of its tables. -/
theorem step_client {s t : System} {event : SystemEvent} (h : s.step event = some t) :
    (∃ event', event = .client event' ∧ s.client.step event' = some t.client) ∨
      t.client.waits = s.client.waits ∧ t.client.requests = s.client.requests := by
  cases event with
  | server event =>
    simp only [step] at h
    split at h
    · rw [Option.ite_none_left_eq_some] at h
      exact .inr (serverStep_client h.2)
    · exact .inr (serverStep_client h)
  | client event =>
    simp only [step, Option.bind_eq_bind, Option.bind_eq_some_iff, Option.some.injEq] at h
    obtain ⟨client, hclient, rfl⟩ := h
    exact .inl ⟨event, rfl, hclient⟩
  | deliver =>
    simp only [step] at h
    split at h
    · cases h
    · have htables := serverStep_client h
      exact .inr htables

/-- Every step keeps the waiting calls registered. -/
theorem registered_step {s t : System} {event : SystemEvent} (hs : s.client.waits.Registered)
    (h : s.step event = some t) : t.client.waits.Registered := by
  rcases step_client h with ⟨event, -, hclient⟩ | ⟨hwaits, -⟩
  · rcases Client.step_waits hclient with hwaits | ⟨event, hwaits⟩
    · rwa [hwaits]
    · exact hs.step hwaits
  · rwa [hwaits]

end System

/-- In every state of every run: what the session handler passes on goes to a call for that target,
and a message that a target has accepted reaches a waiting call exactly if a call for the target
waits when the session handler takes the message. -/
theorem accept_received_iff (sessionPort : ℕ) {s : System}
    (h : Reached System.step anyStep (.new sessionPort) s) :
    (∀ k accept, s.client.waits.handler = .accept k accept →
      ∃ phase, s.client.waits.readAccepts k = some ⟨accept.targetIdentity, phase⟩) ∧
    ∀ accept t, s.client.messages = .accept accept → s.step (.client .sendAccept) = some t →
      ((∃ k u, t.step (.client (.waits .pass)) = some u ∧
          t.client.waits.readAccepts k = some ⟨accept.targetIdentity, .waiting⟩ ∧
          u.client.waits.readAccepts k =
            some ⟨accept.targetIdentity, .returned (.ok accept.additionalData)⟩) ↔
        ∃ k, s.client.waits.readAccepts k = some ⟨accept.targetIdentity, .waiting⟩) := by
  have hregistered : s.client.waits.Registered :=
    h.invariant (fun s => s.client.waits.Registered) .new fun _ _ _ hs _ hstep => System.registered_step hs hstep
  refine ⟨fun k accept hhandler => hregistered.passing_target hhandler, ?_⟩
  intro accept t hmessages hstep
  simp only [System.step, Client.step, hmessages, Option.bind_eq_bind, Option.bind_eq_some_iff,
    Option.some.injEq] at hstep
  obtain ⟨client, hclient, rfl⟩ := hstep
  have hwaits := Client.waitStep_waits hclient
  apply Iff.trans _ (Waits.takeAccept_passed_iff hregistered hwaits)
  constructor
  · rintro ⟨k, u, hpass, hwaiting, hreturned⟩
    simp only [System.step, Option.bind_eq_bind, Option.bind_eq_some_iff,
      Option.some.injEq] at hpass
    obtain ⟨client', hclient', rfl⟩ := hpass
    simp only [Client.step, Option.ite_none_right_eq_some] at hclient'
    have hpassed := Client.waitStep_waits hclient'.2
    exact ⟨k, client'.waits, hpassed, hwaiting, hreturned⟩
  · rintro ⟨k, waits, hpassed, hwaiting, hreturned⟩
    obtain ⟨hmessages', hrequests⟩ := Client.waitStep_frame hclient
    have hpassed' : client.waits.step client.requests.isDone .pass = some waits := by
      rw [hrequests]
      exact hpassed
    obtain ⟨client', hclient', rfl⟩ := Client.waitStep_of_step hpassed'
    have hstarted : client.isStarted = true := by
      rw [Client.isStarted, hmessages']
      rfl
    refine ⟨k, { s with client := client' }, ?_, hwaiting, hreturned⟩
    simp only [System.step, Client.step, hstarted, hclient', if_true, Option.bind_eq_bind,
      Option.bind_some]

/-- A run in which the client requests a session with a second client, which accepts it; the events
of the client while the acceptance is under way are given. -/
def acceptedSession (meanwhile : List SystemEvent) : List SystemEvent :=
  [.server (.addClient [1]), .server (.addClient [2]), .server (.write 0 false), .server (.write 0 false),
    .client .read,
    .client (.requests (.call 0 [2] [])), .client (.requests (.takeRequest 0)), .client (.requests .handle),
    .client (.requests (.write 0 none)), .client (.requests (.arrive 0)),
    .deliver, .server (.run 0 ([], [])), .server (.run 0 ([7], [8])), .server (.write 0 false),
    .server (.write 0 false), .server (.receive 1 (.acceptSession [1] [9])), .server (.run 1 ([], [])),
    .server (.run 1 ([], []))] ++
  meanwhile ++ [.server (.write 0 false), .client .read]

/-- The request of the client returns. -/
def requestReturns : List SystemEvent :=
  [.client .read, .client .sendResponse, .client (.requests .handle), .client (.requests (.takeDelete 0)),
    .client (.requests .handle)]

/-- The client waits for the acceptance. -/
def waitsForAccept :
    List SystemEvent := [.client (.readAccept 0), .client (.waits (.takeWaitAccept 0))]

/-- An acceptance reaches a call that waits for it. -/
theorem accept_received_iff_waiting :
    ∃ s t, execute System.step anyStep (acceptedSession (requestReturns ++ waitsForAccept)) (.new 80) = some s ∧
      s.step (.client .sendAccept) = some t ∧
      ∃ k u, t.step (.client (.waits .pass)) = some u ∧
        t.client.waits.readAccepts k = some ⟨[2], .waiting⟩ ∧
        u.client.waits.readAccepts k = some ⟨[2], .returned (.ok [9])⟩ := by
  refine ⟨_, _, rfl, rfl, ?_⟩
  have hreached : Reached System.step anyStep (.new 80) _ :=
    reached_of_execute (acceptedSession (requestReturns ++ waitsForAccept)) rfl
  exact ((accept_received_iff 80 hreached).2 ⟨[2], [9]⟩ _ rfl rfl).mpr ⟨0, rfl⟩

/-- An acceptance that arrives after the request has returned but before the client waits for it is
dropped, and the client then waits for a message that does not come. -/
theorem early_accept_dropped :
    ∃ s t u, Reached System.step anyStep (.new 80) s ∧ s.client.messages = .accept ⟨[2], [9]⟩ ∧
      s.client.requests.calls 0 = some ⟨[2], [], .returned (.ok ⟨⟨[7], 80⟩, [2]⟩), false, false⟩ ∧
      s.step (.client .sendAccept) = some t ∧ t.client.waits.handler = .ready ∧
      execute System.step anyStep waitsForAccept t = some u ∧
      u.client.waits.readAccepts 0 = some ⟨[2], .waiting⟩ ∧ u.client.waits.handler = .ready ∧
      u.client.messages = .reading ∧ u.client.incoming = [] ∧ u.server.writes.map PendingWrite.conn = [1] :=
  ⟨_, _, _, reached_of_execute (acceptedSession requestReturns) rfl, rfl, rfl, rfl, rfl, rfl, rfl, rfl, rfl, rfl, rfl⟩

end ProjektCore.Relay
