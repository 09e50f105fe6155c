import ProjektCore.Relay.Failures
import ProjektCore.Relay.Registration

/-!
# Acceptances that fail

A server that handles an acceptance first marks the session as accepted and then looks for the
connection of its initiator. Beside the server it is recorded which message each client's goroutine
handles, and whether the handling has changed the accepted status of a session. An acceptance that
fails leaves all sessions as they were, as long as the server finds the connection of every
initiator whose session it has marked. If it does not, the acceptance fails and the session stays
marked.
-/

namespace ProjektCore.Relay

open Foundation

/-- The accepted status of a session, if there is one. -/
def Server.acceptedStatus (s : Server) (id : List Char) :
    Option Bool := (s.sessions id).map SessionHandle.accepted

/-- A server, the message that each client's goroutine has received last, and whether handling it
has changed the accepted status of a session. -/
structure Watched where
  server : Server
  message : ℕ → Option Message
  changed : ℕ → Prop

namespace Watched

/-- Nothing is received at the start. -/
def new (sessionPort : ℕ) : Watched := ⟨.new sessionPort, fun _ => none, fun _ => False⟩

/-- What is recorded of a step to a new state of the server. -/
def record (w : Watched) (t : Server) : ServerEvent → Watched
  | .receive conn message =>
    ⟨t, Function.update w.message conn (some message), Function.update w.changed conn False⟩
  | .run conn _ =>
    ⟨t, w.message,
      Function.update w.changed conn (w.changed conn ∨ ∃ id, t.acceptedStatus id ≠ w.server.acceptedStatus id)⟩
  | _ => ⟨t, w.message, w.changed⟩

/-- The record changes nothing in the server. -/
theorem record_server (w : Watched) (t : Server) (event : ServerEvent) :
    (w.record t event).server = t := by
  cases event <;> rfl

/-- One step of the server, recorded. -/
def step (w : Watched) (event : ServerEvent) : Option Watched :=
  (w.server.step event).map fun t => w.record t event

end Watched

/-- What is recorded of a goroutine: it handles the message received last, and has changed a status
exactly between the two questions of an acceptance. -/
structure ClientHandler.Tracked (handler : ClientHandler) (message : Option Message)
    (changed : Prop) : Prop where
  message : ∀ m, handler.handles = some m → message = some m
  accept : ∀ initiator data, handler = .accept initiator data → ¬ changed
  notify : ∀ initiator data, handler = .notify initiator data → changed

/-- A goroutine that handles nothing. -/
theorem ClientHandler.tracked_of_idle {handler : ClientHandler} (h : handler.handles = none)
    (message : Option Message) (changed : Prop) : handler.Tracked message changed where
  message m hm := by simp [h] at hm
  accept initiator data heq := by simp [heq, handles] at h
  notify initiator data heq := by simp [heq, handles] at h

namespace Watched

/-- The record is right for every goroutine. -/
def Tracked (w : Watched) : Prop :=
  ∀ conn identity handler, w.server.handlers conn = some (identity, handler) →
    handler.Tracked (w.message conn) (w.changed conn)

namespace Tracked

variable {w : Watched} {t : Server} {conn : ℕ} {identity : Bytes} {handler : ClientHandler}

/-- Nothing is handled at the start. -/
theorem new (sessionPort : ℕ) : (Watched.new sessionPort).Tracked := by
  intro conn identity handler hconn
  cases hconn

/-- A goroutine goes on, and the record of the others stays. -/
theorem goOn (h : w.Tracked) {message : ℕ → Option Message} {changed : ℕ → Prop}
    (hhandlers : t.handlers = Function.update w.server.handlers conn (some (identity, handler)))
    (hmessage : ∀ c, c ≠ conn → message c = w.message c)
    (hchanged : ∀ c, c ≠ conn → changed c = w.changed c)
    (hown : handler.Tracked (message conn) (changed conn)) : Tracked ⟨t, message, changed⟩ := by
  intro c identity' handler' hc
  change t.handlers c = _ at hc
  change handler'.Tracked (message c) (changed c)
  rw [hhandlers] at hc
  by_cases heq : c = conn
  · subst heq
    rw [Function.update_self, Option.some.injEq, Prod.mk.injEq] at hc
    rw [← hc.2]
    exact hown
  · rw [Function.update_of_ne heq] at hc
    rw [hmessage c heq, hchanged c heq]
    exact h c identity' handler' hc

/-- What a goroutine has done is recorded for it alone. -/
theorem run (h : w.Tracked) {keys : Bytes × Bytes}
    (hhandlers : t.handlers = Function.update w.server.handlers conn (some (identity, handler)))
    (hown : handler.Tracked (w.message conn)
      (w.changed conn ∨ ∃ id, t.acceptedStatus id ≠ w.server.acceptedStatus id)) :
    (w.record t (.run conn keys)).Tracked := by
  refine h.goOn hhandlers (fun _ _ => rfl) (fun c hc => Function.update_of_ne hc _ _) ?_
  rw [Function.update_self]
  exact hown

/-- Every step keeps the record. -/
theorem step (h : w.Tracked) {event : ServerEvent} (heffect : ServerEffect w.server event t) :
    (w.record t event).Tracked := by
  cases heffect with
  | reject | add | writeFails | write | deleteSession => exact h
  | greet => exact h.goOn rfl (fun _ _ => rfl) (fun _ _ => rfl) (ClientHandler.tracked_of_idle rfl _ _)
  | disconnect => exact h.goOn rfl (fun _ _ => rfl) (fun _ _ => rfl) (ClientHandler.tracked_of_idle rfl _ _)
  | @receive conn identity message hhandler =>
    refine h.goOn rfl (fun c hc => Function.update_of_ne hc _ _) (fun c hc => Function.update_of_ne hc _ _) ?_
    rw [Function.update_self, Function.update_self]
    cases message with
    | requestSession target data => exact ⟨fun m hm => hm, by simp, by simp⟩
    | acceptSession initiator data => exact ⟨fun m hm => hm, by simp, by simp⟩
    | _ => exact ClientHandler.tracked_of_idle rfl _ _
  | @findTarget conn targetConn identity target data keys hhandler =>
    exact h.run rfl ⟨fun m hm => (h conn identity _ hhandler).message m hm, by simp, by simp⟩
  | noTarget | sessionExists | create | unknownSession | alreadyAccepted | noInitiator | notify | deleteClient =>
    exact h.run rfl (ClientHandler.tracked_of_idle rfl _ _)
  | @accept conn identity initiator data keys handle hhandler hsession hfalse =>
    refine h.run rfl ⟨fun m hm => (h conn identity _ hhandler).message m hm, by simp, ?_⟩
    intro _ _ _
    refine .inr ⟨newSessionIdentifier initiator identity, ?_⟩
    simp [Server.acceptedStatus, hsession, hfalse]
  | @panic conn identity keys hhandler =>
    have hsame : w.server.handlers = Function.update w.server.handlers conn (some (identity, .leaving)) := by
      rw [← hhandler, Function.update_eq_self]
    exact h.run hsame (ClientHandler.tracked_of_idle rfl _ _)

end Tracked

/-- In every state of every run the record is right. -/
theorem tracked_of_reached {sessionPort : ℕ} {guard : Watched → ServerEvent → Prop} {w : Watched}
    (h : Reached step guard (new sessionPort) w) : w.Tracked := by
  refine h.invariant Tracked (Tracked.new sessionPort) ?_
  intro w event w' hw _ hstep
  obtain ⟨t, ht, rfl⟩ := Option.map_eq_some_iff.mp hstep
  exact hw.step (Server.step_effect ht)

/-- The record does not disturb the server. -/
theorem booked_of_reached {sessionPort : ℕ} {guard : Watched → ServerEvent → Prop} {w : Watched}
    (h : Reached step guard (new sessionPort) w) : w.server.Booked := by
  refine h.invariant (fun w => w.server.Booked) (Server.booked_new sessionPort) ?_
  intro w event w' hw _ hstep
  obtain ⟨t, ht, rfl⟩ := Option.map_eq_some_iff.mp hstep
  rw [record_server]
  exact hw.step (Server.step_effect ht)

/-- A goroutine that looks for the connection of an initiator, whose session it has marked, finds
one. -/
def InitiatorFound (w : Watched) : ServerEvent → Prop
  | .run conn _ => ∀ identity initiator data, w.server.handlers conn = some (identity, .notify initiator data) →
      (w.server.clients (hexEncode initiator)).isSome = true
  | _ => True

/-- A failure that answers an acceptance is sent before the session is marked, or since the
initiator is not found. -/
theorem failed_accept_cases {w w' : Watched} (h : w.Tracked) {event : ServerEvent}
    {write : PendingWrite} {initiator data peer : Bytes} {reason : SessionError}
    (hmessage : w.message write.conn = some (.acceptSession initiator data))
    (hstep : w.step event = some w') (hwrite : write ∈ Audit.started w.server w'.server)
    (hfailed : write.message = .sessionFailed reason peer) :
    ¬ w'.changed write.conn ∨ ¬ w.InitiatorFound event := by
  obtain ⟨t, ht, rfl⟩ := Option.map_eq_some_iff.mp hstep
  rw [record_server] at hwrite
  obtain ⟨keys, identity, handler, data', rfl, hhandler, hhandles, hreason, hsessions⟩ :=
    Server.failed_cases ht hwrite hfailed
  have hown := h write.conn identity handler hhandler
  have hanswers := Option.some.inj ((hown.message _ hhandles).symm.trans hmessage)
  have hsame : ¬ ∃ id, t.acceptedStatus id ≠ w.server.acceptedStatus id := by
    rintro ⟨id, hid⟩
    exact hid (by rw [Server.acceptedStatus, hsessions, Server.acceptedStatus])
  cases handler with
  | reading | leaving | ended => cases hhandles
  | request | create =>
    rw [hanswers] at hhandles
    cases hhandles
  | accept =>
    refine .inl ?_
    simp only [record, Function.update_self]
    exact not_or.mpr ⟨hown.accept _ _ rfl, hsame⟩
  | notify =>
    refine .inr fun hfound => ?_
    obtain ⟨initiatorConn, hclient⟩ := Option.isSome_iff_exists.mp (hfound _ _ _ hhandler)
    -- a goroutine that finds the connection announces the session on both connections
    cases Server.step_effect ht with
    | noInitiator hnotify hnone =>
      rw [hhandler] at hnotify
      cases hnotify
      rw [hclient] at hnone
      cases hnone
    | notify =>
      simp only [Audit.started, Server.goWrite, Server.setHandler, List.append_assoc,
        List.drop_left, List.mem_append, List.mem_singleton] at hwrite
      rcases hwrite with hwrite | hwrite
      · rw [hwrite] at hfailed
        cases hfailed
      · rw [hwrite] at hfailed
        cases hfailed
    | findTarget hother | noTarget hother | sessionExists hother | create hother | unknownSession hother
    | alreadyAccepted hother | accept hother | deleteClient hother | panic hother =>
      rw [hhandler] at hother
      cases hother

/-- In every run in which the goroutines find the connections of the initiators whose sessions they
have marked, an acceptance that is answered with a failure has changed the accepted status of no
session. In any run, a goroutine that does not find the connection answers with a failure although
its handling of the acceptance has changed a status. -/
theorem failed_accept_changes (sessionPort : ℕ) :
    (∀ w w' event write initiator data peer reason, Reached step InitiatorFound (new sessionPort) w →
      w.InitiatorFound event → w.message write.conn = some (.acceptSession initiator data) →
      w.step event = some w' → write ∈ Audit.started w.server w'.server →
      write.message = .sessionFailed reason peer → ¬ w'.changed write.conn) ∧
    ∀ w event, Reached step anyStep (new sessionPort) w → ¬ w.InitiatorFound event →
      ∃ w' write initiator data, w.step event = some w' ∧
        w.message write.conn = some (.acceptSession initiator data) ∧
        write ∈ Audit.started w.server w'.server ∧
        write.message = .sessionFailed .initiatorUnavailable initiator ∧ w'.changed write.conn := by
  constructor
  · intro w w' event write initiator data peer reason h hfound hmessage hstep hwrite hfailed
    exact (failed_accept_cases (tracked_of_reached h) hmessage hstep hwrite hfailed).resolve_right (not_not.mpr hfound)
  · intro w event h hlost
    cases event with
    | run conn keys =>
      simp only [InitiatorFound, not_forall, Bool.not_eq_true, Option.isSome_eq_false_iff,
        Option.isNone_iff_eq_none] at hlost
      obtain ⟨identity, initiator, data, hhandler, hnone⟩ := hlost
      have hown := tracked_of_reached h conn identity _ hhandler
      have hstep : w.server.step (.run conn keys) = some (w.server.notifyInitiator conn identity initiator data) := by
        simp only [Server.step, (booked_of_reached h).running, hhandler, Bool.false_eq_true,
          if_false]
        rfl
      refine ⟨_, ⟨conn, .sessionFailed .initiatorUnavailable initiator, .plain⟩, initiator, data,
        Option.map_eq_some_iff.mpr ⟨_, hstep, rfl⟩, hown.message _ rfl, ?_, rfl, ?_⟩
      · simp [record, Audit.started, Server.notifyInitiator, Server.goWrite, Server.setHandler,
          hnone]
      · simp only [record, Function.update_self]
        exact .inl (hown.notify _ _ rfl)
    | _ => exact absurd trivial hlost

/-- A client whose identity is one byte accepts a session that does not exist. -/
theorem failed_accept_changes_unknown :
    ∃ w w' : Watched, Reached step InitiatorFound (new 0) w ∧ w.step (.run 0 ([], [])) = some w' ∧
      w'.server.writes = [⟨0, .sessionFailed .unknownSession [2], .plain⟩] ∧ ¬ w'.changed 0 := by
  obtain ⟨w, hrun, hview⟩ := Option.map_eq_some_iff.mp (rfl :
    (execute step anyStep [.addClient [1], .write 0 false, .receive 0 (.acceptSession [2] [])] (new 0)).map
      (fun w => (w.message 0, w.server.handlers 0, w.server.writes,
        (w.step (.run 0 ([], []))).map fun w' => w'.server.writes)) =
    some (some (.acceptSession [2] []), some ([1], .accept [2] []), [],
      some [⟨0, .sessionFailed .unknownSession [2], .plain⟩]))
  simp only [Prod.mk.injEq] at hview
  obtain ⟨hmessage, hhandler, hwrites, hstep⟩ := hview
  obtain ⟨w', hstep, hwritten⟩ := Option.map_eq_some_iff.mp hstep
  have hreached : Reached step InitiatorFound (new 0) w := by
    refine Reached.start.executeLabels _ ?_ hrun
    intro label hlabel w
    simp only [List.mem_cons, List.not_mem_nil, or_false] at hlabel
    rcases hlabel with rfl | rfl | rfl <;> trivial
  have hfound : w.InitiatorFound (.run 0 ([], [])) := by
    intro identity initiator data hnotify
    rw [hhandler] at hnotify
    cases hnotify
  refine ⟨w, w', hreached, hstep, hwritten, ?_⟩
  refine (failed_accept_changes 0).1 w w' _ ⟨0, .sessionFailed .unknownSession [2], .plain⟩ [2] [] [2] .unknownSession
    hreached hfound hmessage hstep ?_ rfl
  rw [Audit.started, hwritten, hwrites]
  exact List.mem_cons_self

/-- Two clients are added, the first one requests a session with the second one and leaves. -/
def initiatorLeaves : List ServerEvent :=
  [.addClient [1], .write 0 false, .addClient [2], .write 0 false, .receive 0 (.requestSession [2] []),
    .run 0 ([], []), .run 0 ([], []), .disconnect 0, .run 0 ([], [])]

/-- The second client then accepts the session: it is told that this has failed since the initiator
has no connection, and the session is marked as accepted. -/
theorem failed_accept_marks_session :
    ∃ s t : Server, execute Server.step anyStep initiatorLeaves (.new 0) = some s ∧
      execute Server.step anyStep [.receive 1 (.acceptSession [1] []), .run 1 ([], []), .run 1 ([], [])] s = some t ∧
      t.writes = s.writes ++ [⟨1, .sessionFailed .initiatorUnavailable [1], .plain⟩] ∧
      s.acceptedStatus (newSessionIdentifier [1] [2]) = some false ∧
      t.acceptedStatus (newSessionIdentifier [1] [2]) = some true :=
  ⟨_, _, rfl, rfl, rfl, rfl, rfl⟩

end Watched

end ProjektCore.Relay
