import ProjektCore.Relay.Sessions

/-!
# What a step of a relay server with its sessions does

The effects of the steps are listed as they are for the server alone, first those of the goroutine
of one session. A step of the server is told apart by whether it creates a session, accepts one, or
neither.
-/

namespace ProjektCore.Relay

open Foundation

/-- The effects of the steps of `handleSession`. -/
inductive RunEffect (run : SessionRun) : RunEvent → SessionRun → Prop
  | listen {seat : Seat} :
      run.members seat = .starting → RunEffect run (.listen seat) (run.setMember seat .waiting)
  | expire : run.phase ≠ .returned → run.isExpired = false → RunEffect run .expire { run with isExpired := true }
  | giveUp {seat : Seat} : run.members seat = .waiting → run.isExpired = true →
      RunEffect run (.giveUp seat) (run.setMember seat .timedOut)
  | respond {seat : Seat} {isFailure : Bool} {conn : ℕ} : run.members seat = .responding conn →
      RunEffect run (.respond seat isFailure)
        (run.setMember seat (if isFailure then .unanswered conn else .joined conn))
  | join : run.phase = .joining → (run.members .first).isSettled = true → (run.members .second).isSettled = true →
      RunEffect run .join { run with phase := if run.hasBoth then .awaiting else .returned }
  | proceed : run.phase = .awaiting → run.isAccepted = true → RunEffect run .proceed { run with phase := .relaying }
  | endRelay {seat : Seat} : run.phase = .relaying → run.hasEnded seat = false →
      RunEffect run (.endRelay seat) { run with hasEnded := Function.update run.hasEnded seat true }
  | leave : run.phase = .relaying → run.hasEnded .first = true ∨ run.hasEnded .second = true →
      RunEffect run .leave { run with phase := .deleting }

/-- Every step of `handleSession` has one of the effects. -/
theorem SessionRun.step_effect {run next : SessionRun} {event : RunEvent}
    (h : run.step event = some next) :
    RunEffect run event next := by
  cases event with
  | listen seat =>
    simp only [step] at h
    split at h
    · next hseat =>
      obtain rfl := Option.some.inj h
      exact .listen hseat
    · cases h
  | expire =>
    simp only [step, Option.ite_none_left_eq_some, Option.some.injEq] at h
    obtain ⟨hguard, rfl⟩ := h
    rw [not_or, Bool.not_eq_true] at hguard
    exact .expire hguard.1 hguard.2
  | giveUp seat =>
    simp only [step] at h
    split at h
    · next hseat =>
      simp only [Option.ite_none_right_eq_some, Option.some.injEq] at h
      obtain ⟨hexpired, rfl⟩ := h
      exact .giveUp hseat hexpired
    · cases h
  | respond seat isFailure =>
    simp only [step] at h
    split at h
    · next conn hseat =>
      obtain rfl := Option.some.inj h
      exact .respond hseat
    · cases h
  | join =>
    simp only [step, Option.ite_none_right_eq_some, Option.some.injEq] at h
    obtain ⟨⟨hphase, hfirst, hsecond⟩, rfl⟩ := h
    exact .join hphase hfirst hsecond
  | proceed =>
    simp only [step, Option.ite_none_right_eq_some, Option.some.injEq] at h
    obtain ⟨⟨hphase, haccepted⟩, rfl⟩ := h
    exact .proceed hphase haccepted
  | endRelay seat =>
    simp only [step, Option.ite_none_right_eq_some, Option.some.injEq] at h
    obtain ⟨⟨hphase, hended⟩, rfl⟩ := h
    exact .endRelay hphase hended
  | leave =>
    simp only [step, Option.ite_none_right_eq_some, Option.some.injEq] at h
    obtain ⟨⟨hphase, hended⟩, rfl⟩ := h
    exact .leave hphase hended

/-- The effects of the steps of a server with its sessions. -/
inductive RelayEffect (s : RelayServer) : RelayEvent → RelayServer → Prop
  | create {event : ServerEvent} {server : Server} {id : List Char} {keys : Bytes × Bytes} :
      s.server.step event = some server → RelayServer.created s.server event = some (id, keys) →
      RelayEffect s (.server event) (RelayServer.startSession { s with server } id keys)
  | accept {event : ServerEvent} {server : Server} {id : List Char} :
      s.server.step event = some server → (∀ id, event ≠ .deleteSession id) →
      RelayServer.created s.server event = none → RelayServer.accepted s.server event = some id →
      RelayEffect s (.server event) (RelayServer.markAccepted { s with server } id)
  | server {event : ServerEvent} {server : Server} :
      s.server.step event = some server → (∀ id, event ≠ .deleteSession id) →
      RelayServer.created s.server event = none → RelayServer.accepted s.server event = none →
      RelayEffect s (.server event) { s with server }
  | run {n : ℕ} {event : RunEvent} {run next : SessionRun} :
      s.runs n = some run → run.step event = some next →
      RelayEffect s (.run n event) (s.setRun n next)
  | delete {n : ℕ} {run : SessionRun} : s.runs n = some run → run.phase = .deleting →
      RelayEffect s (.delete n) (s.deleteSession n run)
  | addSessionClient :
      RelayEffect s .addSessionClient { s.setClient s.nextClient .reading with nextClient := s.nextClient + 1 }
  | unreadable {c : ℕ} :
      s.clients c = some .reading → RelayEffect s (.authenticate c none) (s.setClient c .failed)
  | authenticate {c : ℕ} {key : Bytes} : s.clients c = some .reading →
      RelayEffect s (.authenticate c (some key)) (s.setClient c (.asking key))
  | invalidKey {c : ℕ} {key : Bytes} :
      s.clients c = some (.asking key) → s.keys (hexEncode key) = none →
      RelayEffect s (.lookUp c) (s.setClient c (.refused .invalidKey))
  | lookUp {c : ℕ} {key : Bytes} {handle : KeyHandle} : s.clients c = some (.asking key) →
      s.keys (hexEncode key) = some handle →
      RelayEffect s (.lookUp c) (s.setClient c (.handing handle.run handle.seat))
  | hand {c n : ℕ} {seat : Seat} {run : SessionRun} :
      s.clients c = some (.handing n seat) → s.runs n = some run →
      run.members seat = .waiting →
      RelayEffect s (.hand c) ((s.setClient c .handed).setRun n (run.setMember seat (.responding c)))
  | occupied {c n : ℕ} {seat : Seat} : s.clients c = some (.handing n seat) →
      RelayEffect s (.hand c) (s.setClient c (.refused .alreadyConnected))

namespace RelayServer

variable {s t : RelayServer}

/-- Every step of the server alone has one of the effects. -/
theorem effect_of_serverStep {event : ServerEvent} (hdelete : ∀ id, event ≠ .deleteSession id)
    (h : s.serverStep event = some t) : RelayEffect s (.server event) t := by
  simp only [serverStep, Option.bind_eq_bind, Option.bind_eq_some_iff] at h
  obtain ⟨server, hserver, h⟩ := h
  split at h
  · next id keys hcreated =>
    obtain rfl := Option.some.inj h
    exact .create hserver hcreated
  · next id hcreated haccepted =>
    obtain rfl := Option.some.inj h
    exact .accept hserver hdelete hcreated haccepted
  · next hcreated haccepted =>
    obtain rfl := Option.some.inj h
    exact .server hserver hdelete hcreated haccepted

/-- Every step has one of the effects. -/
theorem step_effect {event : RelayEvent} (h : s.step event = some t) : RelayEffect s event t := by
  simp only [step, Option.ite_none_left_eq_some] at h
  obtain ⟨-, h⟩ := h
  cases event with
  | server event =>
    simp only at h
    split at h
    · cases h
    · next hdelete => exact effect_of_serverStep hdelete h
  | run n event =>
    simp only [Option.bind_eq_bind, Option.bind_eq_some_iff, Option.some.injEq] at h
    obtain ⟨run, hrun, next, hnext, rfl⟩ := h
    exact .run hrun hnext
  | delete n =>
    simp only [Option.bind_eq_bind, Option.bind_eq_some_iff, Option.ite_none_right_eq_some,
      Option.some.injEq] at h
    obtain ⟨run, hrun, hphase, rfl⟩ := h
    exact .delete hrun hphase
  | addSessionClient =>
    obtain rfl := Option.some.inj h
    exact .addSessionClient
  | authenticate c key =>
    simp only at h
    split at h
    · next hclient =>
      cases key with
      | none =>
        obtain rfl := Option.some.inj h
        exact .unreadable hclient
      | some key =>
        obtain rfl := Option.some.inj h
        exact .authenticate hclient
    · cases h
  | lookUp c =>
    simp only at h
    split at h
    · next key hclient =>
      split at h
      · next hkey =>
        obtain rfl := Option.some.inj h
        exact .invalidKey hclient hkey
      · next handle hkey =>
        obtain rfl := Option.some.inj h
        exact .lookUp hclient hkey
    · cases h
  | hand c =>
    simp only at h
    split at h
    · next n seat hclient =>
      simp only [Option.bind_eq_bind, Option.bind_eq_some_iff] at h
      obtain ⟨run, hrun, h⟩ := h
      split at h
      · next hwaiting =>
        obtain rfl := Option.some.inj h
        exact .hand hclient hrun hwaiting
      · obtain rfl := Option.some.inj h
        exact .occupied hclient
    · cases h

end RelayServer

end ProjektCore.Relay
