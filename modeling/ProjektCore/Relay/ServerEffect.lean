import ProjektCore.Relay.Server

/-!
# What a step of a relay server does

Every step of a server has one of the effects listed here. Facts about all steps are proved by cases
on the effect.
-/

namespace ProjektCore.Relay

open Foundation

/-- The effects of the steps of a server. -/
inductive ServerEffect (s : Server) : ServerEvent → Server → Prop
  | reject {identity : Bytes} {other : ℕ} : s.clients (hexEncode identity) = some other →
      ServerEffect s (.addClient identity)
        { s with
          nextConn := s.nextConn + 1
          writes := s.writes ++ [⟨s.nextConn, .alreadyConnected, .rejection⟩] }
  | add {identity : Bytes} : s.clients (hexEncode identity) = none →
      ServerEffect s (.addClient identity)
        { s with
          nextConn := s.nextConn + 1
          clients := Function.update s.clients (hexEncode identity) (some s.nextConn)
          writes := s.writes ++ [⟨s.nextConn, .connected, .greeting identity⟩] }
  | writeFails {position : ℕ} {write : PendingWrite} : s.writes[position]? = some write →
      ServerEffect s (.write position true) { s with writes := s.writes.eraseIdx position }
  | write {position : ℕ} {write : PendingWrite} : s.writes[position]? = some write →
      (∀ identity, write.kind ≠ .greeting identity) →
      ServerEffect s (.write position false) { s with writes := s.writes.eraseIdx position }
  | greet {position : ℕ} {write : PendingWrite} {identity : Bytes} :
      s.writes[position]? = some write →
      write.kind = .greeting identity →
      ServerEffect s (.write position false)
        ({ s with writes := s.writes.eraseIdx position }.setHandler write.conn identity .reading)
  | receive {conn : ℕ} {identity : Bytes} {message : Message} :
      s.handlers conn = some (identity, .reading) →
      ServerEffect s (.receive conn message) (s.handleMessage conn identity message)
  | disconnect {conn : ℕ} {identity : Bytes} : s.handlers conn = some (identity, .reading) →
      ServerEffect s (.disconnect conn) (s.setHandler conn identity .leaving)
  | noTarget {conn : ℕ} {identity target data : Bytes} {keys : Bytes × Bytes} :
      s.handlers conn = some (identity, .request target data) → s.clients (hexEncode target) = none →
      ServerEffect s (.run conn keys)
        ((s.setHandler conn identity .reading).goWrite conn (.sessionFailed .targetUnavailable target))
  | findTarget {conn targetConn : ℕ} {identity target data : Bytes} {keys : Bytes × Bytes} :
      s.handlers conn = some (identity, .request target data) → s.clients (hexEncode target) = some targetConn →
      ServerEffect s (.run conn keys) (s.setHandler conn identity (.create target data targetConn))
  | sessionExists {conn targetConn : ℕ} {identity target data : Bytes} {keys : Bytes × Bytes}
      {handle : SessionHandle} : s.handlers conn = some (identity, .create target data targetConn) →
      s.sessions (newSessionIdentifier identity target) = some handle →
      ServerEffect s (.run conn keys)
        ((s.setHandler conn identity .reading).goWrite conn (.sessionFailed .sessionExists target))
  | create {conn targetConn : ℕ} {identity target data : Bytes} {keys : Bytes × Bytes} :
      s.handlers conn = some (identity, .create target data targetConn) →
      s.sessions (newSessionIdentifier identity target) = none →
      ServerEffect s (.run conn keys)
        ({ s.setHandler conn identity .reading with
            sessions := Function.update s.sessions (newSessionIdentifier identity target)
              (some ⟨identity, target, keys, false⟩) }
          |>.goWrite conn (.sessionCreated (s.createSessionDescription keys.1) target)
          |>.goWrite targetConn (.sessionInvitation (s.createSessionDescription keys.2) identity data))
  | unknownSession {conn : ℕ} {identity initiator data : Bytes} {keys : Bytes × Bytes} :
      s.handlers conn = some (identity, .accept initiator data) →
      s.sessions (newSessionIdentifier initiator identity) = none →
      ServerEffect s (.run conn keys)
        ((s.setHandler conn identity .reading).goWrite conn (.sessionFailed .unknownSession initiator))
  | alreadyAccepted {conn : ℕ} {identity initiator data : Bytes} {keys : Bytes × Bytes}
      {handle : SessionHandle} :
      s.handlers conn = some (identity, .accept initiator data) →
      s.sessions (newSessionIdentifier initiator identity) = some handle → handle.accepted = true →
      ServerEffect s (.run conn keys)
        ((s.setHandler conn identity .reading).goWrite conn (.sessionFailed .sessionAlreadyAccepted initiator))
  | accept {conn : ℕ} {identity initiator data : Bytes} {keys : Bytes × Bytes}
      {handle : SessionHandle} :
      s.handlers conn = some (identity, .accept initiator data) →
      s.sessions (newSessionIdentifier initiator identity) = some handle → handle.accepted = false →
      ServerEffect s (.run conn keys)
        { s.setHandler conn identity (.notify initiator data) with
          sessions := Function.update s.sessions (newSessionIdentifier initiator identity)
            (some { handle with accepted := true }) }
  | noInitiator {conn : ℕ} {identity initiator data : Bytes} {keys : Bytes × Bytes} :
      s.handlers conn = some (identity, .notify initiator data) → s.clients (hexEncode initiator) = none →
      ServerEffect s (.run conn keys)
        ((s.setHandler conn identity .reading).goWrite conn (.sessionFailed .initiatorUnavailable initiator))
  | notify {conn initiatorConn : ℕ} {identity initiator data : Bytes} {keys : Bytes × Bytes} :
      s.handlers conn = some (identity, .notify initiator data) →
      s.clients (hexEncode initiator) = some initiatorConn →
      ServerEffect s (.run conn keys)
        ((s.setHandler conn identity .reading).goWrite initiatorConn (.sessionAccepted identity data)
          |>.goWrite conn (.sessionEstablished initiator))
  | deleteClient {conn other : ℕ} {identity : Bytes} {keys : Bytes × Bytes} :
      s.handlers conn = some (identity, .leaving) → s.clients (hexEncode identity) = some other →
      ServerEffect s (.run conn keys)
        { s.setHandler conn identity .ended with
          clients := Function.update s.clients (hexEncode identity) none }
  | panic {conn : ℕ} {identity : Bytes} {keys : Bytes × Bytes} :
      s.handlers conn = some (identity, .leaving) → s.clients (hexEncode identity) = none →
      ServerEffect s (.run conn keys) { s with isPanicked := true }
  | deleteSession {id : List Char} {handle : SessionHandle} : s.sessions id = some handle →
      ServerEffect s (.deleteSession id) { s with sessions := Function.update s.sessions id none }

namespace Server

variable {s t : Server}

/-- What a goroutine of a client does next. -/
theorem effect_of_run {conn : ℕ} {identity : Bytes} {keys : Bytes × Bytes} {handler : ClientHandler}
    (hhandler : s.handlers conn = some (identity, handler))
    (h : s.run conn identity keys handler = some t) :
    ServerEffect s (.run conn keys) t := by
  cases handler with
  | request target data =>
    obtain rfl := Option.some.inj h
    cases hclient : s.clients (hexEncode target) with
    | none => simpa only [requestClient, hclient] using ServerEffect.noTarget hhandler hclient
    | some targetConn => simpa only [requestClient,
                           hclient] using ServerEffect.findTarget hhandler hclient
  | create target data targetConn =>
    obtain rfl := Option.some.inj h
    cases hsession : s.sessions (newSessionIdentifier identity target) with
    | none =>
      have heffect : ServerEffect s (.run conn keys) _ := .create hhandler hsession
      simpa only [newSession, setHandler, createSessionDescription, hsession] using heffect
    | some handle =>
      have heffect : ServerEffect s (.run conn keys) _ := .sessionExists hhandler hsession
      simpa only [newSession, setHandler, hsession] using heffect
  | accept initiator data =>
    obtain rfl := Option.some.inj h
    cases hsession : s.sessions (newSessionIdentifier initiator identity) with
    | none => simpa only [acceptSession,
                hsession] using ServerEffect.unknownSession hhandler hsession
    | some handle =>
      cases haccepted : handle.accepted with
      | true =>
        have heffect : ServerEffect s (.run conn keys) _ := .alreadyAccepted hhandler hsession haccepted
        simpa only [acceptSession, hsession, haccepted, if_true] using heffect
      | false =>
        have heffect : ServerEffect s (.run conn keys) _ := .accept hhandler hsession haccepted
        simpa only [acceptSession, hsession, haccepted, Bool.false_eq_true, if_false] using heffect
  | notify initiator data =>
    obtain rfl := Option.some.inj h
    cases hclient : s.clients (hexEncode initiator) with
    | none =>
      have heffect : ServerEffect s (.run conn keys) _ := .noInitiator hhandler hclient
      simpa only [notifyInitiator, setHandler, hclient] using heffect
    | some initiatorConn =>
      have heffect : ServerEffect s (.run conn keys) _ := .notify hhandler hclient
      simpa only [notifyInitiator, setHandler, hclient] using heffect
  | leaving =>
    obtain rfl := Option.some.inj h
    cases hclient : s.clients (hexEncode identity) with
    | none => simpa only [deleteClient, hclient] using ServerEffect.panic hhandler hclient
    | some other => simpa only [deleteClient,
                      hclient] using ServerEffect.deleteClient hhandler hclient
  | reading => simp [run] at h
  | ended => simp [run] at h

/-- Every step has one of the effects. -/
theorem step_effect {event : ServerEvent} (h : s.step event = some t) : ServerEffect s event t := by
  simp only [step, Option.ite_none_left_eq_some] at h
  obtain ⟨-, h⟩ := h
  cases event with
  | addClient identity =>
    obtain rfl := Option.some.inj h
    cases hclient : s.clients (hexEncode identity) with
    | none => simpa only [newClient, hclient] using ServerEffect.add hclient
    | some other => simpa only [newClient, hclient] using ServerEffect.reject hclient
  | write position isFailure =>
    simp only [Option.bind_eq_bind, Option.bind_eq_some_iff, Option.some.injEq] at h
    obtain ⟨write, hwrite, rfl⟩ := h
    cases isFailure with
    | true => exact .writeFails hwrite
    | false =>
      cases hkind : write.kind with
      | greeting identity => simpa [written, hkind] using ServerEffect.greet hwrite hkind
      | plain => simpa [written, hkind] using ServerEffect.write hwrite (by simp [hkind])
      | rejection => simpa [written, hkind] using ServerEffect.write hwrite (by simp [hkind])
  | receive conn message =>
    simp only at h
    split at h
    · next hhandler =>
      obtain rfl := Option.some.inj h
      exact .receive hhandler
    · cases h
  | disconnect conn =>
    simp only at h
    split at h
    · next hhandler =>
      obtain rfl := Option.some.inj h
      exact .disconnect hhandler
    · cases h
  | run conn keys =>
    simp only [Option.bind_eq_bind, Option.bind_eq_some_iff, Prod.exists] at h
    obtain ⟨identity, handler, hhandler, h⟩ := h
    exact effect_of_run hhandler h
  | deleteSession id =>
    simp only at h
    split at h
    · cases h
    · next hsession =>
      obtain rfl := Option.some.inj h
      exact .deleteSession hsession

end Server

end ProjektCore.Relay
