import ProjektCore.Foundation.History
import ProjektCore.Foundation.Runs
import ProjektCore.Relay.ServerEffect

/-!
# Who accepts a session

A session is found under the two encoded identities, one after the other. A client chooses one of
them freely, the other one is its own. As long as all clients have identities of one length, the
parts cannot be cut in a different place: a client finds only the sessions in which it is the
target. The record kept here is written beside the server and changes nothing in it. It tells the
sessions with one identifier apart by numbers.
-/

namespace ProjektCore.Relay

open Foundation

/-- Identities can be read off an identifier when the length of the second one is known. -/
theorem newSessionIdentifier_inj {a b a' b' : Bytes} (hlength : b.length = b'.length)
    (h : newSessionIdentifier a b = newSessionIdentifier a' b') : a = a' ∧ b = b' := by
  obtain ⟨ha, hb⟩ := List.append_inj' h (by simp [hexEncode_length, hlength])
  exact ⟨hexEncode_injective ha, hexEncode_injective hb⟩

/-- Clients are added with identities of one length. -/
def ServerEvent.OneLength (length : ℕ) : ServerEvent → Prop
  | .addClient identity => identity.length = length
  | _ => True

/-- A message that a client is sent is no greeting. -/
theorem Server.mem_of_goWrite {s : Server} {conn : ℕ} {message : Message} {write : PendingWrite}
    {identity : Bytes} (hwrite : write ∈ (s.goWrite conn message).writes)
    (hkind : write.kind = .greeting identity) :
    write ∈ s.writes := by
  simp only [goWrite, List.mem_append, List.mem_singleton] at hwrite
  rcases hwrite with hwrite | rfl
  · exact hwrite
  · cases hkind

/-- The identities of the clients, and of the targets of sessions, have one length. -/
structure Server.Sized (length : ℕ) (s : Server) : Prop where
  client : ∀ key conn, s.clients key = some conn → ∃ identity, key = hexEncode identity ∧ identity.length = length
  greeting : ∀ write ∈ s.writes, ∀ identity, write.kind = .greeting identity → identity.length = length
  handler : ∀ conn identity handler, s.handlers conn = some (identity, handler) → identity.length = length
  target : ∀ conn identity target data targetConn,
    s.handlers conn = some (identity, .create target data targetConn) → target.length = length
  session : ∀ id handle, s.sessions id = some handle →
    id = newSessionIdentifier handle.initiatorIdentity handle.targetIdentity ∧
      handle.targetIdentity.length = length

namespace Server.Sized

variable {length : ℕ} {s t : Server}

/-- A server without clients. -/
theorem new (sessionPort : ℕ) : (Server.new sessionPort).Sized length := by
  constructor <;> simp [Server.new]

/-- A goroutine goes on. -/
theorem goOn (h : s.Sized length) {conn : ℕ} {identity : Bytes} {handler : ClientHandler}
    (hidentity : identity.length = length)
    (htarget : ∀ target data targetConn, handler = .create target data targetConn → target.length = length)
    (hclients : ∀ key c, t.clients key = some c → s.clients key = some c)
    (hhandlers : t.handlers = Function.update s.handlers conn (some (identity, handler)))
    (hwrites : ∀ write ∈ t.writes, ∀ identity', write.kind = .greeting identity' → write ∈ s.writes)
    (hsessions : ∀ id handle, t.sessions id = some handle →
      id = newSessionIdentifier handle.initiatorIdentity handle.targetIdentity ∧
        handle.targetIdentity.length = length) : t.Sized length where
  client key c hkey := h.client key c (hclients key c hkey)
  greeting write hwrite identity' hkind := h.greeting write (hwrites write hwrite identity' hkind) identity' hkind
  handler c identity' handler' hc := by
    rw [hhandlers, Function.update_apply] at hc
    split at hc
    · obtain ⟨rfl, -⟩ := Prod.mk.inj (Option.some.inj hc)
      exact hidentity
    · exact h.handler c identity' handler' hc
  target c identity' target data targetConn hc := by
    rw [hhandlers, Function.update_apply] at hc
    split at hc
    · obtain ⟨-, hhandler⟩ := Prod.mk.inj (Option.some.inj hc)
      exact htarget target data targetConn hhandler
    · exact h.target c identity' target data targetConn hc
  session := hsessions

/-- The sessions after one of them is written. -/
theorem session_update (h : s.Sized length) {id : List Char} {handle : SessionHandle}
    (hid : id = newSessionIdentifier handle.initiatorIdentity handle.targetIdentity)
    (hlength : handle.targetIdentity.length = length) (other : List Char) (handle' : SessionHandle)
    (hother : Function.update s.sessions id (some handle) other = some handle') :
    other = newSessionIdentifier handle'.initiatorIdentity handle'.targetIdentity ∧
      handle'.targetIdentity.length = length := by
  rw [Function.update_apply] at hother
  split at hother
  · next heq =>
    obtain rfl := Option.some.inj hother
    exact ⟨heq.trans hid, hlength⟩
  · exact h.session other handle' hother

/-- The session that a client finds has this client as its target. -/
theorem names (h : s.Sized length) {conn : ℕ} {identity initiator : Bytes} {handler : ClientHandler}
    {handle : SessionHandle} (hhandler : s.handlers conn = some (identity, handler))
    (hsession : s.sessions (newSessionIdentifier initiator identity) = some handle) :
    handle.initiatorIdentity = initiator ∧ handle.targetIdentity = identity := by
  obtain ⟨hid, hlength⟩ := h.session _ _ hsession
  have hinj := newSessionIdentifier_inj ((h.handler _ _ _ hhandler).trans hlength.symm) hid
  exact ⟨hinj.1.symm, hinj.2.symm⟩

/-- Every step keeps the lengths. -/
theorem step (h : s.Sized length) {event : ServerEvent} (hguard : event.OneLength length)
    (heffect : ServerEffect s event t) : t.Sized length := by
  cases heffect with
  | reject =>
    refine { h with greeting := ?_ }
    intro write hwrite identity hkind
    simp only [List.mem_append, List.mem_singleton] at hwrite
    rcases hwrite with hwrite | rfl
    · exact h.greeting write hwrite identity hkind
    · cases hkind
  | @add identity _ =>
    refine { h with client := ?_, greeting := ?_ }
    · intro key conn hkey
      simp only [Function.update_apply] at hkey
      split at hkey
      · next heq => exact ⟨identity, heq, hguard⟩
      · exact h.client key conn hkey
    · intro write hwrite identity' hkind
      simp only [List.mem_append, List.mem_singleton] at hwrite
      rcases hwrite with hwrite | rfl
      · exact h.greeting write hwrite identity' hkind
      · obtain rfl := WriteKind.greeting.inj hkind
        exact hguard
  | writeFails => exact { h with greeting := fun write hwrite => h.greeting write (List.mem_of_mem_eraseIdx hwrite) }
  | write => exact { h with greeting := fun write hwrite => h.greeting write (List.mem_of_mem_eraseIdx hwrite) }
  | greet hwrite hkind =>
    exact h.goOn (h.greeting _ (List.mem_of_getElem? hwrite) _ hkind) (by simp) (fun _ _ hkey => hkey) rfl
      (fun _ hother _ _ => List.mem_of_mem_eraseIdx hother) h.session
  | @receive _ _ message hhandler =>
    refine h.goOn (h.handler _ _ _ hhandler) ?_ (fun _ _ hkey => hkey) rfl (fun _ hwrite _ _ => hwrite) h.session
    cases message <;> simp
  | disconnect hhandler =>
    exact h.goOn (h.handler _ _ _ hhandler) (by simp) (fun _ _ hkey => hkey) rfl (fun _ hwrite _ _ => hwrite) h.session
  | findTarget hhandler hclient =>
    refine h.goOn (h.handler _ _ _ hhandler) ?_ (fun _ _ hkey => hkey) rfl (fun _ hwrite _ _ => hwrite) h.session
    intro target data targetConn heq
    obtain ⟨rfl, -⟩ := ClientHandler.create.inj heq
    obtain ⟨identity, hkey, hlength⟩ := h.client _ _ hclient
    exact hexEncode_injective hkey ▸ hlength
  | noTarget hhandler | sessionExists hhandler | unknownSession hhandler | alreadyAccepted hhandler
  | noInitiator hhandler =>
    exact h.goOn (h.handler _ _ _ hhandler) (by simp) (fun _ _ hkey => hkey) rfl
      (fun _ hwrite _ hkind => mem_of_goWrite hwrite hkind) h.session
  | notify hhandler =>
    exact h.goOn (h.handler _ _ _ hhandler) (by simp) (fun _ _ hkey => hkey) rfl
      (fun _ hwrite _ hkind => mem_of_goWrite (mem_of_goWrite hwrite hkind) hkind) h.session
  | create hhandler =>
    exact h.goOn (h.handler _ _ _ hhandler) (by simp) (fun _ _ hkey => hkey) rfl
      (fun _ hwrite _ hkind => mem_of_goWrite (mem_of_goWrite hwrite hkind) hkind)
      (h.session_update rfl (h.target _ _ _ _ _ hhandler))
  | accept hhandler hsession =>
    obtain ⟨hid, hlength⟩ := h.session _ _ hsession
    exact h.goOn (h.handler _ _ _ hhandler) (by simp) (fun _ _ hkey => hkey) rfl (fun _ hwrite _ _ => hwrite)
      (h.session_update hid hlength)
  | deleteClient hhandler =>
    refine h.goOn (h.handler _ _ _ hhandler) (by simp) ?_ rfl (fun _ hwrite _ _ => hwrite) h.session
    intro key c hkey
    simp only [Function.update_apply] at hkey
    split at hkey
    · cases hkey
    · exact hkey
  | panic => exact ⟨h.client, h.greeting, h.handler, h.target, h.session⟩
  | deleteSession =>
    refine { h with session := ?_ }
    intro id handle hid
    simp only [Function.update_apply] at hid
    split at hid
    · cases hid
    · exact h.session id handle hid

end Server.Sized

/-- What is recorded beside the server. -/
inductive AuditEntry where
  /-- A connection is registered for an identity. -/
  | registered (conn : ℕ) (identity : Bytes)
  | received (conn : ℕ) (message : Message)
  /-- A session is created by the request of a connection, and gets a number. -/
  | created (serial conn : ℕ) (initiator target : Bytes)
  | accepted (serial conn : ℕ)
  /-- A goroutine is started that tells a client of the acceptance of a session. -/
  | sent (serial : ℕ) (write : PendingWrite)
deriving Repr, DecidableEq

/-- What happens once: to a connection, or to the session with a number. -/
inductive AuditKey where
  | registration (conn : ℕ)
  | creation (serial : ℕ)
  | acceptance (serial : ℕ)
  /-- A message of a type. -/
  | message (serial type : ℕ)
deriving Repr, DecidableEq

/-- The messages that tell of an acceptance. -/
def PendingWrite.isAnnouncement (write : PendingWrite) : Bool :=
  match write.message with
  | .sessionAccepted .. | .sessionEstablished .. => true
  | _ => false

/-- The message that a goroutine is handling. -/
def ClientHandler.handles : ClientHandler → Option Message
  | .request target data | .create target data _ => some (.requestSession target data)
  | .accept initiator data | .notify initiator data => some (.acceptSession initiator data)
  | .reading | .leaving | .ended => none

namespace AuditEntry

/-- The message received on a connection. -/
def receivedOn (conn : ℕ) : AuditEntry → Option Message
  | .received c message => if c = conn then some message else none
  | _ => none

/-- The number of a session created with an identifier. -/
def createdAs (id : List Char) : AuditEntry → Option ℕ
  | .created serial _ initiator target => if newSessionIdentifier initiator target = id then some serial else none
  | _ => none

/-- The number of a session accepted on a connection. -/
def acceptedOn (conn : ℕ) : AuditEntry → Option ℕ
  | .accepted serial c => if c = conn then some serial else none
  | _ => none

/-- The message of an announcement. -/
def announced : AuditEntry → Option PendingWrite
  | .sent _ write => some write
  | _ => none

/-- Whether an entry is about a session. -/
def isOfSession : AuditEntry → Bool
  | .registered .. | .received .. => false
  | .created .. | .accepted .. | .sent .. => true

/-- What an entry says that is said once. -/
def key : AuditEntry → Option AuditKey
  | .registered conn _ => some (.registration conn)
  | .received .. => none
  | .created serial .. => some (.creation serial)
  | .accepted serial _ => some (.acceptance serial)
  | .sent serial write => some (.message serial (rawTypeOf write.message))

/-- Why an entry is made. -/
def Reason (before : List AuditEntry) : AuditEntry → Prop
  | .registered .. | .received .. => True
  | .created _ conn initiator target =>
    .registered conn initiator ∈ before ∧ ∃ data, latest (receivedOn conn) before = some (.requestSession target data)
  | .accepted serial conn =>
    ∃ c initiator target data, .created serial c initiator target ∈ before ∧ .registered conn target ∈ before ∧
      latest (receivedOn conn) before = some (.acceptSession initiator data)
  | .sent serial write =>
    ∃ conn c initiator target, .accepted serial conn ∈ before ∧ .created serial c initiator target ∈ before ∧
      ((∃ data, write.message = .sessionAccepted target data) ∨ write.message = .sessionEstablished initiator)

/-- An entry is made for the first time, and with a reason. -/
def Sound (before : List AuditEntry) (entry : AuditEntry) : Prop :=
  IsFirst key before entry ∧ entry.Reason before

end AuditEntry

/-- A server with the record. -/
structure Audit where
  server : Server
  log : List AuditEntry

namespace Audit

open AuditEntry

/-- A server without clients. -/
def new (sessionPort : ℕ) : Audit := ⟨.new sessionPort, []⟩

/-- The messages that a step starts to write. -/
def started (s t : Server) : List PendingWrite := t.writes.drop s.writes.length

/-- What is recorded of a step to a new state of the server. -/
def entries (a : Audit) (event : ServerEvent) (t : Server) : List AuditEntry :=
  match event with
  | .addClient identity =>
    match a.server.clients (hexEncode identity) with
    | none => [.registered a.server.nextConn identity]
    | some _ => []
  | .receive conn message => [.received conn message]
  | .run conn _ =>
    match a.server.handlers conn with
    | some (identity, .create target _ _) =>
      match a.server.sessions (newSessionIdentifier identity target) with
      | none => [.created a.log.length conn identity target]
      | some _ => []
    | some (identity, .accept initiator _) =>
      let id := newSessionIdentifier initiator identity
      match a.server.sessions id, latest (createdAs id) a.log with
      | some handle, some serial => if handle.accepted then [] else [.accepted serial conn]
      | _, _ => []
    | some (_, .notify _ _) =>
      match latest (acceptedOn conn) a.log with
      | some serial => ((started a.server t).filter (·.isAnnouncement)).map (.sent serial)
      | none => []
    | _ => []
  | .write .. | .disconnect _ | .deleteSession _ => []

/-- One step of the server, with its record. -/
def step (a : Audit) (event : ServerEvent) : Option Audit :=
  (a.server.step event).map fun t => ⟨t, a.log ++ a.entries event t⟩

variable {a : Audit} {t : Server} {length : ℕ}

/-- What goroutines do is recorded as being about sessions. -/
theorem isOfSession_of_mem_entries {conn : ℕ} {keys : Bytes × Bytes} {entry : AuditEntry}
    (h : entry ∈ a.entries (.run conn keys) t) : entry.isOfSession = true := by
  simp only [entries] at h
  split at h
  · split at h
    · obtain rfl := List.mem_singleton.mp h
      rfl
    · cases h
  · split at h
    · split at h
      · cases h
      · obtain rfl := List.mem_singleton.mp h
        rfl
    · cases h
  · split at h
    · obtain ⟨write, -, rfl⟩ := List.mem_map.mp h
      rfl
    · cases h
  · cases h

/-- What is said once is said by one entry. -/
theorem eq_of_key {log : List AuditEntry} (h : Justified Sound log) {x y : AuditEntry}
    (hx : x ∈ log) (hy : y ∈ log) {key : AuditKey} (hkeyx : x.key = some key)
    (hkeyy : y.key = some key) : x = y :=
  h.eq_of_key (fun _ _ hsound => hsound.1) hx hy hkeyx hkeyy

/-- The connections that the server knows are recorded, and so are the messages that it handles. -/
structure Witnessed (a : Audit) : Prop where
  fresh : ∀ conn identity, .registered conn identity ∈ a.log → conn < a.server.nextConn
  greeting : ∀ write ∈ a.server.writes, ∀ identity, write.kind = .greeting identity →
    .registered write.conn identity ∈ a.log
  handler : ∀ conn identity handler, a.server.handlers conn = some (identity, handler) →
    .registered conn identity ∈ a.log
  handling : ∀ conn identity handler message, a.server.handlers conn = some (identity, handler) →
    handler.handles = some message → latest (receivedOn conn) a.log = some message

namespace Witnessed

/-- Nothing is known at the start. -/
theorem new (sessionPort : ℕ) : (Audit.new sessionPort).Witnessed := by
  constructor <;> simp [Audit.new, Server.new]

/-- A goroutine goes on with the message that it handles. -/
theorem goOn {more : List AuditEntry} (h : a.Witnessed) {conn : ℕ} {identity : Bytes}
    {handler handler' : ClientHandler}
    (hhandler : a.server.handlers conn = some (identity, handler))
    (hhandles : ∀ message, handler'.handles = some message → handler.handles = some message)
    (hnext : t.nextConn = a.server.nextConn)
    (hhandlers : t.handlers = Function.update a.server.handlers conn (some (identity, handler')))
    (hwrites : ∀ write ∈ t.writes, ∀ identity', write.kind = .greeting identity' → write ∈ a.server.writes)
    (hmore : ∀ entry ∈ more, entry.isOfSession = true) :
    Witnessed ⟨t, a.log ++ more⟩ where
  fresh c identity' hregistered := by
    rw [List.mem_append] at hregistered
    rcases hregistered with hregistered | hregistered
    · exact hnext ▸ h.fresh c identity' hregistered
    · cases hmore _ hregistered
  greeting write hwrite identity' hkind :=
    List.mem_append_left _ (h.greeting write (hwrites write hwrite identity' hkind) identity' hkind)
  handler c identity' handler'' hc := by
    apply List.mem_append_left
    rw [hhandlers, Function.update_apply] at hc
    split at hc
    · next heq =>
      obtain ⟨rfl, -⟩ := Prod.mk.inj (Option.some.inj hc)
      exact heq ▸ h.handler conn identity handler hhandler
    · exact h.handler c identity' handler'' hc
  handling c identity' handler'' message hc hmessage := by
    have hnone : ∀ entry ∈ more, entry.receivedOn c = none := by
      intro entry hentry
      have hofSession := hmore entry hentry
      cases entry with
      | registered | received => cases hofSession
      | created | accepted | sent => rfl
    rw [latest_append_of_forall_eq_none hnone]
    rw [hhandlers, Function.update_apply] at hc
    split at hc
    · next heq =>
      obtain ⟨rfl, rfl⟩ := Prod.mk.inj (Option.some.inj hc)
      exact heq ▸ h.handling conn identity handler message hhandler (hhandles message hmessage)
    · exact h.handling c identity' handler'' message hc hmessage

/-- A connection is added. -/
theorem add (h : a.Witnessed) {clients : List Char → Option ℕ} {write : PendingWrite}
    {more : List AuditEntry}
    (hwrite : ∀ identity, write.kind = .greeting identity → .registered write.conn identity ∈ more)
    (hmore : ∀ entry ∈ more, ∃ identity, entry = .registered a.server.nextConn identity) :
    Witnessed ⟨{ a.server with
      nextConn := a.server.nextConn + 1, clients, writes := a.server.writes ++ [write] }, a.log ++ more⟩ where
  fresh c identity hregistered := by
    rw [List.mem_append] at hregistered
    rcases hregistered with hregistered | hregistered
    · exact Nat.lt_succ_of_lt (h.fresh c identity hregistered)
    · obtain ⟨identity', heq⟩ := hmore _ hregistered
      obtain ⟨rfl, -⟩ := AuditEntry.registered.inj heq
      exact Nat.lt_succ_self _
  greeting other hother identity hkind := by
    rw [List.mem_append, List.mem_singleton] at hother
    rcases hother with hother | rfl
    · exact List.mem_append_left _ (h.greeting other hother identity hkind)
    · exact List.mem_append_right _ (hwrite identity hkind)
  handler c identity handler hc := List.mem_append_left _ (h.handler c identity handler hc)
  handling c identity handler message hc hmessage := by
    rw [latest_append_of_forall_eq_none]
    · exact h.handling c identity handler message hc hmessage
    · intro entry hentry
      obtain ⟨identity', rfl⟩ := hmore entry hentry
      rfl

/-- A client is greeted. -/
theorem greet (h : a.Witnessed) {position : ℕ} {write : PendingWrite} {identity : Bytes}
    (hwrite : a.server.writes[position]? = some write) (hkind : write.kind = .greeting identity) :
    Witnessed ⟨{ a.server with writes := a.server.writes.eraseIdx position }.setHandler write.conn identity .reading,
      a.log⟩ where
  fresh := h.fresh
  greeting other hother := h.greeting other (List.mem_of_mem_eraseIdx hother)
  handler c identity' handler hc := by
    simp only [Server.setHandler, Function.update_apply] at hc
    split at hc
    · next heq =>
      obtain ⟨rfl, -⟩ := Prod.mk.inj (Option.some.inj hc)
      exact heq ▸ h.greeting write (List.mem_of_getElem? hwrite) _ hkind
    · exact h.handler c identity' handler hc
  handling c identity' handler message hc hmessage := by
    simp only [Server.setHandler, Function.update_apply] at hc
    split at hc
    · obtain ⟨-, rfl⟩ := Prod.mk.inj (Option.some.inj hc)
      cases hmessage
    · exact h.handling c identity' handler message hc hmessage

/-- A message is received, and its handling begins. -/
theorem receive (h : a.Witnessed) {conn : ℕ} {identity : Bytes} (message : Message)
    (hhandler : a.server.handlers conn = some (identity, .reading)) :
    Witnessed ⟨a.server.handleMessage conn identity message, a.log ++ [.received conn message]⟩ where
  fresh c identity' hregistered := by
    simp only [List.mem_append, List.mem_singleton, reduceCtorEq, or_false] at hregistered
    exact h.fresh c identity' hregistered
  greeting write hwrite identity' hkind := List.mem_append_left _ (h.greeting write hwrite identity' hkind)
  handler c identity' handler hc := by
    apply List.mem_append_left
    simp only [Server.handleMessage, Server.setHandler, Function.update_apply] at hc
    split at hc
    · next heq =>
      obtain ⟨rfl, -⟩ := Prod.mk.inj (Option.some.inj hc)
      exact heq ▸ h.handler conn _ .reading hhandler
    · exact h.handler c identity' handler hc
  handling c identity' handler message' hc hmessage := by
    simp only [Server.handleMessage, Server.setHandler, Function.update_apply] at hc
    rw [latest_concat, receivedOn]
    split at hc
    · next heq =>
      obtain ⟨-, rfl⟩ := Prod.mk.inj (Option.some.inj hc)
      rw [if_pos heq.symm]
      cases message <;> simp_all [ClientHandler.handles]
    · next hne =>
      rw [if_neg (Ne.symm hne)]
      exact h.handling c identity' handler message' hc hmessage

/-- Every step is recorded. -/
theorem step (h : a.Witnessed) {event : ServerEvent} (heffect : ServerEffect a.server event t) :
    Witnessed ⟨t, a.log ++ a.entries event t⟩ := by
  cases heffect with
  | reject hclient =>
    simp only [entries, hclient]
    exact h.add (by simp) (by simp)
  | add hfree =>
    simp only [entries, hfree]
    exact h.add (by simp) (by simp)
  | writeFails | write =>
    simp only [entries, List.append_nil]
    exact { h with greeting := fun write hwrite => h.greeting write (List.mem_of_mem_eraseIdx hwrite) }
  | greet hwrite hkind =>
    simp only [entries, List.append_nil]
    exact h.greet hwrite hkind
  | receive hhandler => exact h.receive _ hhandler
  | disconnect hhandler =>
    exact h.goOn hhandler (by simp [ClientHandler.handles]) rfl rfl (fun _ hwrite _ _ => hwrite) (by simp [entries])
  | findTarget hhandler | accept hhandler =>
    exact h.goOn hhandler (by simp [ClientHandler.handles]) rfl rfl (fun _ hwrite _ _ => hwrite)
      (fun _ => isOfSession_of_mem_entries)
  | noTarget hhandler | sessionExists hhandler | unknownSession hhandler | alreadyAccepted hhandler
  | noInitiator hhandler =>
    exact h.goOn hhandler (by simp [ClientHandler.handles]) rfl rfl
      (fun _ hwrite _ hkind => Server.mem_of_goWrite hwrite hkind) (fun _ => isOfSession_of_mem_entries)
  | create hhandler | notify hhandler =>
    exact h.goOn hhandler (by simp [ClientHandler.handles]) rfl rfl
      (fun _ hwrite _ hkind => Server.mem_of_goWrite (Server.mem_of_goWrite hwrite hkind) hkind)
      (fun _ => isOfSession_of_mem_entries)
  | deleteClient hhandler =>
    exact h.goOn hhandler (by simp [ClientHandler.handles]) rfl rfl (fun _ hwrite _ _ => hwrite)
      (fun _ => isOfSession_of_mem_entries)
  | panic hhandler =>
    simp only [entries, hhandler, List.append_nil]
    exact ⟨h.fresh, h.greeting, h.handler, h.handling⟩
  | deleteSession =>
    simp only [entries, List.append_nil]
    exact ⟨h.fresh, h.greeting, h.handler, h.handling⟩

end Witnessed

/-- The sessions of the server and the record agree on what has been accepted. -/
structure Tallied (a : Audit) : Prop where
  numbered : ∀ serial conn initiator target, .created serial conn initiator target ∈ a.log → serial < a.log.length
  session : ∀ id handle, a.server.sessions id = some handle →
    ∃ serial conn, latest (createdAs id) a.log = some serial ∧
      .created serial conn handle.initiatorIdentity handle.targetIdentity ∈ a.log ∧
      (handle.accepted = true ↔ ∃ c, .accepted serial c ∈ a.log)
  notify : ∀ conn identity initiator data, a.server.handlers conn = some (identity, .notify initiator data) →
    ∃ serial c, latest (acceptedOn conn) a.log = some serial ∧ .accepted serial conn ∈ a.log ∧
      .created serial c initiator identity ∈ a.log ∧ ∀ write, .sent serial write ∉ a.log
  justified : Justified Sound a.log

namespace Tallied

/-- There are no sessions at the start. -/
theorem new (sessionPort : ℕ) : (Audit.new sessionPort).Tallied where
  numbered := by simp [Audit.new]
  session := by simp [Audit.new, Server.new]
  notify := by simp [Audit.new, Server.new]
  justified := justified_nil

/-- The session of a number was created before the number is used. -/
theorem lt_of_accepted (h : a.Tallied) {serial conn : ℕ}
    (haccepted : .accepted serial conn ∈ a.log) :
    serial < a.log.length := by
  obtain ⟨before, after, heq, -, c, initiator, target, data, hcreated, -⟩ := h.justified.exists_of_mem haccepted
  exact h.numbered serial c initiator target (heq ▸ List.mem_append_left _ hcreated)

/-- A message about a session is sent after its acceptance. -/
theorem accepted_of_sent (h : a.Tallied) {serial : ℕ} {write : PendingWrite}
    (hsent : .sent serial write ∈ a.log) :
    ∃ conn, .accepted serial conn ∈ a.log := by
  obtain ⟨before, after, heq, -, conn, c, initiator, target, haccepted, -⟩ := h.justified.exists_of_mem hsent
  exact ⟨conn, heq ▸ List.mem_append_left _ haccepted⟩

/-- Nothing is recorded of a step that takes sessions away and notifies nobody. -/
theorem keep (h : a.Tallied)
    (hsessions : ∀ id handle, t.sessions id = some handle → a.server.sessions id = some handle)
    (hnotify : ∀ conn identity initiator data, t.handlers conn = some (identity, .notify initiator data) →
      a.server.handlers conn = some (identity, .notify initiator data)) : Tallied ⟨t, a.log⟩ where
  numbered := h.numbered
  session id handle hid := h.session id handle (hsessions id handle hid)
  notify conn identity initiator data hconn := h.notify conn identity initiator data (hnotify _ _ _ _ hconn)
  justified := h.justified

/-- The record of a connection says nothing about sessions. -/
theorem record (h : a.Tallied) {entry : AuditEntry} (hsound : entry.Sound a.log)
    (hentry : entry.isOfSession = false) :
    Tallied ⟨a.server, a.log ++ [entry]⟩ where
  numbered serial conn initiator target hcreated := by
    simp only [List.mem_append, List.mem_singleton, List.length_append,
      List.length_singleton] at hcreated ⊢
    rcases hcreated with hcreated | rfl
    · exact Nat.lt_succ_of_lt (h.numbered serial conn initiator target hcreated)
    · cases hentry
  session id handle hid := by
    obtain ⟨serial, conn, hserial, hcreated, haccepted⟩ := h.session id handle hid
    refine ⟨serial, conn, ?_, List.mem_append_left _ hcreated, haccepted.trans ?_⟩
    · rw [latest_concat]
      cases entry with
      | registered | received => exact hserial
      | created | accepted | sent => cases hentry
    · cases entry with
      | registered | received => simp
      | created | accepted | sent => cases hentry
  notify conn identity initiator data hconn := by
    obtain ⟨serial, c, hserial, haccepted, hcreated, hunsent⟩ := h.notify conn identity initiator data hconn
    refine ⟨serial, c, ?_, List.mem_append_left _ haccepted, List.mem_append_left _ hcreated, ?_⟩
    · rw [latest_concat]
      cases entry with
      | registered | received => exact hserial
      | created | accepted | sent => cases hentry
    · cases entry with
      | registered | received => simpa using hunsent
      | created | accepted | sent => cases hentry
  justified := justified_concat.mpr ⟨h.justified, hsound⟩

/-- A session is created, with the length of the record as its number. -/
theorem create (h : a.Tallied) (hwitnessed : a.Witnessed) {conn targetConn : ℕ} {identity target data : Bytes}
    {keys : Bytes × Bytes} (hhandler : a.server.handlers conn = some (identity, .create target data targetConn))
    (hsessions : t.sessions = Function.update a.server.sessions (newSessionIdentifier identity target)
      (some ⟨identity, target, keys, false⟩))
    (hnotify : ∀ conn identity initiator data, t.handlers conn = some (identity, .notify initiator data) →
      a.server.handlers conn = some (identity, .notify initiator data)) :
    Tallied ⟨t, a.log ++ [.created a.log.length conn identity target]⟩ where
  numbered serial c initiator target' hcreated := by
    simp only [List.mem_append, List.mem_singleton, List.length_append,
      List.length_singleton] at hcreated ⊢
    rcases hcreated with hcreated | heq
    · exact Nat.lt_succ_of_lt (h.numbered serial c initiator target' hcreated)
    · obtain ⟨rfl, -⟩ := AuditEntry.created.inj heq
      exact Nat.lt_succ_self _
  session id handle hid := by
    simp only [hsessions, Function.update_apply] at hid
    split at hid
    · next heq =>
      subst heq
      obtain rfl := Option.some.inj hid
      refine ⟨a.log.length, conn, by simp [createdAs], by simp, ?_⟩
      -- no session with this number has been accepted, since numbers are lengths of the record
      simp only [Bool.false_eq_true, List.mem_append, List.mem_singleton, reduceCtorEq, or_false,
        false_iff, not_exists]
      intro c haccepted
      exact absurd (h.lt_of_accepted haccepted) (lt_irrefl _)
    · next hne =>
      obtain ⟨serial, c, hserial, hcreated, haccepted⟩ := h.session id handle hid
      refine ⟨serial, c, ?_, List.mem_append_left _ hcreated, haccepted.trans (by simp)⟩
      simp only [latest_concat, createdAs, if_neg (Ne.symm hne), Option.none_or, hserial]
  notify c identity' initiator data' hc := by
    obtain ⟨serial, c', hserial, haccepted, hcreated, hunsent⟩ :=
      h.notify c identity' initiator data' (hnotify _ _ _ _ hc)
    exact ⟨serial, c', by simpa [acceptedOn] using hserial, List.mem_append_left _ haccepted,
      List.mem_append_left _ hcreated, by simpa using hunsent⟩
  justified := by
    refine justified_concat.mpr ⟨h.justified, ?_, hwitnessed.handler _ _ _ hhandler, data,
      hwitnessed.handling _ _ _ _ hhandler rfl⟩
    intro key hkey other hother hotherKey
    obtain rfl := Option.some.inj hkey
    cases other with
    | created serial c initiator target' =>
      have hlt := h.numbered serial c initiator target' hother
      simp only [AuditEntry.key, Option.some.injEq, AuditKey.creation.injEq] at hotherKey
      omega
    | registered | received | accepted | sent => simp [AuditEntry.key] at hotherKey

/-- Sessions with one number have one identifier. -/
theorem id_eq (h : a.Tallied) (hsized : a.server.Sized length) {id id' : List Char}
    {handle handle' : SessionHandle} (hid : a.server.sessions id = some handle)
    (hid' : a.server.sessions id' = some handle') {serial conn conn' : ℕ}
    (hcreated : .created serial conn handle.initiatorIdentity handle.targetIdentity ∈ a.log)
    (hcreated' : .created serial conn' handle'.initiatorIdentity handle'.targetIdentity ∈ a.log) :
    id = id' := by
  obtain ⟨-, -, hinitiator, htarget⟩ := AuditEntry.created.inj (eq_of_key h.justified hcreated hcreated' rfl rfl)
  rw [(hsized.session id handle hid).1, (hsized.session id' handle' hid').1, hinitiator, htarget]

/-- A session is accepted by its target. -/
theorem accept (h : a.Tallied) (hwitnessed : a.Witnessed) (hsized : a.server.Sized length)
    {conn serial : ℕ} {identity initiator data : Bytes} {handle : SessionHandle}
    (hhandler : a.server.handlers conn = some (identity, .accept initiator data))
    (hsession : a.server.sessions (newSessionIdentifier initiator identity) = some handle)
    (haccepted : handle.accepted = false)
    (hserial : latest (createdAs (newSessionIdentifier initiator identity)) a.log = some serial) :
    Tallied ⟨{ a.server.setHandler conn identity (.notify initiator data) with
      sessions := Function.update a.server.sessions (newSessionIdentifier initiator identity)
        (some { handle with accepted := true }) }, a.log ++ [.accepted serial conn]⟩ := by
  obtain ⟨serial', creator, hserial', hcreated, hiff⟩ := h.session _ _ hsession
  obtain rfl := Option.some.inj (hserial'.symm.trans hserial)
  have hnone : ∀ c, .accepted serial' c ∉ a.log := by
    intro c hc
    simp [haccepted] at hiff
    exact hiff c hc
  obtain ⟨hinitiator, htarget⟩ := hsized.names hhandler hsession
  constructor
  case numbered =>
    intro number c initiator' target' hcreated'
    simp only [List.mem_append, List.mem_singleton, reduceCtorEq, or_false, List.length_append,
      List.length_singleton] at hcreated' ⊢
    exact Nat.lt_succ_of_lt (h.numbered number c initiator' target' hcreated')
  case session =>
    intro id handle' hid
    simp only [Function.update_apply] at hid
    split at hid
    · next heq =>
      subst heq
      obtain rfl := Option.some.inj hid
      refine ⟨serial', creator, ?_, List.mem_append_left _ hcreated, ?_⟩
      · simpa only [latest_concat, createdAs, Option.none_or] using hserial'
      · exact ⟨fun _ => ⟨conn, by simp⟩, fun _ => rfl⟩
    · next hne =>
      obtain ⟨number, c, hnumber, hcreated', hiff'⟩ := h.session id handle' hid
      have hother : number ≠ serial' := by
        rintro rfl
        exact hne (h.id_eq hsized hid hsession hcreated' hcreated)
      refine ⟨number, c, ?_, List.mem_append_left _ hcreated', hiff'.trans ?_⟩
      · simpa only [latest_concat, createdAs, Option.none_or] using hnumber
      · simp [hother]
  case notify =>
    intro c identity' initiator' data' hc
    simp only [Server.setHandler, Function.update_apply] at hc
    split at hc
    · next heq =>
      subst heq
      obtain ⟨rfl, hhandler'⟩ := Prod.mk.inj (Option.some.inj hc)
      obtain ⟨rfl, rfl⟩ := ClientHandler.notify.inj hhandler'
      refine ⟨serial', creator, by simp [acceptedOn], by simp, ?_, ?_⟩
      · exact List.mem_append_left _ (hinitiator ▸ htarget ▸ hcreated)
      · intro write hsent
        simp only [List.mem_append, List.mem_singleton, reduceCtorEq, or_false] at hsent
        obtain ⟨c', hc'⟩ := h.accepted_of_sent hsent
        exact hnone c' hc'
    · next hne =>
      obtain ⟨number, c', hnumber, haccepted', hcreated', hunsent⟩ := h.notify c identity' initiator' data' hc
      refine ⟨number, c', ?_, List.mem_append_left _ haccepted', List.mem_append_left _ hcreated',
        by simpa using hunsent⟩
      simpa only [latest_concat, acceptedOn, if_neg (Ne.symm hne), Option.none_or] using hnumber
  case justified =>
    refine justified_concat.mpr ⟨h.justified, ?_, creator, initiator, identity, data,
      hinitiator ▸ htarget ▸ hcreated, hwitnessed.handler _ _ _ hhandler, hwitnessed.handling _ _ _ _ hhandler rfl⟩
    intro key hkey other hother hotherKey
    obtain rfl := Option.some.inj hkey
    cases other with
    | accepted number c =>
      simp only [AuditEntry.key, Option.some.injEq, AuditKey.acceptance.injEq] at hotherKey
      subst hotherKey
      exact hnone c hother
    | registered | received | created | sent => simp [AuditEntry.key] at hotherKey

/-- A message about a session of which nobody has been told is the first one. -/
theorem isFirst_of_unsent {log : List AuditEntry} {serial : ℕ}
    (hunsent : ∀ write, .sent serial write ∉ log) (write : PendingWrite) :
    IsFirst AuditEntry.key log (.sent serial write) := by
  intro key hkey other hother hotherKey
  obtain rfl := Option.some.inj hkey
  cases other with
  | sent number write' =>
    simp only [AuditEntry.key, Option.some.injEq, AuditKey.message.injEq] at hotherKey
    exact hunsent write' (hotherKey.1 ▸ hother)
  | registered | received | created | accepted => simp [AuditEntry.key] at hotherKey

/-- The two clients of an accepted session are told. -/
theorem tell (h : a.Tallied) {conn initiatorConn : ℕ} {identity initiator data : Bytes} {serial : ℕ}
    (hhandler : a.server.handlers conn = some (identity, .notify initiator data))
    (hserial : latest (acceptedOn conn) a.log = some serial)
    (hsessions : t.sessions = a.server.sessions)
    (hhandlers : t.handlers = Function.update a.server.handlers conn (some (identity, .reading))) :
    Tallied ⟨t, a.log ++ [.sent serial ⟨initiatorConn, .sessionAccepted identity data, .plain⟩,
      .sent serial ⟨conn, .sessionEstablished initiator, .plain⟩]⟩ := by
  obtain ⟨serial', creator, hserial', haccepted, hcreated, hunsent⟩ := h.notify _ _ _ _ hhandler
  obtain rfl := Option.some.inj (hserial'.symm.trans hserial)
  constructor
  case numbered =>
    intro number c initiator' target' hcreated'
    simp only [List.mem_append, List.mem_cons, List.not_mem_nil, reduceCtorEq, or_false,
      List.length_append] at hcreated' ⊢
    exact Nat.lt_add_right _ (h.numbered number c initiator' target' hcreated')
  case session =>
    intro id handle hid
    obtain ⟨number, c, hnumber, hcreated', hiff⟩ := h.session id handle (hsessions ▸ hid)
    refine ⟨number, c, ?_, List.mem_append_left _ hcreated', hiff.trans (by simp)⟩
    rw [latest_append_of_forall_eq_none (by simp [createdAs]), hnumber]
  case notify =>
    intro c identity' initiator' data' hc
    simp only [hhandlers, Function.update_apply] at hc
    split at hc
    · obtain ⟨-, hnotify⟩ := Prod.mk.inj (Option.some.inj hc)
      cases hnotify
    · next hne =>
      obtain ⟨number, c', hnumber, haccepted', hcreated', hunsent'⟩ := h.notify c identity' initiator' data' hc
      -- a session is accepted on one connection only
      have hother : number ≠ serial' := by
        rintro rfl
        obtain ⟨-, heq⟩ := AuditEntry.accepted.inj (eq_of_key h.justified haccepted' haccepted rfl rfl)
        exact hne heq
      refine ⟨number, c', ?_, List.mem_append_left _ haccepted', List.mem_append_left _ hcreated', ?_⟩
      · rw [latest_append_of_forall_eq_none (by simp [acceptedOn]), hnumber]
      · intro write hsent
        simp [hother, hunsent'] at hsent
  case justified =>
    have hsecond : IsFirst AuditEntry.key
        (a.log ++ [.sent serial' ⟨initiatorConn, .sessionAccepted identity data, .plain⟩])
        (.sent serial' ⟨conn, .sessionEstablished initiator, .plain⟩) := by
      intro key hkey other hother
      rw [List.mem_append, List.mem_singleton] at hother
      rcases hother with hother | rfl
      · exact isFirst_of_unsent hunsent _ key hkey other hother
      · obtain rfl := Option.some.inj hkey
        simp [AuditEntry.key, rawTypeOf]
    have htold : Justified Sound
        (a.log ++ [.sent serial' ⟨initiatorConn, .sessionAccepted identity data, .plain⟩]) :=
      justified_concat.mpr ⟨h.justified, isFirst_of_unsent hunsent _, conn, creator, initiator, identity, haccepted,
        hcreated, .inl ⟨data, rfl⟩⟩
    have hboth := justified_concat.mpr ⟨htold, hsecond, conn, creator, initiator, identity,
      List.mem_append_left _ haccepted, List.mem_append_left _ hcreated, .inr rfl⟩
    simpa only [List.append_assoc, List.singleton_append] using hboth

/-- A goroutine that does not go on to notify was not about to. -/
theorem notify_of_update {handlers : ℕ → Option (Bytes × ClientHandler)} {conn : ℕ}
    {identity : Bytes} {handler : ClientHandler}
    (hnot : ∀ initiator data, handler ≠ .notify initiator data) (c : ℕ)
    (identity' initiator data : Bytes)
    (hc : Function.update handlers conn (some (identity, handler)) c = some (identity', .notify initiator data)) :
    handlers c = some (identity', .notify initiator data) := by
  rw [Function.update_apply] at hc
  split at hc
  · obtain ⟨-, hnotify⟩ := Prod.mk.inj (Option.some.inj hc)
    exact absurd hnotify (hnot initiator data)
  · exact hc

/-- A new connection has not been registered. -/
theorem sound_registered (hwitnessed : a.Witnessed) (identity : Bytes) :
    Sound a.log (.registered a.server.nextConn identity) := by
  refine ⟨?_, trivial⟩
  intro key hkey other hother hotherKey
  obtain rfl := Option.some.inj hkey
  cases other with
  | registered conn identity' =>
    have hlt := hwitnessed.fresh conn identity' hother
    simp only [AuditEntry.key, Option.some.injEq, AuditKey.registration.injEq] at hotherKey
    omega
  | received | created | accepted | sent => simp [AuditEntry.key] at hotherKey

/-- The messages that are started to be written when two clients are told. -/
theorem started_two (s : Server) (conn conn' : ℕ) (identity : Bytes) (handler : ClientHandler)
    (message message' : Message) :
    started s (((s.setHandler conn identity handler).goWrite conn' message).goWrite conn message') =
      [⟨conn', message, .plain⟩, ⟨conn, message', .plain⟩] := by
  simp [started, Server.goWrite, Server.setHandler]

/-- Every step keeps the record and the sessions in agreement. -/
theorem step (h : a.Tallied) (hwitnessed : a.Witnessed) (hsized : a.server.Sized length)
    {event : ServerEvent} (heffect : ServerEffect a.server event t) :
    Tallied ⟨t, a.log ++ a.entries event t⟩ := by
  cases heffect with
  | reject hclient =>
    simp only [entries, hclient, List.append_nil]
    exact h.keep (fun _ _ hid => hid) (fun _ _ _ _ hc => hc)
  | add hfree =>
    simp only [entries, hfree]
    exact (h.record (sound_registered hwitnessed _) rfl).keep (fun _ _ hid => hid) (fun _ _ _ _ hc => hc)
  | writeFails | write =>
    simp only [entries, List.append_nil]
    exact h.keep (fun _ _ hid => hid) (fun _ _ _ _ hc => hc)
  | greet =>
    simp only [entries, List.append_nil]
    exact h.keep (fun _ _ hid => hid) (notify_of_update (by simp))
  | @receive conn _ message _ =>
    have hsound : Sound a.log (.received conn message) := ⟨by simp [IsFirst, AuditEntry.key], trivial⟩
    refine (h.record hsound rfl).keep (fun _ _ hid => hid) (notify_of_update ?_)
    cases message <;> simp
  | disconnect =>
    simp only [entries, List.append_nil]
    exact h.keep (fun _ _ hid => hid) (notify_of_update (by simp))
  | noTarget hhandler | findTarget hhandler | deleteClient hhandler =>
    simp only [entries, hhandler, List.append_nil]
    exact h.keep (fun _ _ hid => hid) (notify_of_update (by simp))
  | sessionExists hhandler hsession | unknownSession hhandler hsession =>
    simp only [entries, hhandler, hsession, List.append_nil]
    exact h.keep (fun _ _ hid => hid) (notify_of_update (by simp))
  | alreadyAccepted hhandler hsession haccepted =>
    obtain ⟨serial, -, hserial, -⟩ := h.session _ _ hsession
    simp only [entries, hhandler, hsession, hserial, haccepted, if_true, List.append_nil]
    exact h.keep (fun _ _ hid => hid) (notify_of_update (by simp))
  | create hhandler hsession =>
    simp only [entries, hhandler, hsession]
    exact h.create hwitnessed hhandler rfl (notify_of_update (by simp))
  | accept hhandler hsession haccepted =>
    obtain ⟨serial, -, hserial, -⟩ := h.session _ _ hsession
    simp only [entries, hhandler, hsession, hserial, haccepted, Bool.false_eq_true, if_false]
    exact h.accept hwitnessed hsized hhandler hsession haccepted hserial
  | noInitiator hhandler =>
    obtain ⟨serial, -, hserial, -⟩ := h.notify _ _ _ _ hhandler
    simp only [entries, hhandler, hserial, started, Server.goWrite, Server.setHandler,
      List.drop_left, List.filter_cons, List.filter_nil, PendingWrite.isAnnouncement,
      Bool.false_eq_true, if_false, List.map_nil, List.append_nil]
    exact h.keep (fun _ _ hid => hid) (notify_of_update (by simp))
  | notify hhandler =>
    obtain ⟨serial, -, hserial, -⟩ := h.notify _ _ _ _ hhandler
    simp only [entries, hhandler, hserial, started_two]
    exact h.tell hhandler hserial rfl rfl
  | panic hhandler =>
    simp only [entries, hhandler, List.append_nil]
    exact h.keep (fun _ _ hid => hid) (fun _ _ _ _ hc => hc)
  | deleteSession =>
    simp only [entries, List.append_nil]
    refine h.keep ?_ (fun _ _ _ _ hc => hc)
    intro id handle hid
    simp only [Function.update_apply] at hid
    split at hid
    · cases hid
    · exact hid

end Tallied

/-- Every announcement that a step starts to write is recorded. -/
theorem announced_entries (h : a.Tallied) {event : ServerEvent}
    (heffect : ServerEffect a.server event t) :
    (a.entries event t).filterMap announced = (started a.server t).filter (·.isAnnouncement) := by
  cases heffect with
  | reject hclient => simp [entries, hclient, started, PendingWrite.isAnnouncement]
  | add hfree => simp [entries, hfree, announced, started, PendingWrite.isAnnouncement]
  | writeFails | write | greet =>
    have hnil (position : ℕ) := List.drop_eq_nil_of_le (List.length_eraseIdx_le a.server.writes position)
    simp [entries, started, Server.setHandler, hnil]
  | receive => simp [entries, announced, started, Server.handleMessage, Server.setHandler]
  | disconnect => simp [entries, started, Server.setHandler]
  | noTarget hhandler =>
    simp [entries, hhandler, started, Server.goWrite, Server.setHandler,
      PendingWrite.isAnnouncement]
  | findTarget hhandler | deleteClient hhandler => simp [entries, hhandler, started,
                                                     Server.setHandler]
  | sessionExists hhandler hsession | unknownSession hhandler hsession =>
    simp [entries, hhandler, hsession, started, Server.goWrite, Server.setHandler,
      PendingWrite.isAnnouncement]
  | alreadyAccepted hhandler hsession haccepted =>
    obtain ⟨serial, -, hserial, -⟩ := h.session _ _ hsession
    simp [entries, hhandler, hsession, hserial, haccepted, started, Server.goWrite,
      Server.setHandler, PendingWrite.isAnnouncement]
  | create hhandler hsession =>
    simp [entries, hhandler, hsession, announced, started, Server.goWrite, Server.setHandler,
      PendingWrite.isAnnouncement]
  | accept hhandler hsession haccepted =>
    obtain ⟨serial, -, hserial, -⟩ := h.session _ _ hsession
    simp [entries, hhandler, hsession, hserial, haccepted, announced, started, Server.setHandler]
  | noInitiator hhandler | notify hhandler =>
    obtain ⟨serial, -, hserial, -⟩ := h.notify _ _ _ _ hhandler
    simp only [entries, hhandler, hserial, List.filterMap_map]
    exact List.filterMap_some
  | panic hhandler => simp [entries, hhandler, started]
  | deleteSession => simp [entries, started]

/-- The record goes with every run of the server. -/
theorem exists_reached {sessionPort : ℕ} {s : Server}
    (h : Reached Server.step (fun _ event => event.OneLength length) (.new sessionPort) s) :
    ∃ a : Audit, s = a.server ∧ Reached step (fun _ event => event.OneLength length) (new sessionPort) a := by
  refine Reached.of_map Audit.server ?_ (fun _ _ hguard => hguard) (new sessionPort) h
  intro a event
  simp [step, Function.comp_def]

/-- The record of every state reached. -/
theorem kept_of_reached {sessionPort : ℕ}
    (h : Reached step (fun _ event => event.OneLength length) (new sessionPort) a) :
    a.server.Sized length ∧ a.Witnessed ∧ a.Tallied := by
  refine h.invariant (fun a => a.server.Sized length ∧ a.Witnessed ∧ a.Tallied)
    ⟨Server.Sized.new sessionPort, Witnessed.new sessionPort, Tallied.new sessionPort⟩ ?_
  rintro a event b ⟨hsized, hwitnessed, htallied⟩ hguard hstep
  obtain ⟨t, ht, rfl⟩ := Option.map_eq_some_iff.mp hstep
  have heffect := Server.step_effect ht
  exact ⟨hsized.step hguard heffect, hwitnessed.step heffect, htallied.step hwitnessed hsized heffect⟩

/-- If all clients have identities of one length, then in every state reached: a session is marked
as accepted if its acceptance is recorded; it was created by a request of its initiator for its
target, and it is accepted on a connection registered for the target and for nobody else, whose
latest message accepts the session with this initiator; everything that is said once is recorded
once, such as the acceptance of a session and each type of message about it; and the messages that
tell of an acceptance are those of the record. -/
theorem only_target_accepts {sessionPort : ℕ}
    (h : Reached step (fun _ event => event.OneLength length) (new sessionPort) a) :
    (∀ id handle, a.server.sessions id = some handle → ∃ serial conn, latest (createdAs id) a.log = some serial ∧
      .created serial conn handle.initiatorIdentity handle.targetIdentity ∈ a.log ∧
      (handle.accepted = true ↔ ∃ c, .accepted serial c ∈ a.log)) ∧
    (∀ before serial conn initiator target after,
      a.log = before ++ .created serial conn initiator target :: after → .registered conn initiator ∈ before ∧
        ∃ data, latest (receivedOn conn) before = some (.requestSession target data)) ∧
    (∀ before serial conn after, a.log = before ++ .accepted serial conn :: after →
      ∃ c initiator target data, .created serial c initiator target ∈ before ∧
        (∀ entry ∈ a.log, entry.key = some (.creation serial) → entry = .created serial c initiator target) ∧
        .registered conn target ∈ before ∧
        (∀ identity, .registered conn identity ∈ a.log → identity = target) ∧
        latest (receivedOn conn) before = some (.acceptSession initiator data)) ∧
    (∀ key, a.log.countP (fun entry => entry.key = some key) ≤ 1) ∧
    (∀ serial write, .sent serial write ∈ a.log → ∃ conn c initiator target, .accepted serial conn ∈ a.log ∧
      .created serial c initiator target ∈ a.log ∧
      ((∃ data, write.message = .sessionAccepted target data) ∨ write.message = .sessionEstablished initiator)) ∧
    ∀ event b, a.step event = some b → b.log.filterMap announced =
      a.log.filterMap announced ++ (started a.server b.server).filter (·.isAnnouncement) := by
  obtain ⟨-, -, htallied⟩ := kept_of_reached h
  have hjustified := htallied.justified
  refine ⟨htallied.session, ?_, ?_, ?_, ?_, ?_⟩
  · intro before serial conn initiator target after hlog
    exact (hjustified before _ after hlog).2
  · intro before serial conn after hlog
    obtain ⟨c, initiator, target, data, hcreated, hregistered, hreceived⟩ := (hjustified before _ after hlog).2
    refine ⟨c, initiator, target, data, hcreated, ?_, hregistered, ?_, hreceived⟩
    · intro entry hentry hkey
      exact eq_of_key hjustified hentry (hlog ▸ List.mem_append_left _ hcreated) hkey rfl
    · intro identity hidentity
      have heq := eq_of_key hjustified hidentity (hlog ▸ List.mem_append_left _ hregistered) rfl rfl
      exact (AuditEntry.registered.inj heq).2
  · intro key
    apply hjustified.countP_le_one
    intro before entry hsound hkey
    exact hsound.1 key hkey
  · intro serial write hsent
    obtain ⟨before, after, hlog, -, conn, c, initiator, target, haccepted, hcreated, hmessage⟩ :=
      hjustified.exists_of_mem hsent
    rw [hlog]
    exact ⟨conn, c, initiator, target, List.mem_append_left _ haccepted, List.mem_append_left _ hcreated, hmessage⟩
  · intro event b hstep
    obtain ⟨t, ht, rfl⟩ := Option.map_eq_some_iff.mp hstep
    rw [List.filterMap_append, announced_entries htallied (Server.step_effect ht)]

/-- Two clients are connected, and the second one accepts the session that the first one
requests. -/
def oneAcceptance : List ServerEvent :=
  [.addClient [1], .addClient [2], .write 0 false, .write 0 false, .receive 0 (.requestSession [2] [9]),
    .run 0 ([], []), .run 0 ([7], [8]), .receive 1 (.acceptSession [1] [6]), .run 1 ([], []), .run 1 ([], [])]

/-- The acceptance of the session is recorded once. -/
theorem only_target_accepts_one :
    ∃ a, execute step anyStep oneAcceptance (new 80) = some a ∧ .accepted 3 1 ∈ a.log ∧
      a.log.countP (fun entry => entry.key = some (.acceptance 3)) ≤ 1 := by
  refine ⟨_, rfl, by decide, ?_⟩
  have hreached : Reached step (fun _ event => event.OneLength 1) (new 80) _ :=
    reached_of_labels oneAcceptance (by simp [oneAcceptance, ServerEvent.OneLength]) rfl
  exact (only_target_accepts hreached).2.2.2.1 (.acceptance 3)

end Audit

end ProjektCore.Relay
