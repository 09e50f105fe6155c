import ProjektCore.Relay.Server

/-!
# The sessions of a relay server

Besides the table of sessions the server has a table of session keys. Every session has a goroutine,
`handleSession`, which waits for a client at each of the two keys, answers it, waits for the session
to be accepted and then relays between the clients until a direction ends. A connection to the
session port is authenticated by a key and handed to the goroutine that waits for this key. The
server is not closed.

The goroutines of `handleSession` are numbered in the order in which they are started, and so are
the connections. The tables refer to a goroutine by its channels, here by its number.
-/

namespace ProjektCore.Relay

open Foundation

/-- The two clients of a session: the one with the initiator's key and the one with the target's. -/
inductive Seat where
  | first
  | second
deriving Repr, DecidableEq

/-- How far a goroutine that waits for one client of a session is. -/
inductive Member where
  | starting
  /-- It receives from the channel of its key, or finds the time to be over. -/
  | waiting
  /-- It writes the response to the client. -/
  | responding (conn : ℕ)
  | joined (conn : ℕ)
  | timedOut
  /-- The response could not be written. -/
  | unanswered (conn : ℕ)
deriving Repr, DecidableEq

/-- Whether the goroutine has returned. -/
def Member.isSettled : Member → Bool
  | .joined _ | .timedOut | .unanswered _ => true
  | .starting | .waiting | .responding _ => false

/-- Whether the goroutine has returned without an error. -/
def Member.hasJoined : Member → Bool
  | .joined _ => true
  | _ => false

/-- How far `handleSession` is. -/
inductive RunPhase where
  /-- It waits for the goroutines of both clients. -/
  | joining
  /-- It waits for the session to be accepted. -/
  | awaiting
  | relaying
  /-- It sends the session to be deleted. -/
  | deleting
  | returned
deriving Repr, DecidableEq

/-- A goroutine of `handleSession`. -/
structure SessionRun where
  id : List Char
  members : Seat → Member
  isExpired : Bool
  isAccepted : Bool
  hasEnded : Seat → Bool
  phase : RunPhase

/-- What a goroutine of `handleSession` does by itself. -/
inductive RunEvent where
  /-- The goroutine for a client receives from the channel. -/
  | listen (seat : Seat)
  /-- The time to connect is over. -/
  | expire
  /-- The goroutine for a client finds the time to be over. -/
  | giveUp (seat : Seat)
  | respond (seat : Seat) (isFailure : Bool)
  /-- Both goroutines have returned. -/
  | join
  /-- The session is found to be accepted. -/
  | proceed
  /-- The direction from a client ends, since reading or writing fails. -/
  | endRelay (seat : Seat)
  | leave
deriving Repr, DecidableEq

namespace SessionRun

/-- A goroutine that has just been started. -/
def new (id : List Char) :
    SessionRun := ⟨id, fun _ => .starting, false, false, fun _ => false, .joining⟩

/-- Whether both clients are connected. -/
def hasBoth (run : SessionRun) :
    Bool := (run.members .first).hasJoined && (run.members .second).hasJoined

/-- Set how far the goroutine for a client is. -/
def setMember (run : SessionRun) (seat : Seat) (member : Member) : SessionRun :=
  { run with members := Function.update run.members seat member }

/-- One step of `handleSession`. -/
def step (run : SessionRun) : RunEvent → Option SessionRun
  | .listen seat =>
    match run.members seat with
    | .starting => some (run.setMember seat .waiting)
    | _ => none
  | .expire => if run.phase = .returned ∨ run.isExpired then none else some { run with isExpired := true }
  | .giveUp seat =>
    match run.members seat with
    | .waiting => if run.isExpired then some (run.setMember seat .timedOut) else none
    | _ => none
  | .respond seat isFailure =>
    match run.members seat with
    | .responding conn => some (run.setMember seat (if isFailure then .unanswered conn else .joined conn))
    | _ => none
  | .join =>
    if run.phase = .joining ∧ (run.members .first).isSettled ∧ (run.members .second).isSettled then
      some { run with phase := if run.hasBoth then .awaiting else .returned }
    else none
  | .proceed => if run.phase = .awaiting ∧ run.isAccepted then some { run with phase := .relaying } else none
  | .endRelay seat =>
    if run.phase = .relaying ∧ run.hasEnded seat = false then
      some { run with hasEnded := Function.update run.hasEnded seat true }
    else none
  | .leave =>
    if run.phase = .relaying ∧ (run.hasEnded .first ∨ run.hasEnded .second) then some { run with phase := .deleting }
    else none

end SessionRun

/-- An entry of the table of keys: the session and the channel of the key. -/
structure KeyHandle where
  id : List Char
  run : ℕ
  seat : Seat
deriving Repr, DecidableEq

/-- The answers of the server to a connection that is not handed over. -/
inductive SessionRefusal where
  | alreadyConnected
  | invalidKey
deriving Repr, DecidableEq

/-- How far the goroutine of a connection to the session port is. -/
inductive SessionClient where
  | reading
  /-- It asks for the channel of a key. -/
  | asking (key : Bytes)
  /-- It hands its connection to the channel. -/
  | handing (run : ℕ) (seat : Seat)
  | handed
  | refused (answer : SessionRefusal)
  /-- The key could not be read. -/
  | failed
deriving Repr, DecidableEq

/-- A server with its sessions. The owner of a session is the goroutine that shares the channel
`accepted` with its entry in the table. -/
structure RelayServer where
  server : Server
  keys : List Char → Option KeyHandle
  owners : List Char → Option ℕ
  runs : ℕ → Option SessionRun
  nextRun : ℕ
  clients : ℕ → Option SessionClient
  nextClient : ℕ

/-- What happens at a server with its sessions. -/
inductive RelayEvent where
  | server (event : ServerEvent)
  | run (n : ℕ) (event : RunEvent)
  /-- The session of a goroutine is deleted. -/
  | delete (n : ℕ)
  | addSessionClient
  /-- The goroutine of a connection reads its key, if it can. -/
  | authenticate (client : ℕ) (key : Option Bytes)
  /-- It looks its key up. -/
  | lookUp (client : ℕ)
  /-- It hands its connection over, unless nobody receives it. -/
  | hand (client : ℕ)
deriving Repr, DecidableEq

namespace RelayServer

/-- A server without clients and sessions. -/
def new (sessionPort : ℕ) : RelayServer :=
  ⟨.new sessionPort, fun _ => none, fun _ => none, fun _ => none, 0, fun _ => none, 0⟩

/-- Set a goroutine of `handleSession`. -/
def setRun (s : RelayServer) (n : ℕ) (run : SessionRun) : RelayServer :=
  { s with runs := Function.update s.runs n (some run) }

/-- Set the goroutine of a connection. -/
def setClient (s : RelayServer) (c : ℕ) (client : SessionClient) : RelayServer :=
  { s with clients := Function.update s.clients c (some client) }

/-- The session that a step of the server creates, with its keys. -/
def created (server : Server) : ServerEvent → Option (List Char × (Bytes × Bytes))
  | .run conn keys =>
    match server.handlers conn with
    | some (identity, .create target _ _) =>
      match server.sessions (newSessionIdentifier identity target) with
      | none => some (newSessionIdentifier identity target, keys)
      | some _ => none
    | _ => none
  | _ => none

/-- The session that a step of the server accepts. -/
def accepted (server : Server) : ServerEvent → Option (List Char)
  | .run conn _ =>
    match server.handlers conn with
    | some (identity, .accept initiator _) =>
      match server.sessions (newSessionIdentifier initiator identity) with
      | some handle => if handle.accepted then none else some (newSessionIdentifier initiator identity)
      | none => none
    | _ => none
  | _ => none

/-- The keys of a new session are added, and its goroutine is started. -/
def startSession (s : RelayServer) (id : List Char) (keys : Bytes × Bytes) : RelayServer :=
  { s with
    keys := Function.update (Function.update s.keys (hexEncode keys.1) (some ⟨id, s.nextRun, .first⟩))
      (hexEncode keys.2) (some ⟨id, s.nextRun, .second⟩)
    owners := Function.update s.owners id (some s.nextRun)
    runs := Function.update s.runs s.nextRun (some (.new id))
    nextRun := s.nextRun + 1 }

/-- The goroutine of a session finds it to be accepted. -/
def markAccepted (s : RelayServer) (id : List Char) : RelayServer :=
  match s.owners id with
  | none => s
  | some n =>
    match s.runs n with
    | none => s
    | some run => s.setRun n { run with isAccepted := true }

/-- A step of the server, which may create or accept a session. -/
def serverStep (s : RelayServer) (event : ServerEvent) : Option RelayServer := do
  let server ← s.server.step event
  let next := { s with server := server }
  match created s.server event, accepted s.server event with
  | some (id, keys), _ => some (next.startSession id keys)
  | none, some id => some (next.markAccepted id)
  | none, none => some next

/-- The session of a goroutine is deleted, with its keys; there has to be one. -/
def deleteSession (s : RelayServer) (n : ℕ) (run : SessionRun) : RelayServer :=
  match s.server.sessions run.id with
  | none => { s with server := { s.server with isPanicked := true } }
  | some handle =>
    { s.setRun n { run with phase := .returned } with
      server := { s.server with sessions := Function.update s.server.sessions run.id none }
      keys := Function.update (Function.update s.keys (hexEncode handle.keys.1) none) (hexEncode handle.keys.2) none
      owners := Function.update s.owners run.id none }

/-- One step of a server with its sessions. -/
def step (s : RelayServer) (event : RelayEvent) : Option RelayServer :=
  if s.server.isPanicked then none
  else
    match event with
    | .server event =>
      match event with
      | .deleteSession _ => none
      | event => s.serverStep event
    | .run n event => do
      let run ← s.runs n
      let run ← run.step event
      some (s.setRun n run)
    | .delete n => do
      let run ← s.runs n
      if run.phase = .deleting then some (s.deleteSession n run) else none
    | .addSessionClient => some { s.setClient s.nextClient .reading with nextClient := s.nextClient + 1 }
    | .authenticate c key =>
      match s.clients c with
      | some .reading =>
        match key with
        | none => some (s.setClient c .failed)
        | some key => some (s.setClient c (.asking key))
      | _ => none
    | .lookUp c =>
      match s.clients c with
      | some (.asking key) =>
        match s.keys (hexEncode key) with
        | none => some (s.setClient c (.refused .invalidKey))
        | some handle => some (s.setClient c (.handing handle.run handle.seat))
      | _ => none
    | .hand c =>
      match s.clients c with
      | some (.handing n seat) => do
        let run ← s.runs n
        match run.members seat with
        | .waiting => some ((s.setClient c .handed).setRun n (run.setMember seat (.responding c)))
        | _ => some (s.setClient c (.refused .alreadyConnected))
      | _ => none

end RelayServer

end ProjektCore.Relay
