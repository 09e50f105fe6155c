import Mathlib.Logic.Function.Basic
import ProjektCore.Foundation.Hex
import ProjektCore.Relay.Message

/-!
# The protocol of a relay server

The server keeps a table of its clients and a table of the sessions between them. A goroutine reads
the messages of each client and handles them one by one, asking the goroutines of the two tables;
every message to a client is written by a goroutine of its own, so that the messages to one client
arrive in any order. Connections are numbered in the order in which they are added.
-/

namespace ProjektCore.Relay

open Foundation

/-- The identifier of a session; the order of the identities matters. -/
def newSessionIdentifier (id1 id2 : Bytes) : List Char := hexEncode id1 ++ hexEncode id2

/-- A session between two identities, with a key for each. -/
structure SessionHandle where
  initiatorIdentity : Bytes
  targetIdentity : Bytes
  keys : Bytes × Bytes
  accepted : Bool
deriving Repr, DecidableEq

/-- What the goroutine of a client does next. -/
inductive ClientHandler where
  | reading
  /-- It has received a request, and asks for the connection of the target. -/
  | request (targetIdentity additionalData : Bytes)
  /-- It asks for a new session. -/
  | create (targetIdentity additionalData : Bytes) (targetConn : ℕ)
  /-- It has received an acceptance, and asks for the session to be accepted. -/
  | accept (initiatorIdentity additionalData : Bytes)
  /-- It asks for the connection of the initiator. -/
  | notify (initiatorIdentity additionalData : Bytes)
  /-- It returns, and asks for the client to be deleted. -/
  | leaving
  | ended
deriving Repr, DecidableEq

/-- What follows a message that has been written. -/
inductive WriteKind where
  | plain
  /-- The goroutine of the client is started. -/
  | greeting (identity : Bytes)
  /-- The connection is closed. -/
  | rejection
deriving Repr, DecidableEq

/-- A goroutine that writes a message. -/
structure PendingWrite where
  conn : ℕ
  message : Message
  kind : WriteKind
deriving Repr, DecidableEq

/-- The state of a server. -/
structure Server where
  sessionPort : ℕ
  clients : List Char → Option ℕ
  sessions : List Char → Option SessionHandle
  handlers : ℕ → Option (Bytes × ClientHandler)
  writes : List PendingWrite
  nextConn : ℕ
  isPanicked : Bool

/-- What happens at a server. -/
inductive ServerEvent where
  | addClient (identity : Bytes)
  /-- The goroutine at a position writes its message; the connection may fail. -/
  | write (position : ℕ) (isFailure : Bool)
  /-- A client's goroutine receives a message. -/
  | receive (conn : ℕ) (message : Message)
  /-- A client's goroutine cannot read from its connection. -/
  | disconnect (conn : ℕ)
  /-- A client's goroutine does what it does next; the keys are those of a new session. -/
  | run (conn : ℕ) (keys : Bytes × Bytes)
  /-- A session ends. -/
  | deleteSession (id : List Char)
deriving Repr, DecidableEq

namespace Server

/-- A server without clients. -/
def new (sessionPort : ℕ) :
    Server := ⟨sessionPort, fun _ => none, fun _ => none, fun _ => none, [], 0, false⟩

/-- Start a goroutine that writes a message. -/
def goWrite (s : Server) (conn : ℕ) (message : Message) : Server :=
  { s with writes := s.writes ++ [⟨conn, message, .plain⟩] }

/-- How to connect to a session with a key. -/
def createSessionDescription (s : Server) (key : Bytes) :
    SessionDescription := ⟨key, s.sessionPort % 2 ^ 32⟩

/-- Set what the goroutine of a client does next. -/
def setHandler (s : Server) (conn : ℕ) (identity : Bytes) (handler : ClientHandler) : Server :=
  { s with handlers := Function.update s.handlers conn (some (identity, handler)) }

/-- A client is added, unless its identity has a connection. -/
def newClient (s : Server) (identity : Bytes) : Server :=
  let conn := s.nextConn
  let s := { s with nextConn := s.nextConn + 1 }
  match s.clients (hexEncode identity) with
  | some _ => { s with writes := s.writes ++ [⟨conn, .alreadyConnected, .rejection⟩] }
  | none =>
    { s with
      clients := Function.update s.clients (hexEncode identity) (some conn)
      writes := s.writes ++ [⟨conn, .connected, .greeting identity⟩] }

/-- A message has been written. -/
def written (s : Server) (write : PendingWrite) : Server :=
  match write.kind with
  | .plain | .rejection => s
  | .greeting identity => s.setHandler write.conn identity .reading

/-- A client's goroutine handles a message. -/
def handleMessage (s : Server) (conn : ℕ) (identity : Bytes) (message : Message) : Server :=
  s.setHandler conn identity <|
    match message with
    | .requestSession target data => .request target data
    | .acceptSession initiator data => .accept initiator data
    | _ => .leaving

/-- A client's goroutine has the connection of the target of its request, if there is one. -/
def requestClient (s : Server) (conn : ℕ) (identity target data : Bytes) : Server :=
  match s.clients (hexEncode target) with
  | none => (s.setHandler conn identity .reading).goWrite conn (.sessionFailed .targetUnavailable target)
  | some targetConn => s.setHandler conn identity (.create target data targetConn)

/-- A session is created, unless there is one between the identities. -/
def newSession (s : Server) (conn : ℕ) (identity target data : Bytes) (targetConn : ℕ)
    (keys : Bytes × Bytes) :
    Server :=
  let id := newSessionIdentifier identity target
  let s := s.setHandler conn identity .reading
  match s.sessions id with
  | some _ => s.goWrite conn (.sessionFailed .sessionExists target)
  | none =>
    { s with sessions := Function.update s.sessions id (some ⟨identity, target, keys, false⟩) }
      |>.goWrite conn (.sessionCreated (s.createSessionDescription keys.1) target)
      |>.goWrite targetConn (.sessionInvitation (s.createSessionDescription keys.2) identity data)

/-- A session is accepted, unless it does not exist or has been accepted. -/
def acceptSession (s : Server) (conn : ℕ) (identity initiator data : Bytes) : Server :=
  let id := newSessionIdentifier initiator identity
  let failed (reason : SessionError) :=
    (s.setHandler conn identity .reading).goWrite conn (.sessionFailed reason initiator)
  match s.sessions id with
  | none => failed .unknownSession
  | some handle =>
    if handle.accepted then failed .sessionAlreadyAccepted
    else
      { s.setHandler conn identity (.notify initiator data) with
        sessions := Function.update s.sessions id (some { handle with accepted := true }) }

/-- The initiator of an accepted session is notified, if it has a connection. -/
def notifyInitiator (s : Server) (conn : ℕ) (identity initiator data : Bytes) : Server :=
  let s := s.setHandler conn identity .reading
  match s.clients (hexEncode initiator) with
  | none => s.goWrite conn (.sessionFailed .initiatorUnavailable initiator)
  | some initiatorConn =>
    s.goWrite initiatorConn (.sessionAccepted identity data)
      |>.goWrite conn (.sessionEstablished initiator)

/-- A client is deleted. -/
def deleteClient (s : Server) (conn : ℕ) (identity : Bytes) : Server :=
  match s.clients (hexEncode identity) with
  | none => { s with isPanicked := true }
  | some _ =>
    { s.setHandler conn identity .ended with clients := Function.update s.clients (hexEncode identity) none }

/-- A client's goroutine does what it does next. -/
def run (s : Server) (conn : ℕ) (identity : Bytes) (keys : Bytes × Bytes) :
    ClientHandler → Option Server
  | .request target data => some (s.requestClient conn identity target data)
  | .create target data targetConn => some (s.newSession conn identity target data targetConn keys)
  | .accept initiator data => some (s.acceptSession conn identity initiator data)
  | .notify initiator data => some (s.notifyInitiator conn identity initiator data)
  | .leaving => some (s.deleteClient conn identity)
  | .reading | .ended => none

/-- One step of a server. -/
def step (s : Server) (event : ServerEvent) : Option Server :=
  if s.isPanicked then none
  else
    match event with
    | .addClient identity => some (s.newClient identity)
    | .write position isFailure => do
      let write ← s.writes[position]?
      let s := { s with writes := s.writes.eraseIdx position }
      some (if isFailure then s else s.written write)
    | .receive conn message =>
      match s.handlers conn with
      | some (identity, .reading) => some (s.handleMessage conn identity message)
      | _ => none
    | .disconnect conn =>
      match s.handlers conn with
      | some (identity, .reading) => some (s.setHandler conn identity .leaving)
      | _ => none
    | .run conn keys => do
      let (identity, handler) ← s.handlers conn
      s.run conn identity keys handler
    | .deleteSession id =>
      match s.sessions id with
      | none => none
      | some _ => some { s with sessions := Function.update s.sessions id none }

/-- The messages that a step delivers to a connection. -/
def delivers (s : Server) (conn : ℕ) : ServerEvent → List Message
  | .write position false =>
    match s.writes[position]? with
    | some write => if write.conn = conn then [write.message] else []
    | none => []
  | _ => []

end Server

end ProjektCore.Relay
