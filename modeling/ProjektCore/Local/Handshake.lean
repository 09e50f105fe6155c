import ProjektCore.Foundation.Conn
import ProjektCore.Foundation.Wire
import ProjektCore.Secure

/-!
# The responding side of the handshake

A client that is found by a request answers with a `Response`, reads the `Hello` of the peer and
writes a `Result`, which is the first encrypted message. Noise, the decoder of `Hello` messages and
the trust store are parameters; all that is used of them is that they are functions.

`handleRequest` wraps the connection before it asks the trust store. A peer that is not trusted is
told so with the result `Refused`, and what is returned then is the error of writing this result.
-/

namespace ProjektCore.Local

open Foundation Packet Secure

/-- The time for one message of the handshake, in nanoseconds. -/
def IoTimeout : ℕ := 10 * 10 ^ 9

/-- A request for a connection. -/
structure Request where
  id : ℕ
  handshakeMessage : Bytes
deriving Repr, DecidableEq

/-- The encoded number of a request, in a buffer of ten bytes. -/
def Request.idBytes (request : Request) : Bytes := bigEndian 8 request.id ++ [0, 0]

/-- The answer to a request. -/
structure Response where
  requestId : ℕ
  handshakeMessage : Bytes
deriving Repr, DecidableEq

/-- The encoding of a response. -/
def Response.marshal (response : Response) : Bytes :=
  Wire.varintField 1 response.requestId ++ Wire.bytesField 2 response.handshakeMessage

/-- The result of a handshake. -/
inductive ResultType where
  | invalid
  | refused
  | ok
deriving Repr, DecidableEq

/-- The number of a result. -/
def ResultType.number : ResultType → ℕ
  | .invalid => 0
  | .refused => 1
  | .ok => 2

/-- The encoding of a result message. -/
def ResultType.marshal (resultType : ResultType) : Bytes := Wire.varintField 1 resultType.number

/-- The handshake of Noise. The responder of a request writes one message and reads one, which gives
the ciphers of both directions. -/
structure Noise where
  State : Type
  newHandshakeState : (prologue peerEphemeral : Bytes) → Except Err State
  writeMessage : State → Except Err (State × Bytes)
  readMessage : State → Bytes → Except Err (State × Cipher × Cipher)
  peerStatic : State → Option Bytes

/-- What `handleRequest` uses of a client. -/
structure Client where
  identity : Bytes
  noise : Noise
  unmarshalHello : Bytes → Except Err Bytes
  isX25519Trusted : Bytes → Bool

/-- A connection that has been wrapped after a handshake; the connection itself is passed on beside
it. -/
structure SecureConn where
  identity : Bytes
  peerIdentity : Bytes
  writeCipher : Cipher
  readCipher : Cipher
  state : NoiseConn

/-- Wrap a connection. -/
def wrapConn (identity peerIdentity : Bytes) (writeCipher readCipher : Cipher) : SecureConn :=
  ⟨identity, peerIdentity, writeCipher, readCipher, ⟨0, 0⟩⟩

/-- Write a payload. -/
def SecureConn.write (conn : Conn Err) (noiseConn : SecureConn) (p : Bytes) :
    Go (Conn Err × SecureConn × Option Err) := do
  let (state, sent, _, err) ← noiseConn.state.write noiseConn.writeCipher conn.accepts p
  return (conn.took sent, { noiseConn with state }, err)

/-- Write byte strings one after the other. -/
def writeParts : List Bytes → Talk Err Unit
  | [] => return
  | part :: rest => do
    talk (·.write part)
    writeParts rest

/-- Write a packet. -/
def writePacket (data : Bytes) : Talk Err Unit := do
  writeParts (← writeCalls data)

/-- The error of a read that found the end of the stream. -/
def readError (ending err : Err) : Err := if ending = .eof then err else ending

/-- Read and decode a packet. -/
def readPacket : Talk Err Bytes := fun conn =>
  match decodeFrom conn.incoming with
  | (_, s, some err) => (.error (readError conn.ending err), { conn with incoming := s })
  | (data, s, none) => (.ok data, { conn with incoming := s })

/-- What a completed handshake gives. -/
structure Authenticated where
  peerStatic : Bytes
  c1 : Cipher
  c2 : Cipher

namespace Client

variable (c : Client)

/-- The state of the handshake that a request starts. -/
def responderHandshakeState (request : Request) : Except Err c.noise.State :=
  c.noise.newHandshakeState request.idBytes request.handshakeMessage

/-- The part of `handleRequest` before the connection is wrapped. -/
def respond (request : Request) : Talk Err Authenticated := do
  let hs ← c.responderHandshakeState request
  let (hs, hs1) ← c.noise.writeMessage hs
  writePacket (Response.marshal ⟨request.id, hs1⟩)
  talk (·.setReadDeadline (some IoTimeout))
  let d2 ← readPacket
  let m2 ← c.unmarshalHello d2
  let (hs, c1, c2) ← c.noise.readMessage hs m2
  match c.noise.peerStatic hs with
  | none => throw (.new "unexpected nil peer static identity")
  | some peerStatic => return ⟨peerStatic, c1, c2⟩

/-- Write the result of a handshake. -/
def writeResult (conn : Conn Err) (noiseConn : SecureConn) (resultType : ResultType) :
    Go (Conn Err × SecureConn × Option Err) := do
  match conn.setWriteDeadline (some IoTimeout) with
  | (some err, conn) => return (conn, noiseConn, some err)
  | (none, conn) =>
    match ← SecureConn.write conn noiseConn resultType.marshal with
    | (conn, noiseConn, some err) => return (conn, noiseConn, some err)
    | (conn, noiseConn, none) =>
      let (err, conn) := conn.setWriteDeadline none
      return (conn, noiseConn, err)

/-- Handle a request on a connection. -/
def handleRequest (request : Request) (conn : Conn Err) :
    Go (Conn Err × Option SecureConn × Option Err) := do
  match c.respond request conn with
  | (.error err, conn) => return (conn, none, some err)
  | (.ok auth, conn) =>
    let noiseConn := wrapConn c.identity auth.peerStatic auth.c1 auth.c2
    if !c.isX25519Trusted auth.peerStatic then
      let (conn, noiseConn, err) ← writeResult conn noiseConn .refused
      return (conn, some noiseConn, err)
    else
      match ← writeResult conn noiseConn .ok with
      | (conn, noiseConn, some err) => return (conn, some noiseConn, some err)
      | (conn, noiseConn, none) => return (conn, some noiseConn, none)

/-- The static key that the handshake of a request has authenticated. -/
def authenticated (request : Request) (conn : Conn Err) : Option Bytes :=
  match c.respond request conn with
  | (.error _, _) => none
  | (.ok auth, _) => some auth.peerStatic

end Client

/-- The network lets the result be written: both deadlines are set and the frame is taken whole. -/
def Writable (conn : Conn Err) (noiseConn : SecureConn) (resultType : ResultType) : Prop :=
  let bytes := frame noiseConn.writeCipher noiseConn.state.writeNonce resultType.marshal
  conn.network.setDeadline conn.calls = none ∧
    conn.network.write (conn.calls + 1) bytes = (bytes.length, none) ∧
    conn.network.setDeadline (conn.calls + 2) = none

/-- A peer whose key is not trusted completes the handshake, and the network lets the refusal be
written. -/
def Client.RefusalWritable (c : Client) (request : Request) (conn : Conn Err) : Prop :=
  match c.respond request conn with
  | (.error _, _) => False
  | (.ok auth, conn) => c.isX25519Trusted auth.peerStatic = false ∧
      Writable conn (wrapConn c.identity auth.peerStatic auth.c1 auth.c2) .refused

/-- The message of a result is small. -/
theorem ResultType.marshal_length_le (resultType : ResultType) :
    resultType.marshal.length ≤ PayloadMaxSize := by
  cases resultType <;> decide

/-- Writing a small payload returns; it succeeds exactly if the network takes the frame whole. -/
theorem SecureConn.write_returns (conn : Conn Err) (noiseConn : SecureConn) {p : Bytes}
    (h : p.length ≤ PayloadMaxSize) :
    ∃ conn' noiseConn' err, SecureConn.write conn noiseConn p = .ok (conn', noiseConn', err) ∧
      conn'.network = conn.network ∧ conn'.calls = conn.calls + 1 ∧
      noiseConn'.peerIdentity = noiseConn.peerIdentity ∧
      (err = none ↔ conn.network.write conn.calls (frame noiseConn.writeCipher noiseConn.state.writeNonce p) =
        ((frame noiseConn.writeCipher noiseConn.state.writeNonce p).length, none)) := by
  obtain ⟨sent, n, err, hwrite, herr⟩ := noiseConn.state.write_returns noiseConn.writeCipher conn.accepts h
  refine ⟨conn.took sent, { noiseConn with state.writeNonce := noiseConn.state.writeNonce + 1 }, err,
    ?_, rfl, rfl, rfl, herr⟩
  rw [SecureConn.write, hwrite]
  rfl

/-- Writing a result returns; it succeeds exactly if the network lets the result be written. -/
theorem writeResult_returns (conn : Conn Err) (noiseConn : SecureConn) (resultType : ResultType) :
    ∃ conn' noiseConn' err, Client.writeResult conn noiseConn resultType = .ok (conn', noiseConn', err) ∧
      noiseConn'.peerIdentity = noiseConn.peerIdentity ∧ (err = none ↔ Writable conn noiseConn resultType) := by
  have hfirst := conn.setWriteDeadline_fst (some IoTimeout)
  have hnetwork := conn.setWriteDeadline_network (some IoTimeout)
  have hcalls := conn.setWriteDeadline_calls (some IoTimeout)
  rw [Client.writeResult, Writable]
  rcases hset : conn.setWriteDeadline (some IoTimeout) with ⟨_ | err, conn₁⟩
  · rw [hset] at hfirst hnetwork hcalls
    obtain ⟨conn₂, noiseConn₂, err, hwrite, hnetwork₂, hcalls₂, hpeer, herr⟩ :=
      SecureConn.write_returns conn₁ noiseConn resultType.marshal_length_le
    rw [hnetwork, hcalls] at herr
    have hlast := conn₂.setWriteDeadline_fst none
    rw [hnetwork₂, hnetwork, hcalls₂, hcalls] at hlast
    cases err with
    | none =>
      refine ⟨(conn₂.setWriteDeadline none).2, noiseConn₂, (conn₂.setWriteDeadline none).1, ?_, hpeer, ?_⟩
      · simp only [hwrite, Call.ok_bind]
        rfl
      · rw [hlast, ← hfirst, ← herr.mp rfl]
        simp
    | some err =>
      refine ⟨conn₂, noiseConn₂, some err, ?_, hpeer, ?_⟩
      · simp only [hwrite, Call.ok_bind]
        rfl
      · simp only [reduceCtorEq, false_iff, not_and]
        intro _ hall
        exact absurd (herr.mpr hall) (by simp)
  · rw [hset] at hfirst
    refine ⟨conn₁, noiseConn, some err, rfl, rfl, ?_⟩
    simp [← hfirst]

namespace Client

variable (c : Client)

/-- A request that ends before the connection is wrapped gives no connection. -/
theorem handleRequest_error {request : Request} {conn conn' : Conn Err} {err : Err}
    (h : c.respond request conn = (.error err, conn')) :
    c.handleRequest request conn = .ok (conn', none, some err) := by
  rw [handleRequest, h]
  rfl

/-- The result that `handleRequest` writes to a peer. -/
def resultFor (peerStatic : Bytes) :
    ResultType := if c.isX25519Trusted peerStatic then .ok else .refused

/-- A completed handshake gives a connection with the authenticated key, and the error of writing
the result. -/
theorem handleRequest_authenticated {request : Request} {conn conn₁ : Conn Err}
    {auth : Authenticated} (h : c.respond request conn = (.ok auth, conn₁)) :
    ∃ conn' noiseConn err, c.handleRequest request conn = .ok (conn', some noiseConn, err) ∧
      noiseConn.peerIdentity = auth.peerStatic ∧
      (err = none ↔ Writable conn₁ (wrapConn c.identity auth.peerStatic auth.c1 auth.c2)
        (c.resultFor auth.peerStatic)) := by
  obtain ⟨conn', noiseConn, err, hwrite, hpeer, herr⟩ := writeResult_returns conn₁
    (wrapConn c.identity auth.peerStatic auth.c1 auth.c2) (c.resultFor auth.peerStatic)
  refine ⟨conn', noiseConn, err, ?_, hpeer, herr⟩
  rw [resultFor] at hwrite
  cases htrusted : c.isX25519Trusted auth.peerStatic with
  | true =>
    simp only [htrusted, if_true] at hwrite
    simp only [handleRequest, h, htrusted, hwrite, Call.ok_bind]
    cases err <;> rfl
  | false =>
    simp only [htrusted, Bool.false_eq_true, if_false] at hwrite
    simp only [handleRequest, h, htrusted, hwrite, Call.ok_bind]
    rfl

/-- If no refusal can be written, a connection is returned without an error only for a trusted
peer. -/
theorem handleRequest_unrefused {request : Request} {conn conn' : Conn Err} {secConn : SecureConn}
    (hwritable : ¬ c.RefusalWritable request conn)
    (h : c.handleRequest request conn = .ok (conn', some secConn, none)) :
    c.isX25519Trusted secConn.peerIdentity = true := by
  rcases hrespond : c.respond request conn with ⟨err | auth, conn₁⟩
  · rw [c.handleRequest_error hrespond] at h
    simp at h
  · obtain ⟨conn'', secConn', err, hreturned, hpeer, herr⟩ := c.handleRequest_authenticated hrespond
    rw [hreturned, Except.ok.injEq, Prod.mk.injEq, Prod.mk.injEq, Option.some.injEq] at h
    obtain ⟨rfl, rfl, rfl⟩ := h
    rw [hpeer]
    by_contra htrusted
    rw [resultFor, if_neg htrusted] at herr
    rw [RefusalWritable, hrespond] at hwritable
    exact hwritable ⟨Bool.eq_false_iff.mpr htrusted, herr.mp rfl⟩

/-- If a refusal can be written, the connection of a peer that is not trusted is returned without an
error. -/
theorem handleRequest_refused {request : Request} {conn : Conn Err}
    (h : c.RefusalWritable request conn) :
    ∃ conn' secConn, c.handleRequest request conn = .ok (conn', some secConn, none) ∧
      c.isX25519Trusted secConn.peerIdentity = false := by
  rcases hrespond : c.respond request conn with ⟨err | auth, conn₁⟩
  · rw [RefusalWritable, hrespond] at h
    exact h.elim
  · rw [RefusalWritable, hrespond] at h
    obtain ⟨htrusted, hwritable⟩ := h
    obtain ⟨conn', secConn, err, hreturned, hpeer, herr⟩ := c.handleRequest_authenticated hrespond
    rw [resultFor, if_neg (Bool.eq_false_iff.mp htrusted)] at herr
    obtain rfl := herr.mpr hwritable
    exact ⟨conn', secConn, hreturned, hpeer ▸ htrusted⟩

/-- The peer of a returned connection is the one whose key has been authenticated. -/
theorem handleRequest_peerIdentity {request : Request} {conn conn' : Conn Err}
    {secConn : SecureConn} {err : Option Err}
    (h : c.handleRequest request conn = .ok (conn', some secConn, err)) :
    c.authenticated request conn = some secConn.peerIdentity := by
  rcases hrespond : c.respond request conn with ⟨err' | auth, conn₁⟩
  · rw [c.handleRequest_error hrespond] at h
    simp at h
  · obtain ⟨conn'', secConn', err', hreturned, hpeer, -⟩ := c.handleRequest_authenticated hrespond
    rw [hreturned, Except.ok.injEq, Prod.mk.injEq, Prod.mk.injEq, Option.some.injEq] at h
    obtain ⟨-, rfl, -⟩ := h
    rw [authenticated, hrespond, hpeer]

/-- Handling a request always returns. -/
theorem handleRequest_returns (request : Request) (conn : Conn Err) :
    ∃ conn' secConn err, c.handleRequest request conn = .ok (conn', secConn, err) := by
  rcases hrespond : c.respond request conn with ⟨err | auth, conn₁⟩
  · exact ⟨_, _, _, c.handleRequest_error hrespond⟩
  · obtain ⟨conn', secConn, err, hreturned, -⟩ := c.handleRequest_authenticated hrespond
    exact ⟨_, _, _, hreturned⟩

/-- For every request on every connection, `handleRequest` returns. What it returns without an error
are connections whose authenticated key is trusted, exactly if it is not the case that a peer that
is not trusted has completed the handshake and the network lets the refusal be written. -/
theorem handleRequest_trusted_iff (request : Request) (conn : Conn Err) :
    (∃ conn' secConn err, c.handleRequest request conn = .ok (conn', secConn, err)) ∧
    ((∀ conn' secConn, c.handleRequest request conn = .ok (conn', some secConn, none) →
        ∃ key, c.authenticated request conn = some key ∧ c.isX25519Trusted key = true) ↔
      ¬ c.RefusalWritable request conn) := by
  refine ⟨c.handleRequest_returns request conn, ?_⟩
  constructor
  · intro htrusted hwritable
    obtain ⟨conn', secConn, hreturned, huntrusted⟩ := c.handleRequest_refused hwritable
    obtain ⟨key, hkey, htrue⟩ := htrusted conn' secConn hreturned
    rw [c.handleRequest_peerIdentity hreturned, Option.some.injEq] at hkey
    rw [← hkey, huntrusted] at htrue
    exact Bool.false_ne_true htrue
  · intro hwritable conn' secConn hreturned
    exact ⟨_, c.handleRequest_peerIdentity hreturned, c.handleRequest_unrefused hwritable hreturned⟩

/-- A client that trusts nobody, with a handshake that authenticates one key. -/
def trustingNobody : Client where
  identity := [1]
  noise := ⟨Unit, fun _ _ => .ok (), fun _ => .ok ((), [2]), fun _ _ => .ok ((), taggingCipher, taggingCipher),
    fun _ => some [3]⟩
  unmarshalHello := .ok
  isX25519Trusted _ := false

/-- A connection on which a peer has written an empty `Hello`, over a network without failures. -/
def reliableConn : Conn Err :=
  .new ⟨fun _ => 0, fun _ => none, fun _ p => (p.length, none)⟩ (.ofChunk (encode [])) .eof

/-- The peer is refused, and its connection is returned without an error. -/
theorem refused_peer_returned :
    ∃ conn' secConn, trustingNobody.handleRequest ⟨1, [2]⟩ reliableConn = .ok (conn', some secConn, none) ∧
      trustingNobody.authenticated ⟨1, [2]⟩ reliableConn = some [3] ∧
      trustingNobody.isX25519Trusted [3] = false :=
  ⟨_, _, rfl, rfl, rfl⟩

end Client

end ProjektCore.Local
