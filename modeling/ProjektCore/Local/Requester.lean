import ProjektCore.Local.Handshake

/-!
# The requesting side of the handshake

A client that has made a request reads the `Response` of the peer, writes a `Hello` and reads the
`Result`, which is the first encrypted message. The messages of the handshake have to be sent and to
arrive in time, so both sides set deadlines on the connection. The requesting side removes both of
them before it returns the connection; the responding side never removes the deadline for reading.
-/

namespace ProjektCore.Local

open Foundation Packet Secure

/-- The handshake of Noise on the side that has made the request. It reads one message and writes
one, which gives the ciphers of both directions. -/
structure RequesterNoise where
  State : Type
  KeyPair : Type
  newHandshakeState : (prologue : Bytes) → (ephemeral : KeyPair) → (peerStatic : Bytes) → Except Err State
  readMessage : State → Bytes → Except Err State
  writeMessage : State → Except Err (Bytes × Cipher × Cipher)

/-- What `handleResponse` uses of a client. A result that cannot be decoded is an error, and one
that can be decoded has any number as its type. -/
structure Requester where
  identity : Bytes
  noise : RequesterNoise
  /-- The identity for the key exchange, if it can be computed. -/
  x25519 : Bytes → Option Bytes
  unmarshalResult : Bytes → Except Err ℤ

/-- The encoding of a `Hello` message. -/
def marshalHello (handshakeMessage : Bytes) : Bytes := Wire.bytesField 1 handshakeMessage

/-- Read a payload. -/
def SecureConn.read (conn : Conn Err) (noiseConn : SecureConn) (bufferSize : ℕ) :
    Go (Conn Err × SecureConn × Bytes × Option Err) := do
  let (state, incoming, payload, err) ← noiseConn.state.read noiseConn.readCipher bufferSize conn.incoming
  -- where the stream ends, the connection gives its own error
  let err := match err with
    | some .eof => some (readError conn.ending .eof)
    | some .unexpectedEOF => some (readError conn.ending .unexpectedEOF)
    | err => err
  return ({ conn with incoming }, { noiseConn with state }, payload, err)

namespace Requester

variable (c : Requester)

/-- The state of the handshake that a response continues. -/
def requesterHandshakeState (request : Request) (ephemeral : c.noise.KeyPair)
    (responderIdentity : Bytes) :
    Go (Except Err c.noise.State) :=
  match c.x25519 responderIdentity with
  | none => panicText "failed to convert ed25519 public key to X25519 key"
  | some peerStatic => .ok (c.noise.newHandshakeState request.idBytes ephemeral peerStatic)

/-- The part of `handleResponse` from the state of the handshake until the connection is wrapped. -/
def greet (hs : c.noise.State) (response : Response) : Talk Err (Cipher × Cipher) := do
  let hs ← c.noise.readMessage hs response.handshakeMessage
  let (hs1, c1, c2) ← c.noise.writeMessage hs
  talk (·.setWriteDeadline (some IoTimeout))
  writePacket (marshalHello hs1)
  talk (·.setWriteDeadline none)
  return (c1, c2)

/-- The part of `handleResponse` that checks the result. -/
def checkResult (data : Bytes) : Option Err :=
  match c.unmarshalResult data with
  | .error err => some err
  | .ok resultType =>
    if resultType = ResultType.refused.number then some .connectionRefused
    else if resultType ≠ ResultType.ok.number then some (.new "invalid result type in result message")
    else none

/-- The part of `handleResponse` after the connection has been wrapped. -/
def readResult (conn : Conn Err) (noiseConn : SecureConn) :
    Go (Conn Err × SecureConn × Option Err) := do
  match conn.setReadDeadline (some IoTimeout) with
  | (some err, conn) => return (conn, noiseConn, some err)
  | (none, conn) =>
    match ← SecureConn.read conn noiseConn MessageMaxSize with
    | (conn, noiseConn, _, some err) => return (conn, noiseConn, some err)
    | (conn, noiseConn, data, none) =>
      match conn.setReadDeadline none with
      | (some err, conn) => return (conn, noiseConn, some err)
      | (none, conn) => return (conn, noiseConn, c.checkResult data)

/-- Handle a response on a connection. -/
def handleResponse (ephemeralKey : c.noise.KeyPair) (targetIdentity : Bytes) (request : Request)
    (response : Response) (conn : Conn Err) : Go (Conn Err × Option SecureConn × Option Err) := do
  match ← c.requesterHandshakeState request ephemeralKey targetIdentity with
  | .error err => return (conn, none, some err)
  | .ok hs =>
    match c.greet hs response conn with
    | (.error err, conn) => return (conn, none, some err)
    | (.ok (c1, c2), conn) =>
      let (conn, noiseConn, err) ← c.readResult conn (wrapConn c.identity targetIdentity c2 c1)
      return (conn, some noiseConn, err)

end Requester

/-- Reading a packet keeps both deadlines. -/
theorem readPacket_deadlines {data : Bytes} {conn conn' : Conn Err}
    (h : readPacket conn = (.ok data, conn')) :
    conn.KeepsDeadlines conn' := by
  rw [readPacket] at h
  split at h
  · cases h
  · cases h
    exact ⟨rfl, rfl⟩

/-- Writing a payload keeps both deadlines. -/
theorem SecureConn.write_deadlines {conn conn' : Conn Err} {noiseConn noiseConn' : SecureConn}
    {p : Bytes} {err : Option Err}
    (h : SecureConn.write conn noiseConn p = .ok (conn', noiseConn', err)) :
    conn.KeepsDeadlines conn' := by
  obtain ⟨⟨state, sent, n, err'⟩, -, hreturned⟩ := Call.bind_eq_ok.mp h
  cases hreturned
  exact ⟨rfl, rfl⟩

/-- Reading a payload keeps both deadlines. -/
theorem SecureConn.read_deadlines {conn conn' : Conn Err} {noiseConn noiseConn' : SecureConn}
    {bufferSize : ℕ} {payload : Bytes} {err : Option Err}
    (h : SecureConn.read conn noiseConn bufferSize = .ok (conn', noiseConn', payload, err)) :
    conn.KeepsDeadlines conn' := by
  obtain ⟨⟨state, incoming, payload', err'⟩, -, hreturned⟩ := Call.bind_eq_ok.mp h
  cases hreturned
  exact ⟨rfl, rfl⟩

/-- A result that has been written leaves no deadline for writing, and the deadline for reading as
it was. -/
theorem writeResult_deadlines {conn conn' : Conn Err} {noiseConn noiseConn' : SecureConn}
    {resultType : ResultType}
    (h : Client.writeResult conn noiseConn resultType = .ok (conn', noiseConn', none)) :
    conn'.readDeadline = conn.readDeadline ∧ conn'.writeDeadline = none := by
  rw [Client.writeResult] at h
  split at h
  · cases h
  · next conn₁ hset =>
    obtain ⟨⟨conn₂, noiseConn₂, err⟩, hwrite, hrest⟩ := Call.bind_eq_ok.mp h
    cases err with
    | some err => cases hrest
    | none =>
      simp only [Call.pure_eq_ok, Except.ok.injEq, Prod.mk.injEq] at hrest
      obtain ⟨rfl, -, hnone⟩ := hrest
      obtain ⟨hread₁, -⟩ := Conn.setWriteDeadline_eq hset
      obtain ⟨hread₂, -⟩ := SecureConn.write_deadlines hwrite
      obtain ⟨hread₃, hwrite₃⟩ := Conn.setWriteDeadline_eq (Prod.ext hnone rfl)
      exact ⟨hread₃.trans (hread₂.trans hread₁), hwrite₃⟩

/-- The responding side has set the deadline for reading when it wraps the connection. -/
theorem Client.respond_deadlines {c : Client} {request : Request} {conn conn' : Conn Err}
    {auth : Authenticated} (h : c.respond request conn = (.ok auth, conn')) :
    conn'.readDeadline.isSome := by
  obtain ⟨hs, conn₁, -, h⟩ := Talk.bind_eq_ok.mp h
  obtain ⟨⟨hs', hs1⟩, conn₂, -, h⟩ := Talk.bind_eq_ok.mp h
  obtain ⟨_, conn₃, -, h⟩ := Talk.bind_eq_ok.mp h
  obtain ⟨_, conn₄, hset, h⟩ := Talk.bind_eq_ok.mp h
  obtain ⟨d2, conn₅, hpacket, h⟩ := Talk.bind_eq_ok.mp h
  obtain ⟨m2, conn₆, hhello, h⟩ := Talk.bind_eq_ok.mp h
  obtain ⟨⟨hs'', c1, c2⟩, conn₇, hmessage, h⟩ := Talk.bind_eq_ok.mp h
  have hset₄ := (Conn.setReadDeadline_eq (Talk.talk_eq_ok.mp hset)).1
  have hread₅ := (readPacket_deadlines hpacket).1
  obtain ⟨-, rfl⟩ := Talk.lift_eq_ok.mp hhello
  obtain ⟨-, rfl⟩ := Talk.lift_eq_ok.mp hmessage
  have hlast : conn₅ = conn' := by
    cases hstatic : c.noise.peerStatic hs'' with
    | none =>
      simp only [hstatic] at h
      cases h
    | some peerStatic =>
      simp only [hstatic] at h
      exact (Talk.pure_eq_ok.mp h).2
  rw [← hlast, hread₅, hset₄]
  rfl

/-- A request that is handled without an error leaves a deadline for reading, and none for
writing. -/
theorem Client.handleRequest_deadlines {c : Client} {request : Request} {conn conn' : Conn Err}
    {secConn : Option SecureConn} (h : c.handleRequest request conn = .ok (conn', secConn, none)) :
    secConn.isSome ∧ conn'.readDeadline.isSome ∧ conn'.writeDeadline = none := by
  rcases hrespond : c.respond request conn with ⟨err | auth, conn₁⟩
  · rw [c.handleRequest_error hrespond] at h
    cases h
  · have hread₁ := respond_deadlines hrespond
    have hwritten {noiseConn noiseConn' : SecureConn} {resultType : ResultType}
        (hwrite : writeResult conn₁ noiseConn resultType = .ok (conn', noiseConn', none)) :
        conn'.readDeadline.isSome ∧ conn'.writeDeadline = none := by
      obtain ⟨hread, hnone⟩ := writeResult_deadlines hwrite
      rw [hread]
      exact ⟨hread₁, hnone⟩
    simp only [handleRequest, hrespond] at h
    split at h
    · obtain ⟨⟨conn₂, noiseConn₂, err⟩, hwrite, hreturned⟩ := Call.bind_eq_ok.mp h
      cases hreturned
      exact ⟨rfl, hwritten hwrite⟩
    · obtain ⟨⟨conn₂, noiseConn₂, err⟩, hwrite, hreturned⟩ := Call.bind_eq_ok.mp h
      cases err with
      | some err => cases hreturned
      | none =>
        cases hreturned
        exact ⟨rfl, hwritten hwrite⟩

namespace Requester

variable {c : Requester}

/-- The requesting side has removed the deadline for writing when it wraps the connection. -/
theorem greet_deadlines {hs : c.noise.State} {response : Response} {conn conn' : Conn Err}
    {ciphers : Cipher × Cipher} (h : c.greet hs response conn = (.ok ciphers, conn')) :
    conn'.writeDeadline = none := by
  obtain ⟨hs', conn₁, -, h⟩ := Talk.bind_eq_ok.mp h
  obtain ⟨⟨hs1, c1, c2⟩, conn₂, -, h⟩ := Talk.bind_eq_ok.mp h
  obtain ⟨_, conn₃, -, h⟩ := Talk.bind_eq_ok.mp h
  obtain ⟨_, conn₄, -, h⟩ := Talk.bind_eq_ok.mp h
  obtain ⟨_, conn₅, hset, h⟩ := Talk.bind_eq_ok.mp h
  obtain ⟨-, rfl⟩ := Talk.pure_eq_ok.mp h
  exact (Conn.setWriteDeadline_eq (Talk.talk_eq_ok.mp hset)).2

/-- A result that is read without an error leaves no deadline for reading, and the deadline for
writing as it was. -/
theorem readResult_deadlines {conn conn' : Conn Err} {noiseConn noiseConn' : SecureConn}
    (h : c.readResult conn noiseConn = .ok (conn', noiseConn', none)) :
    conn'.readDeadline = none ∧ conn'.writeDeadline = conn.writeDeadline := by
  rw [readResult] at h
  split at h
  · cases h
  · next conn₁ hset =>
    obtain ⟨⟨conn₂, noiseConn₂, data, err⟩, hread, h⟩ := Call.bind_eq_ok.mp h
    cases err with
    | some err => cases h
    | none =>
      simp only at h
      split at h
      · cases h
      · next conn₃ hreset =>
        simp only [Call.pure_eq_ok, Except.ok.injEq, Prod.mk.injEq] at h
        obtain ⟨rfl, -, -⟩ := h
        obtain ⟨-, hwrite₁⟩ := Conn.setReadDeadline_eq hset
        obtain ⟨-, hwrite₂⟩ := SecureConn.read_deadlines hread
        obtain ⟨hread₃, hwrite₃⟩ := Conn.setReadDeadline_eq hreset
        exact ⟨hread₃, hwrite₃.trans (hwrite₂.trans hwrite₁)⟩

/-- A response that is handled without an error leaves no deadline. -/
theorem handleResponse_deadlines {ephemeralKey : c.noise.KeyPair} {targetIdentity : Bytes}
    {request : Request} {response : Response} {conn conn' : Conn Err} {secConn : Option SecureConn}
    (h : c.handleResponse ephemeralKey targetIdentity request response conn = .ok (conn', secConn, none)) :
    secConn.isSome ∧ conn'.readDeadline = none ∧ conn'.writeDeadline = none := by
  obtain ⟨hs | hs, -, h⟩ := Call.bind_eq_ok.mp h
  · cases h
  · simp only at h
    split at h
    · cases h
    · next c1 c2 conn₁ hgreet =>
      obtain ⟨⟨conn₂, noiseConn₂, err⟩, hresult, hreturned⟩ := Call.bind_eq_ok.mp h
      cases hreturned
      obtain ⟨hread, hwrite⟩ := readResult_deadlines hresult
      exact ⟨rfl, hread, hwrite.trans (greet_deadlines hgreet)⟩

end Requester

/-- For every run of the two sides of the handshake that returns no error: a connection is returned,
and `handleResponse` leaves no deadline on it, while `handleRequest` leaves none for writing and
always one for reading. -/
theorem handshake_deadlines (r : Requester) (c : Client) (request : Request) (conn conn' : Conn Err)
    (secConn : Option SecureConn) :
    (∀ ephemeralKey targetIdentity response,
      r.handleResponse ephemeralKey targetIdentity request response conn = .ok (conn', secConn, none) →
        secConn.isSome ∧ conn'.readDeadline = none ∧ conn'.writeDeadline = none) ∧
    (c.handleRequest request conn = .ok (conn', secConn, none) →
      secConn.isSome ∧ conn'.readDeadline ≠ none ∧ conn'.writeDeadline = none) := by
  constructor
  · intro ephemeralKey targetIdentity response h
    exact Requester.handleResponse_deadlines h
  · intro h
    obtain ⟨hsome, hread, hwrite⟩ := Client.handleRequest_deadlines h
    exact ⟨hsome, Option.isSome_iff_ne_none.mp hread, hwrite⟩

/-- A client with a handshake that always succeeds, and a decoder of results that takes one byte for
the type. -/
def plainRequester : Requester where
  identity := [3]
  noise := ⟨Unit, Unit, fun _ _ _ => .ok (), fun _ _ => .ok (), fun _ => .ok ([4], taggingCipher, taggingCipher)⟩
  x25519 := some
  unmarshalResult
    | [8, resultType] => .ok resultType.toNat
    | _ => .error (.foreign 1)

/-- A client that trusts everybody. -/
def trustingAll : Client := { Client.trustingNobody with isX25519Trusted := fun _ => true }

/-- A connection on which a peer has written the result `Ok`, over a network without failures. -/
def acceptedConn : Conn Err :=
  { Client.reliableConn with incoming := .ofChunk (frame taggingCipher 0 ResultType.ok.marshal) }

/-- A response and a request are handled without an error. -/
theorem handshake_deadlines_reliable :
    ∃ conn₁ conn₂ secConn₁ secConn₂,
      plainRequester.handleResponse () [1] ⟨1, [2]⟩ ⟨1, [2]⟩ acceptedConn = .ok (conn₁, secConn₁, none) ∧
      trustingAll.handleRequest ⟨1, [2]⟩ Client.reliableConn = .ok (conn₂, secConn₂, none) ∧
      conn₁.readDeadline = none ∧ conn₁.writeDeadline = none ∧ conn₂.readDeadline ≠ none ∧
      conn₂.writeDeadline = none := by
  have hresponse : plainRequester.handleResponse () [1] ⟨1, [2]⟩ ⟨1, [2]⟩ acceptedConn = .ok (_, _, none) := rfl
  have hrequest : trustingAll.handleRequest ⟨1, [2]⟩ Client.reliableConn = .ok (_, _, none) := rfl
  obtain ⟨-, hread₁, hwrite₁⟩ := (handshake_deadlines plainRequester trustingAll _ _ _ _).1 () [1] _ hresponse
  obtain ⟨-, hread₂, hwrite₂⟩ := (handshake_deadlines plainRequester trustingAll _ _ _ _).2 hrequest
  exact ⟨_, _, _, _, hresponse, hrequest, hread₁, hwrite₁, hread₂, hwrite₂⟩

/-- A trusted peer completes the handshake on a connection without deadlines: the connection is
returned with the deadline for reading the `Hello`. -/
theorem handleRequest_leaves_deadline :
    Client.reliableConn.readDeadline = none ∧ Client.reliableConn.writeDeadline = none ∧
      ∃ conn' secConn, trustingAll.handleRequest ⟨1, [2]⟩ Client.reliableConn = .ok (conn', some secConn, none) ∧
        conn'.readDeadline = some IoTimeout :=
  ⟨rfl, rfl, _, _, rfl, rfl⟩

end ProjektCore.Local
