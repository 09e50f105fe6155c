import ProjektCore.Foundation.WireReader
import ProjektCore.Packet.Sequence
import ProjektCore.Relay.Message

/-!
# Reading relay messages

The messages of a relay connection are packets. The content of a packet is a root message with the
type of a message and its encoding. Reading ends with the first packet that is incomplete, that does
not decode or that the reader does not expect, so that a reader handles exactly the messages before
it, wherever the connection cuts the stream into chunks.

Of the Protobuf library it is assumed that it decodes what it encodes; the decoder `parser` does so.
-/

namespace ProjektCore.Relay

open Foundation

/-- The types of messages. -/
inductive MessageType where
  | connected
  | alreadyConnected
  | requestSession
  | sessionFailed
  | sessionCreated
  | sessionInvitation
  | acceptSession
  | sessionAccepted
  | sessionEstablished
deriving Repr, DecidableEq

/-- A message as it is decoded: a session description may be absent, and a reason may be a number
that stands for none. -/
inductive Unwrapped where
  | connected
  | alreadyConnected
  | requestSession (targetIdentity additionalData : Bytes)
  | sessionFailed (reason : ℤ) (peerIdentity : Bytes)
  | sessionCreated (session : Option SessionDescription) (targetIdentity : Bytes)
  | sessionInvitation (session : Option SessionDescription) (initiatorIdentity additionalData : Bytes)
  | acceptSession (initiatorIdentity additionalData : Bytes)
  | sessionAccepted (targetIdentity additionalData : Bytes)
  | sessionEstablished (initiatorIdentity : Bytes)
deriving Repr, DecidableEq

/-- The message of a type that does not exist. -/
def illegalMessageType : Err := .new "illegal message type"

/-- The type with a number, for which an empty message is created. -/
def newMessage (messageType : ℤ) : Except Err MessageType :=
  if messageType = 1 then .ok .connected
  else if messageType = 2 then .ok .alreadyConnected
  else if messageType = 3 then .ok .requestSession
  else if messageType = 4 then .ok .sessionFailed
  else if messageType = 5 then .ok .sessionCreated
  else if messageType = 6 then .ok .sessionInvitation
  else if messageType = 7 then .ok .acceptSession
  else if messageType = 8 then .ok .sessionAccepted
  else if messageType = 9 then .ok .sessionEstablished
  else .error illegalMessageType

/-- The message that a written message is decoded to. -/
def Message.unwrapped : Message → Unwrapped
  | .connected => .connected
  | .alreadyConnected => .alreadyConnected
  | .requestSession target data => .requestSession target data
  | .sessionFailed reason peer => .sessionFailed reason.number peer
  | .sessionCreated session target => .sessionCreated (some session) target
  | .sessionInvitation session initiator data => .sessionInvitation (some session) initiator data
  | .acceptSession initiator data => .acceptSession initiator data
  | .sessionAccepted target data => .sessionAccepted target data
  | .sessionEstablished initiator => .sessionEstablished initiator

/-- The type of a message. -/
def Message.type : Message → MessageType
  | .connected => .connected
  | .alreadyConnected => .alreadyConnected
  | .requestSession .. => .requestSession
  | .sessionFailed .. => .sessionFailed
  | .sessionCreated .. => .sessionCreated
  | .sessionInvitation .. => .sessionInvitation
  | .acceptSession .. => .acceptSession
  | .sessionAccepted .. => .sessionAccepted
  | .sessionEstablished .. => .sessionEstablished

/-- The port that a message carries fits into 32 bits. -/
def Message.PortFits : Message → Prop
  | .sessionCreated session _ => session.port < 2 ^ 32
  | .sessionInvitation session _ _ => session.port < 2 ^ 32
  | _ => True

/-- A message that fits into a packet. -/
def Message.Fits (m : Message) : Prop := m.PortFits ∧ (wrapMessage m).length ≤ Packet.MaxLength

/-- How Protobuf decodes, and that it inverts the encoding of messages that fit into packets. -/
structure Decoder where
  /-- Decode a root message to its type and its content. -/
  unmarshalRoot : Bytes → Except Err (ℤ × Bytes)
  /-- Decode a message of a type. -/
  unmarshal : MessageType → Bytes → Except Err Unwrapped
  unmarshalRoot_wrapMessage : ∀ m : Message, m.Fits → unmarshalRoot (wrapMessage m) = .ok (rawTypeOf m, marshal m)
  unmarshal_marshal : ∀ m : Message, m.Fits → unmarshal m.type (marshal m) = .ok m.unwrapped

/-- Decode a root message and the message in it. -/
def unwrapMessage (decoder : Decoder) (wrapped : Bytes) : Except Err Unwrapped := do
  let (type, content) ← decoder.unmarshalRoot wrapped
  let type ← newMessage type
  decoder.unmarshal type content

/-- Write a message to a connection; an error closes the connection. The result says whether the
message was written and whether the connection was closed. -/
def write (message : Message) (conn : Conn Err) : Bool × Bool × Conn Err :=
  match Packet.writeTo (wrapMessage message) conn with
  | (_, some _, conn) => (false, true, conn)
  | (_, none, conn) => (true, false, conn)

/-- The type of a message is found by its number. -/
theorem newMessage_rawTypeOf (m : Message) : newMessage (rawTypeOf m) = .ok m.type := by
  cases m <;> rfl

/-- The message of a type with given fields, as the encoding writes them. -/
def MessageType.parse : MessageType → List Wire.Field → Option Unwrapped
  | .connected, _ => some .connected
  | .alreadyConnected, _ => some .alreadyConnected
  | .requestSession, fields => some (.requestSession (Wire.bytesAt 1 fields) (Wire.bytesAt 2 fields))
  | .sessionFailed, fields => some (.sessionFailed (Wire.numberAt 1 fields) (Wire.bytesAt 2 fields))
  | .sessionCreated, ⟨1, .bytes session⟩ :: fields =>
    (Wire.readFields session).map fun session =>
      .sessionCreated (some ⟨Wire.bytesAt 1 session, Wire.numberAt 2 session⟩) (Wire.bytesAt 2 fields)
  | .sessionInvitation, ⟨1, .bytes session⟩ :: fields =>
    (Wire.readFields session).map fun session =>
      .sessionInvitation (some ⟨Wire.bytesAt 1 session, Wire.numberAt 2 session⟩) (Wire.bytesAt 2 fields)
        (Wire.bytesAt 3 fields)
  | .acceptSession, fields => some (.acceptSession (Wire.bytesAt 1 fields) (Wire.bytesAt 2 fields))
  | .sessionAccepted, fields => some (.sessionAccepted (Wire.bytesAt 1 fields) (Wire.bytesAt 2 fields))
  | .sessionEstablished, fields => some (.sessionEstablished (Wire.bytesAt 1 fields))
  | _, _ => none

/-- The fields of a session description. -/
def SessionDescription.fields (session : SessionDescription) : List Wire.Field :=
  Wire.bytesFields 1 session.key ++ (Wire.numberFields 2 session.port ++ [])

/-- The fields of an encoded message. -/
def Message.fields : Message → List Wire.Field
  | .connected => []
  | .alreadyConnected => []
  | .requestSession target data => Wire.bytesFields 1 target ++ (Wire.bytesFields 2 data ++ [])
  | .sessionFailed reason peer => Wire.numberFields 1 reason.number ++ (Wire.bytesFields 2 peer ++ [])
  | .sessionCreated session target => ⟨1, .bytes session.marshal⟩ :: (Wire.bytesFields 2 target ++ [])
  | .sessionInvitation session initiator data =>
    ⟨1, .bytes session.marshal⟩ :: (Wire.bytesFields 2 initiator ++ (Wire.bytesFields 3 data ++ []))
  | .acceptSession initiator data => Wire.bytesFields 1 initiator ++ (Wire.bytesFields 2 data ++ [])
  | .sessionAccepted target data => Wire.bytesFields 1 target ++ (Wire.bytesFields 2 data ++ [])
  | .sessionEstablished initiator => Wire.bytesFields 1 initiator ++ []

/-- Two byte strings at the first two field numbers are read back. -/
theorem reads_two {first second : Bytes}
    (h : (Wire.bytesField 1 first ++ Wire.bytesField 2 second).length < 2 ^ 63) :
    Wire.Reads (Wire.bytesField 1 first ++ Wire.bytesField 2 second)
      (Wire.bytesFields 1 first ++ (Wire.bytesFields 2 second ++ [])) := by
  have hfirst := Wire.length_le_bytesField 1 first
  have hsecond := Wire.length_le_bytesField 2 second
  rw [List.length_append] at h
  rw [← List.append_nil (Wire.bytesField 2 second)]
  exact Wire.reads_bytesField (by decide) (by decide)
    (Wire.reads_bytesField (by decide) (by decide) Wire.reads_nil (by omega)) (by omega)

/-- The fields of a session description are read back. -/
theorem SessionDescription.reads {session : SessionDescription} (hport : session.port < 2 ^ 32)
    (h : session.marshal.length < 2 ^ 63) : Wire.Reads session.marshal session.fields := by
  have hkey := Wire.length_le_bytesField 1 session.key
  rw [SessionDescription.marshal, List.length_append] at h
  rw [SessionDescription.marshal, ← List.append_nil (Wire.varintField 2 session.port)]
  exact Wire.reads_bytesField (by decide) (by decide)
    (Wire.reads_varintField (by decide) (by decide) Wire.reads_nil (by omega)) (by omega)

/-- The fields of a message are read back. -/
theorem Message.reads (m : Message) (h : (marshal m).length < 2 ^ 63) :
    Wire.Reads (marshal m) m.fields := by
  cases m with
  | connected | alreadyConnected => exact Wire.reads_nil
  | requestSession | acceptSession | sessionAccepted => exact reads_two h
  | sessionFailed reason peer =>
    have hpeer := Wire.length_le_bytesField 2 peer
    have hreason : reason.number < 2 ^ 64 := by cases reason <;> decide
    rw [marshal, List.length_append] at h
    rw [marshal, ← List.append_nil (Wire.bytesField 2 peer)]
    exact Wire.reads_varintField (by decide) (by decide)
      (Wire.reads_bytesField (by decide) (by decide) Wire.reads_nil (by omega)) hreason
  | sessionCreated session target =>
    have hsession := Wire.length_le_messageField 1 session.marshal
    have htarget := Wire.length_le_bytesField 2 target
    rw [marshal, List.length_append] at h
    rw [marshal, ← List.append_nil (Wire.bytesField 2 target)]
    exact Wire.reads_messageField (by decide) (by decide)
      (Wire.reads_bytesField (by decide) (by decide) Wire.reads_nil (by omega)) (by omega)
  | sessionInvitation session initiator data =>
    have hsession := Wire.length_le_messageField 1 session.marshal
    have hinitiator := Wire.length_le_bytesField 2 initiator
    have hdata := Wire.length_le_bytesField 3 data
    rw [marshal, List.length_append, List.length_append] at h
    rw [marshal, List.append_assoc, ← List.append_nil (Wire.bytesField 3 data)]
    exact Wire.reads_messageField (by decide) (by decide) (Wire.reads_bytesField (by decide) (by decide)
      (Wire.reads_bytesField (by decide) (by decide) Wire.reads_nil (by omega)) (by omega)) (by omega)
  | sessionEstablished initiator =>
    have hinitiator := Wire.length_le_bytesField 1 initiator
    rw [marshal] at h
    rw [marshal, ← List.append_nil (Wire.bytesField 1 initiator)]
    exact Wire.reads_bytesField (by decide) (by decide) Wire.reads_nil (by omega)

/-- The fields of a message give it back. -/
theorem Message.parse_fields (m : Message) (hport : m.PortFits) (h : (marshal m).length < 2 ^ 63) :
    m.type.parse m.fields = some m.unwrapped := by
  have hsession {session : SessionDescription} (hport : session.port < 2 ^ 32) (h : session.marshal.length < 2 ^ 63) :
      Wire.readFields session.marshal = some session.fields := (SessionDescription.reads hport h).readFields
  cases m with
  | connected | alreadyConnected => rfl
  | sessionCreated session target =>
    have hlength := Wire.length_le_messageField 1 session.marshal
    rw [marshal, List.length_append] at h
    simp [type, fields, unwrapped, MessageType.parse, hsession hport (by omega),
      SessionDescription.fields, Wire.bytesAt, Wire.numberAt]
  | sessionInvitation session initiator data =>
    have hlength := Wire.length_le_messageField 1 session.marshal
    rw [marshal, List.length_append, List.length_append] at h
    simp [type, fields, unwrapped, MessageType.parse, hsession hport (by omega),
      SessionDescription.fields, Wire.bytesAt, Wire.numberAt, Wire.bytesFrom_bytesFields_of_ne]
  | _ =>
    simp [type, fields, unwrapped, MessageType.parse, Wire.bytesAt, Wire.numberAt,
      Wire.bytesFrom_bytesFields_of_ne]

/-- The encoding of a message that fits into a packet is short. -/
theorem Message.Fits.length_lt {m : Message} (h : m.Fits) :
    (wrapMessage m).length < 2 ^ 63 ∧ (marshal m).length < 2 ^ 63 := by
  have hwrapped : (wrapMessage m).length < 2 ^ 63 := by
    refine lt_of_le_of_lt h.2 ?_
    rw [Packet.MaxLength, Packet.LengthSize]
    decide
  have hcontent := Wire.length_le_bytesField 2 (marshal m)
  refine ⟨hwrapped, ?_⟩
  rw [wrapMessage, List.length_append] at hwrapped
  omega

/-- The fields of a root message are read back. -/
theorem wrapMessage_reads {m : Message} (h : m.Fits) :
    Wire.Reads (wrapMessage m) (Wire.numberFields 1 (rawTypeOf m) ++ (Wire.bytesFields 2 (marshal m) ++ [])) := by
  have htype : rawTypeOf m < 2 ^ 64 := by cases m <;> simp [rawTypeOf]
  have hlength := h.length_lt.2
  rw [wrapMessage, ← List.append_nil (Wire.bytesField 2 (marshal m))]
  exact Wire.reads_varintField (by decide) (by decide)
    (Wire.reads_bytesField (by decide) (by decide) Wire.reads_nil (by omega)) htype

/-- A decoder for what the encoding writes. -/
def parser : Decoder where
  unmarshalRoot := Wire.parse malformed fun fields => some (Wire.numberAt 1 fields, Wire.bytesAt 2 fields)
  unmarshal type := Wire.parse malformed type.parse
  unmarshalRoot_wrapMessage m h := (wrapMessage_reads h).parse (by simp [Wire.numberAt, Wire.bytesAt])
  unmarshal_marshal m h := (m.reads h.length_lt.2).parse (m.parse_fields h.1 h.length_lt.2)

end ProjektCore.Relay
