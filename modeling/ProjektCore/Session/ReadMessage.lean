import ProjektCore.Session.PayloadSize

/-!
# Channel messages

A channel handle wraps the messages of its protocol into data messages and reads them back. The
protocol labels a message with its type and creates an empty message of a type; Protobuf encodes a
message and decodes into an empty one. A decoding that fails leaves in the message what was decoded
so far.

Reading does not look at the error of the decoding. The broker of a session, which decodes for
itself, does. How Protobuf decodes is a parameter throughout.
-/

namespace ProjektCore.Session

open Foundation

/-- A protocol with the encoding of its messages. -/
structure MessageProtocol (M : Type) where
  /-- The type of a message; a message of another protocol is a panic. -/
  rawTypeOf : M → Go ℤ
  /-- An empty message of a type. -/
  newMessage : ℤ → Except Err M
  marshal : M → Except Err Bytes
  /-- Decode into a message; an error comes with what was decoded so far. -/
  unmarshal : Bytes → M → M × Option Err

/-- Decode a message and take its content out. -/
def unmarshalMessage (unmarshal : Bytes → Except Err Message) (bytes : Bytes) :
    Except Err ChannelMessage := do
  let message ← unmarshal bytes
  unwrapMessage message

namespace MessageProtocol

variable {M : Type} (p : MessageProtocol M)

/-- The data message of a message on the channel with a number. -/
def wrapMessage (id : ℕ) (message : M) : Go (Except Err Message) :=
  match p.marshal message with
  | .error err => .ok (.error err)
  | .ok payload =>
    if payload.length > computePayloadMaxSize then .ok (.error .payloadTooLarge)
    else do
      let type ← p.rawTypeOf message
      return .ok (dataMessage ⟨id, type, payload⟩)

/-- The encoding of the data message of a message. -/
def marshalMessage (id : ℕ) (message : M) : Go (Except Err Bytes) := do
  match ← p.wrapMessage id message with
  | .error err => return .error err
  | .ok result => return protoMarshal result

/-- Read a message with its type from a data message; the error of the decoding is dropped. -/
def readMessage (message : ChannelMessage) : Go (Except Err (M × ℤ)) :=
  if !message.isData then .ok (.error .expectedDataMessage)
  else
    match message.content with
    | .data data =>
      match p.newMessage data.messageType with
      | .error err => .ok (.error err)
      | .ok empty =>
        let (result, _) := p.unmarshal data.payload empty
        .ok (.ok (result, data.messageType))
    | _ => panicText "message should have been of type data"

/-- The message that a payload of a type stands for, as the broker decodes it. -/
def decode (type : ℤ) (payload : Bytes) : Except Err M := do
  let empty ← p.newMessage type
  match p.unmarshal payload empty with
  | (_, some err) => .error err
  | (message, none) => .ok message

/-- Decoding inverts encoding at a message, in an empty message of its type. -/
def Inverts (message : M) : Prop :=
  ∀ type payload, p.rawTypeOf message = .ok type → p.marshal message = .ok payload →
    p.decode type payload = .ok message

/-- What is assumed of Protobuf for the messages of a protocol, for a relation that says which
payloads of a type encode which message. A payload of a known type is decoded to what it encodes, or
reported by an error. -/
structure DecodesPayloads (encodes : ℤ → Bytes → M → Prop) : Prop where
  decodes : ∀ {type empty}, p.newMessage type = .ok empty → Decodes (encodes type) (p.decode type)
  marshal : ∀ {message type payload}, p.rawTypeOf message = .ok type → p.marshal message = .ok payload →
    encodes type payload message

variable {p}

/-- A message decodes if the empty message of its type takes it without an error. -/
theorem decode_eq_ok_iff {type : ℤ} {payload : Bytes} {message : M} :
    p.decode type payload = .ok message ↔
      ∃ empty, p.newMessage type = .ok empty ∧ p.unmarshal payload empty = (message, none) := by
  simp only [decode, bind, Except.bind]
  cases p.newMessage type with
  | error err => simp
  | ok empty =>
    simp only [Except.ok.injEq, exists_eq_left']
    rcases p.unmarshal payload empty with ⟨result, _ | err⟩ <;> simp

/-- Reading the data message of data returns its type and what the decoding left. -/
theorem readMessage_data (data : Data) :
    p.readMessage ⟨.data data, data.channelId, ChannelMessageTypeData⟩ =
      .ok ((p.newMessage data.messageType).map fun empty =>
        ((p.unmarshal data.payload empty).1, data.messageType)) := by
  simp only [readMessage, ChannelMessage.isData, decide_true, Bool.not_true, Bool.false_eq_true,
    if_false]
  cases p.newMessage data.messageType <;> rfl

/-- Decoding inverts encoding at every message whose type is known. -/
theorem DecodesPayloads.inverts {encodes : ℤ → Bytes → M → Prop} (h : p.DecodesPayloads encodes)
    {message empty : M} {type : ℤ} (htype : p.rawTypeOf message = .ok type)
    (hempty : p.newMessage type = .ok empty) :
    p.Inverts message := by
  intro type' payload htype' hmarshal
  obtain rfl := Except.ok.inj (htype.symm.trans htype')
  exact (h.decodes hempty).eq_ok (h.marshal htype hmarshal)

variable {encodesMessage : Bytes → Message → Prop} {unmarshal : Bytes → Except Err Message}
  (hunmarshal : DecodesMessages encodesMessage unmarshal)

include hunmarshal in
/-- What a channel marshals is read back with its type and the number of the channel. -/
theorem readMessage_marshalMessage {id : ℕ} {message : M} {type : ℤ} {payload : Bytes}
    (hrange : InRange id type) (htype : p.rawTypeOf message = .ok type)
    (hmarshal : p.marshal message = .ok payload)
    (hsize : (payload.length : ℤ) ≤ computePayloadMaxSize) (hinverts : p.Inverts message) :
    ∃ bytes m, p.marshalMessage id message = .ok (.ok bytes) ∧ unmarshalMessage unmarshal bytes = .ok m ∧
      m.channelId = id ∧ p.readMessage m = .ok (.ok (message, type)) := by
  have hwrap : p.wrapMessage id message = .ok (.ok (dataMessage ⟨id, type, payload⟩)) := by
    simp only [wrapMessage, hmarshal, htype, if_neg (not_lt.mpr hsize)]
    rfl
  have hbytes : p.marshalMessage id message = .ok (.ok (dataMessage ⟨id, type, payload⟩).marshal) := by
    rw [marshalMessage, hwrap]
    rfl
  have hlength : payload.length < 2 ^ 31 := by
    rw [computePayloadMaxSize_eq] at hsize
    omega
  have hdata : unmarshal (dataMessage ⟨id, type, payload⟩).marshal = .ok (dataMessage ⟨id, type, payload⟩) :=
    hunmarshal.unmarshal_marshal (.data ⟨id, type, payload⟩) ⟨hrange, hlength⟩
  obtain ⟨empty, hempty, hdecode⟩ := decode_eq_ok_iff.mp (hinverts type payload htype hmarshal)
  refine ⟨_, ⟨.data ⟨id, type, payload⟩, id, ChannelMessageTypeData⟩, hbytes, ?_, rfl, ?_⟩
  · rw [unmarshalMessage, hdata]
    rfl
  · rw [readMessage_data]
    simp only [hempty, Except.map, hdecode]

end MessageProtocol

end ProjektCore.Session
