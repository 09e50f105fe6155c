import ProjektCore.Errors
import ProjektCore.Foundation.Bytes

/-!
# Messages of a session

The messages that two sessions exchange, how a channel creates them, and what the reading goroutine
of a session makes of them. A protocol is named by its number; the marshalling of its messages is
given by a codec that inverts it.
-/

namespace ProjektCore.Session

open Foundation

/-- Data on a channel. -/
structure Data where
  channelId : ℕ
  messageType : ℤ
  payload : Bytes
deriving Repr, DecidableEq

/-- The content of a message. -/
inductive Content where
  | openChannel (channelId : ℕ) (channelType : ℤ)
  | acceptChannel (channelId : ℕ)
  | closeChannel (channelId : ℕ)
  | data (data : Data)
deriving Repr, DecidableEq

/-- A message, which may have no content. -/
structure Message where
  content : Option Content
deriving Repr, DecidableEq

/-- How the messages of a protocol are marshalled; foreign messages are refused. -/
structure Codec (M : Type) where
  rawTypeOf : M → ℤ
  marshal : M → Except Err Bytes
  unmarshal : ℤ → Bytes → Except Err M
  unmarshal_marshal : ∀ m payload, marshal m = .ok payload → unmarshal (rawTypeOf m) payload = .ok m

/-- A codec of a protocol whose messages are byte strings of one type. -/
def plainCodec : Codec Bytes where
  rawTypeOf _ := 0
  marshal m := .ok m
  unmarshal _ payload := .ok payload
  unmarshal_marshal m payload h := by
    obtain rfl := Except.ok.inj h
    rfl

/-- The protocols by their numbers, and the largest payload of a data message. -/
structure Protocols (M : Type) where
  codec : ℤ → Codec M
  payloadMaxSize : ℕ

/-- A channel's protocol and number. -/
@[ext] structure ChannelHandle where
  protocolId : ℤ
  id : ℕ
deriving Repr, DecidableEq

namespace ChannelHandle

/-- The message that opens a channel. -/
def openMessage (c : ChannelHandle) : Message := ⟨some (.openChannel c.id c.protocolId)⟩

/-- The message that accepts a channel. -/
def acceptMessage (c : ChannelHandle) : Message := ⟨some (.acceptChannel c.id)⟩

/-- The message that closes a channel. -/
def closeMessage (c : ChannelHandle) : Message := ⟨some (.closeChannel c.id)⟩

variable {M : Type} (protocols : Protocols M)

/-- The data message of a message of the channel's protocol. -/
def wrapMessage (c : ChannelHandle) (message : M) : Except Err Data := do
  let payload ← (protocols.codec c.protocolId).marshal message
  if payload.length > protocols.payloadMaxSize then .error .payloadTooLarge
  else .ok ⟨c.id, (protocols.codec c.protocolId).rawTypeOf message, payload⟩

/-- The message of the channel's protocol that data stands for, as the broker decodes it. -/
def decode (c : ChannelHandle) (data : Data) : Except Err M :=
  (protocols.codec c.protocolId).unmarshal data.messageType data.payload

variable {protocols}

/-- A wrapped message carries the encoding of the message, which keeps the limit. -/
theorem wrapMessage_eq_ok {c : ChannelHandle} {message : M} {data : Data}
    (h : c.wrapMessage protocols message = .ok data) :
    ∃ payload, (protocols.codec c.protocolId).marshal message = .ok payload ∧
      payload.length ≤ protocols.payloadMaxSize ∧
      data = ⟨c.id, (protocols.codec c.protocolId).rawTypeOf message, payload⟩ := by
  simp only [wrapMessage, bind, Except.bind] at h
  split at h
  · cases h
  · next payload hpayload =>
    split at h
    · cases h
    · next hsize => exact ⟨payload, hpayload, not_lt.mp hsize, (Except.ok.inj h).symm⟩

/-- A message whose encoding keeps the limit is wrapped. -/
theorem wrapMessage_of_marshal {c : ChannelHandle} {message : M} {payload : Bytes}
    (hpayload : (protocols.codec c.protocolId).marshal message = .ok payload)
    (hsize : payload.length ≤ protocols.payloadMaxSize) :
    c.wrapMessage protocols message = .ok ⟨c.id, (protocols.codec c.protocolId).rawTypeOf message, payload⟩ := by
  simp only [wrapMessage, hpayload, bind, Except.bind]
  exact if_neg (not_lt.mpr hsize)

/-- A wrapped message has the number of its channel. -/
theorem wrapMessage_channelId {c : ChannelHandle} {message : M} {data : Data}
    (h : c.wrapMessage protocols message = .ok data) : data.channelId = c.id := by
  obtain ⟨payload, -, -, rfl⟩ := wrapMessage_eq_ok h
  rfl

/-- Decoding a wrapped message gives it back. -/
theorem decode_wrapMessage {c : ChannelHandle} {message : M} {data : Data}
    (h : c.wrapMessage protocols message = .ok data) : c.decode protocols data = .ok message := by
  obtain ⟨payload, hpayload, -, rfl⟩ := wrapMessage_eq_ok h
  exact (protocols.codec c.protocolId).unmarshal_marshal message payload hpayload

end ChannelHandle

/-- The type of a message that opens a channel. -/
def ChannelMessageTypeOpen : ℕ := 1

/-- The type of a message that accepts a channel. -/
def ChannelMessageTypeAccept : ℕ := 2

/-- The type of a message that closes a channel. -/
def ChannelMessageTypeClose : ℕ := 3

/-- The type of a message that carries data. -/
def ChannelMessageTypeData : ℕ := 4

/-- A message with its content taken out. -/
structure ChannelMessage where
  content : Content
  channelId : ℕ
  messageType : ℕ
deriving Repr, DecidableEq

namespace ChannelMessage

/-- Whether a message opens a channel. -/
def opensChannel (m : ChannelMessage) : Bool := m.messageType = ChannelMessageTypeOpen

/-- Whether a message accepts a channel. -/
def acceptsChannel (m : ChannelMessage) : Bool := m.messageType = ChannelMessageTypeAccept

/-- Whether a message closes a channel. -/
def closesChannel (m : ChannelMessage) : Bool := m.messageType = ChannelMessageTypeClose

/-- Whether a message carries data. -/
def isData (m : ChannelMessage) : Bool := m.messageType = ChannelMessageTypeData

end ChannelMessage

/-- Take the content out of a message. -/
def unwrapMessage (message : Message) : Except Err ChannelMessage :=
  match message.content with
  | some (.openChannel id type) => .ok ⟨.openChannel id type, id, ChannelMessageTypeOpen⟩
  | some (.acceptChannel id) => .ok ⟨.acceptChannel id, id, ChannelMessageTypeAccept⟩
  | some (.closeChannel id) => .ok ⟨.closeChannel id, id, ChannelMessageTypeClose⟩
  | some (.data data) => .ok ⟨.data data, data.channelId, ChannelMessageTypeData⟩
  | none => .error .noMessageContent

/-- What the reading goroutine hands to the broker. -/
inductive Reader where
  | reading
  | data (data : Data)
  | inOpen (channelId : ℕ) (protocolId : ℤ)
  | inAccept (channelId : ℕ)
  | stopped
deriving Repr, DecidableEq

/-- What the reading goroutine makes of a message; the number of the protocol that a message opens
is taken from the type of the message, and a message that closes a channel is ignored. -/
def readHandler (message : Message) : Reader :=
  match unwrapMessage message with
  | .error _ => .reading
  | .ok m =>
    if m.isData then
      match m.content with
      | .data data => .data data
      | _ => .reading
    else if m.opensChannel then .inOpen m.channelId m.messageType
    else if m.acceptsChannel then .inAccept m.channelId
    else if m.closesChannel then .reading
    else .reading

end ProjektCore.Session
