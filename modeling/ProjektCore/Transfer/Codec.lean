import ProjektCore.Session.ReadMessage
import ProjektCore.Transfer.Message

/-!
# Transfer messages on a channel

The transfer protocol as the protocol of a channel: the number of each type of message, and the
empty message of each number. What Protobuf makes of the messages is a parameter.
-/

namespace ProjektCore.Transfer

open Foundation Session

/-- The number of a type of message. -/
def MessageType.number : MessageType → ℤ
  | .none => 0
  | .header => 2
  | .acknowledge => 3
  | .block => 4
  | .blockReceived => 5
  | .redoBlock => 6
  | .dataSent => 7
  | .dataReceived => 8
  | .abort => 9

/-- The number of the type of a message. -/
def rawTypeOf (message : Message) : Go ℤ := do
  match ← typeOf message with
  | .value type => return type.number
  | .state _ => panicRuntime "interface conversion"

/-- An empty message of a type. -/
def newMessage (messageType : ℤ) : Except Err Message :=
  if messageType = MessageType.header.number then .ok (.header ⟨none, 0, 0⟩)
  else if messageType = MessageType.acknowledge.number then .ok .acknowledge
  else if messageType = MessageType.block.number then .ok (.block (some ⟨0, [], []⟩))
  else if messageType = MessageType.blockReceived.number then .ok (.blockReceived 0)
  else if messageType = MessageType.redoBlock.number then .ok (.redoBlock 0)
  else if messageType = MessageType.dataSent.number then .ok .dataSent
  else if messageType = MessageType.dataReceived.number then .ok .dataReceived
  else if messageType = MessageType.abort.number then .ok .abort
  else .error .unexpectedMessageType

/-- The encoding of transfer messages by Protobuf. -/
structure Protobuf where
  marshal : Message → Except Err Bytes
  unmarshal : Bytes → Message → Message × Option Err

/-- The transfer protocol as the protocol of a channel. -/
def channelProtocol (proto : Protobuf) : MessageProtocol Message :=
  ⟨rawTypeOf, newMessage, proto.marshal, proto.unmarshal⟩

/-- The empty message of the same type as a message. -/
def emptyOf : Message → Message
  | .header _ => .header ⟨none, 0, 0⟩
  | .acknowledge => .acknowledge
  | .block _ => .block (some ⟨0, [], []⟩)
  | .blockReceived _ => .blockReceived 0
  | .redoBlock _ => .redoBlock 0
  | .dataSent => .dataSent
  | .dataReceived => .dataReceived
  | .abort => .abort
  | .other => .other

/-- The type of a message is that of its empty message and can be encoded. -/
theorem newMessage_rawTypeOf {message : Message} {type : ℤ} (h : rawTypeOf message = .ok type) :
    newMessage type = .ok (emptyOf message) ∧ 0 ≤ type ∧ type < 2 ^ 31 := by
  cases message with
  | other => cases h
  | _ =>
    obtain rfl := Except.ok.inj h
    exact ⟨rfl, by decide, by decide⟩

/-- Protobuf inverts itself at a message: decoding its encoding into an empty message gives it
back. -/
def Protobuf.Inverts (proto : Protobuf) (message : Message) : Prop :=
  ∀ payload, proto.marshal message = .ok payload → proto.unmarshal payload (emptyOf message) = (message, none)

/-- Where Protobuf inverts itself, decoding a transfer message by its type inverts encoding. -/
theorem channelProtocol_inverts {proto : Protobuf} {message : Message} (h : proto.Inverts message) :
    (channelProtocol proto).Inverts message := by
  intro type payload htype hmarshal
  exact MessageProtocol.decode_eq_ok_iff.mpr
    ⟨emptyOf message, (newMessage_rawTypeOf htype).1, h payload hmarshal⟩

end ProjektCore.Transfer
