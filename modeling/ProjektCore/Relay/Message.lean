import ProjektCore.Foundation.Wire
import ProjektCore.Errors

/-!
# Messages of the relay protocol

The messages that a relay server and its clients exchange, and how they are wrapped: the marshalled
message is the content of a root message that names its type.
-/

namespace ProjektCore.Relay

open Foundation

/-- Why a session failed. -/
inductive SessionError where
  | none
  | targetUnavailable
  | sessionExists
  | unknownSession
  | sessionAlreadyAccepted
  | initiatorUnavailable
deriving Repr, DecidableEq

/-- The number of an error on the wire. -/
def SessionError.number : SessionError → ℕ
  | .none => 0
  | .targetUnavailable => 1
  | .sessionExists => 2
  | .unknownSession => 3
  | .sessionAlreadyAccepted => 4
  | .initiatorUnavailable => 5

/-- How a participant connects to a session. -/
structure SessionDescription where
  key : Bytes
  port : ℕ
deriving Repr, DecidableEq

/-- The messages of the protocol. -/
inductive Message where
  | connected
  | alreadyConnected
  | requestSession (targetIdentity additionalData : Bytes)
  | sessionFailed (reason : SessionError) (peerIdentity : Bytes)
  | sessionCreated (session : SessionDescription) (targetIdentity : Bytes)
  | sessionInvitation (session : SessionDescription) (initiatorIdentity additionalData : Bytes)
  | acceptSession (initiatorIdentity additionalData : Bytes)
  | sessionAccepted (targetIdentity additionalData : Bytes)
  | sessionEstablished (initiatorIdentity : Bytes)
deriving Repr, DecidableEq

/-- The number of a message's type on the wire. -/
def rawTypeOf : Message → ℕ
  | .connected => 1
  | .alreadyConnected => 2
  | .requestSession .. => 3
  | .sessionFailed .. => 4
  | .sessionCreated .. => 5
  | .sessionInvitation .. => 6
  | .acceptSession .. => 7
  | .sessionAccepted .. => 8
  | .sessionEstablished .. => 9

/-- Marshal a session description. -/
def SessionDescription.marshal (s : SessionDescription) : Bytes :=
  Wire.bytesField 1 s.key ++ Wire.varintField 2 s.port

/-- Marshal a message. -/
def marshal : Message → Bytes
  | .connected => []
  | .alreadyConnected => []
  | .requestSession target data => Wire.bytesField 1 target ++ Wire.bytesField 2 data
  | .sessionFailed reason peer => Wire.varintField 1 reason.number ++ Wire.bytesField 2 peer
  | .sessionCreated session target => Wire.messageField 1 session.marshal ++ Wire.bytesField 2 target
  | .sessionInvitation session initiator data =>
    Wire.messageField 1 session.marshal ++ Wire.bytesField 2 initiator ++ Wire.bytesField 3 data
  | .acceptSession initiator data => Wire.bytesField 1 initiator ++ Wire.bytesField 2 data
  | .sessionAccepted target data => Wire.bytesField 1 target ++ Wire.bytesField 2 data
  | .sessionEstablished initiator => Wire.bytesField 1 initiator

/-- Wrap a message into a root message with its type. -/
def wrapMessage (message : Message) : Bytes :=
  Wire.varintField 1 (rawTypeOf message) ++ Wire.bytesField 2 (marshal message)

/-- A wrapped message is not empty, since no type has the number zero. -/
theorem wrapMessage_ne_nil (message : Message) : wrapMessage message ≠ [] := by
  have htype : rawTypeOf message ≠ 0 := by cases message <;> simp [rawTypeOf]
  exact List.append_ne_nil_of_left_ne_nil (Wire.varintField_ne_nil htype) _

end ProjektCore.Relay
