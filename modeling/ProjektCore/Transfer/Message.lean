import ProjektCore.Protocol.Client
import ProjektCore.Transfer.Block.Writer

/-!
# States and messages of the transfer protocol

The first states are shared by sender and receiver; each side continues the enumeration with its
own.
-/

namespace ProjektCore.Transfer

/-- The state before the first message. -/
def initialized : State := 1

/-- The state after a completed transfer. -/
def done : State := 2

/-- The state in which an abort has to be sent. -/
def sendAbort : State := 3

/-- The state after an abort. -/
def aborted : State := 4

/-- The first state of the enumeration that each side continues. -/
def firstState : State := 5

/-- The type of a message. -/
inductive MessageType where
  | none
  | header
  | acknowledge
  | block
  | blockReceived
  | redoBlock
  | dataSent
  | dataReceived
  | abort
deriving Repr, DecidableEq

/-- Descriptive metadata about the content. A name is a string, which can have any bytes. -/
structure Metadata where
  filename : Foundation.Bytes
deriving Repr, DecidableEq

/-- What the receiver has to know before the first block; absent metadata is `none`. -/
structure Header where
  metadata : Option Metadata
  totalSize : ℕ
  blockSize : ℕ
deriving Repr, DecidableEq

/-- The messages of the protocol. A block message may be a nil pointer, which is what a failed
read of the next block leaves in it; `other` stands for the messages of other protocols. -/
inductive Message where
  | header (header : Header)
  | acknowledge
  | block (block : Option Block)
  | blockReceived (index : ℕ)
  | redoBlock (index : ℕ)
  | dataSent
  | dataReceived
  | abort
  | other
deriving Repr, DecidableEq

/-- The type by which a message is dispatched. -/
def typeOf : Message → Go (Key MessageType)
  | .header _ => .ok (.value .header)
  | .acknowledge => .ok (.value .acknowledge)
  | .block _ => .ok (.value .block)
  | .blockReceived _ => .ok (.value .blockReceived)
  | .redoBlock _ => .ok (.value .redoBlock)
  | .dataSent => .ok (.value .dataSent)
  | .dataReceived => .ok (.value .dataReceived)
  | .abort => .ok (.value .abort)
  | .other => panicError .illegalRootMessageType

/-- The transfer protocol. -/
def transferProtocol : Protocol MessageType Message := ⟨typeOf⟩

end ProjektCore.Transfer
