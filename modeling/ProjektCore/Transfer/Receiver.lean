import ProjektCore.Protocol.Pair
import ProjektCore.Transfer.Message

/-!
# The receiver

The receiver acknowledges the header, answers every block with its receipt or with requests for
blocks it misses, and acknowledges the end of the data. It writes its answer before it reads the
next message.

As for the sender, `receiver_implements` is the proof that the compiled client does exactly what
`ReceiverPhase.write` and `ReceiverPhase.read` say.
-/

namespace ProjektCore.Transfer

open Foundation Protocol

/-- The header has to be acknowledged. -/
def sendAcknowledge : State := firstState

/-- The next block is awaited. -/
def needBlock : State := firstState + 1

/-- A block has to be answered. -/
def handleBlock : State := firstState + 2

/-- All blocks are written, the end of the data is awaited. -/
def needDataSent : State := firstState + 3

/-- The end of the data has to be acknowledged. -/
def sendDataReceived : State := firstState + 4

/-- Creates the store that received data is written to. -/
abbrev WriterFactory := Metadata → ℕ → Except Err Store

/-- The fields of a receiver. -/
structure ReceiverFields where
  writerFactory : WriterFactory
  writer : Option Writer
  nextBlockIndex : ℕ
  lastBlock : Option Block
  redoBlocks : Option (List ℕ)
  header : Option Header

/-- A receiver: its protocol client and its fields. -/
abbrev Receiver := Peer MessageType Message ReceiverFields

namespace ReceiverFields

/-- The fields of a new receiver: there is no writer before the header. -/
def new (writerFactory : WriterFactory) :
    ReceiverFields := ⟨writerFactory, none, 0, none, none, none⟩

/-- Check the header and create the writer. -/
def readHeader (s : ReceiverFields) (header : Header) : ReceiverFields × Option Err :=
  match header.metadata with
  | none => (s, some (.new "header does not contain metadata"))
  | some metadata =>
    if h : header.blockSize = 0 then (s, some (.new "header contains an illegal block size of 0"))
    else match s.writerFactory metadata header.totalSize with
      | .error err => (s, some err)
      | .ok writer =>
        ({ s with
            writer := some (newWriter writer header.totalSize ⟨header.blockSize, Nat.pos_of_ne_zero h⟩)
            header := some header }, none)

/-- Write a block. A wrong checksum requests the block again; a gap requests all blocks before
it. -/
def readBlock (sha256 : Bytes → Bytes) (s : ReceiverFields) (block : Option Block) :
    Go (ReceiverFields × Option Err) :=
  match block, s.writer with
  | some b, some writer => do
    let (writer, err) ← writer.writeBlock sha256 b
    let s := { s with writer := some writer }
    if err = some .badBlockChecksum then return ({ s with redoBlocks := some [b.index] }, none)
    else if err.isSome then return (s, err)
    else if b.index > s.nextBlockIndex then
      return ({ s with
        redoBlocks := some (List.range' s.nextBlockIndex (b.index - s.nextBlockIndex))
        lastBlock := some b }, none)
    else if b.index < s.nextBlockIndex then panicText "block already written"
    else return ({ s with nextBlockIndex := s.nextBlockIndex + 1, lastBlock := some b }, none)
  | _, _ => panicRuntime "nil pointer dereference"

/-- The answer to the last block: its receipt first, then the requested blocks one by one. -/
def answer (s : ReceiverFields) : Go (ReceiverFields × Any Message) :=
  match s.lastBlock, s.redoBlocks with
  | some b, _ => .ok ({ s with lastBlock := none }, some (.blockReceived b.index))
  | none, some (index :: rest) =>
    .ok ({ s with redoBlocks := if rest.length = 0 then none else some rest }, some (.redoBlock index))
  | none, some [] => panicRuntime "index out of range"
  | none, none => .ok (s, none)

/-- Where an answer leads: to the next answer, to the end of the data, or to the next block. -/
def afterAnswer {A : Type} (s : ReceiverFields) (again last more : A) : Go A :=
  if s.redoBlocks.isSome then .ok again
  else match s.writer with
    | none => panicRuntime "nil pointer dereference"
    | some writer => .ok (if writer.isDone then last else more)

end ReceiverFields

/-- A handler that writes a fixed message. -/
def answerWith (message : Message) : WriteMessageHandler ReceiverFields Message :=
  fun s => return ⟨s, some message, none⟩

/-- The handler that answers a block. -/
def handleBlockHandler : WriteMessageHandler ReceiverFields Message := fun s => do
  let (s, message) ← Handler.call s.answer
  let state ← Handler.call (s.afterAnswer handleBlock needDataSent needBlock)
  .set state (return ⟨s, message, none⟩)

/-- The handler of a header. -/
def headerHandler : ReadMessageHandler ReceiverFields Message := fun s message =>
  match message with
  | .header header => return s.readHeader header
  | _ => .panic (.runtime "interface conversion")

/-- The handler of a block. -/
def blockHandler (sha256 : Bytes → Bytes) :
    ReadMessageHandler ReceiverFields Message := fun s message =>
  match message with
  | .block block => .call (s.readBlock sha256 block)
  | _ => .panic (.runtime "interface conversion")

/-- The transition map of the receiver. -/
def receiverDefinition (sha256 : Bytes → Bytes) :
    Definition MessageType Message ReceiverFields where
  protocol := transferProtocol
  writeFirst := true
  initialState := initialized
  finalState := done
  writeMessage := {
    entries := [
      (.state sendAcknowledge, [{ toState := needBlock, doHandler := some (answerWith .acknowledge) }]),
      (.state handleBlock,
        [{ okStates := some [handleBlock, needBlock, needDataSent], doHandler := some handleBlockHandler }]),
      (.state sendDataReceived, [{ toState := done, doHandler := some (answerWith .dataReceived) }]),
      (.state sendAbort, [{ toState := aborted, doHandler := some (answerWith .abort) }])]
    nodup := by simp only [List.map_cons, List.map_nil]; decide }
  readMessage := {
    entries := [
      (.value .header,
        [{ atStates := some [initialized], toState := sendAcknowledge, doHandler := some headerHandler }]),
      (.value .block,
        [{ atStates := some [needBlock], toState := handleBlock, doHandler := some (blockHandler sha256) }]),
      (.value .dataSent, [{ atStates := some [needDataSent], toState := sendDataReceived }])]
    nodup := by simp only [List.map_cons, List.map_nil]; decide }

/-- A receiver that writes to the stores of a factory. -/
def newReceiver (sha256 : Bytes → Bytes) (writerFactory : WriterFactory) : Go Receiver := do
  let client ← newClient (receiverDefinition sha256)
  return ⟨client, .new writerFactory⟩

/-- The phases of a receiver. -/
inductive ReceiverPhase where
  | initialized
  | done
  | sendAbort
  | aborted
  | sendAcknowledge
  | needBlock
  | handleBlock
  | needDataSent
  | sendDataReceived
deriving Repr, DecidableEq

namespace ReceiverPhase

/-- The state of a phase. -/
def state : ReceiverPhase → State
  | .initialized => Transfer.initialized
  | .done => Transfer.done
  | .sendAbort => Transfer.sendAbort
  | .aborted => Transfer.aborted
  | .sendAcknowledge => Transfer.sendAcknowledge
  | .needBlock => Transfer.needBlock
  | .handleBlock => Transfer.handleBlock
  | .needDataSent => Transfer.needDataSent
  | .sendDataReceived => Transfer.sendDataReceived

/-- The state of a receiver determines its phase. -/
theorem state_injective : Function.Injective state := by
  intro phase other h
  cases phase <;> cases other <;> first | rfl | cases h

/-- The phases in which a message can be written. -/
def canWrite : ReceiverPhase → Bool
  | .sendAcknowledge | .handleBlock | .sendDataReceived | .sendAbort => true
  | _ => false

/-- Answer a block; without an answer the client panics. -/
def answerBlock (s : ReceiverFields) :
    Go (ReceiverPhase × ReceiverFields × Any Message × Option Err) := do
  let (s, message) ← s.answer
  let phase ← s.afterAnswer ReceiverPhase.handleBlock .needDataSent .needBlock
  if message.isNone then panicText "written message needs be a protobuf message"
  else return (phase, s, message, none)

/-- What writing a message does in a phase. -/
def write :
    ReceiverPhase → ReceiverFields → Go (ReceiverPhase × ReceiverFields × Any Message × Option Err)
  | .sendAcknowledge, s => .ok (.needBlock, s, some .acknowledge, none)
  | .handleBlock, s => answerBlock s
  | .sendDataReceived, s => .ok (.done, s, some .dataReceived, none)
  | .sendAbort, s => .ok (.aborted, s, some .abort, none)
  | phase, s => .ok (phase, s, none, some .nothingToWrite)

/-- What reading a message does in a phase. -/
def read (sha256 : Bytes → Bytes) : ReceiverPhase → ReceiverFields → Message →
    Go (ReceiverPhase × ReceiverFields × Option Err)
  | _, _, .other => panicError .illegalRootMessageType
  | .initialized, s, .header header => moveTo .sendAcknowledge (.ok (s.readHeader header))
  | .needBlock, s, .block block => moveTo .handleBlock (s.readBlock sha256 block)
  | .needDataSent, s, .dataSent => .ok (.sendDataReceived, s, none)
  | phase, s, _ => .ok (phase, s, some .unexpectedMessage)

end ReceiverPhase

/-- The receiver as a machine over its phases. -/
def receiverMachine (sha256 : Bytes → Bytes) : Machine ReceiverPhase Message ReceiverFields where
  state := ReceiverPhase.state
  write := ReceiverPhase.write
  read := ReceiverPhase.read sha256
  canWrite := ReceiverPhase.canWrite
  mustWrite := ReceiverPhase.canWrite
  isDone phase := phase = .done

/-- An answer leads to one of the three given places. -/
theorem ReceiverFields.afterAnswer_eq_ok {A : Type} {s : ReceiverFields} {again last more next : A}
    (h : s.afterAnswer again last more = .ok next) : next = again ∨ next = last ∨ next = more := by
  unfold afterAnswer at h
  split at h
  · exact .inl (Except.ok.inj h).symm
  · split at h
    · simp [panicRuntime] at h
    · split at h
      · exact .inr (.inl (Except.ok.inj h).symm)
      · exact .inr (.inr (Except.ok.inj h).symm)

/-- Renaming the places of an answer renames the place it leads to. -/
theorem ReceiverFields.afterAnswer_map {A B : Type} (f : A → B) (s : ReceiverFields)
    (again last more : A) :
    s.afterAnswer (f again) (f last) (f more) = (do return f (← s.afterAnswer again last more)) := by
  unfold afterAnswer
  split
  · rfl
  · split
    · rfl
    · split <;> rfl

section Implementation

variable {sha256 : Bytes → Bytes} {c : Client MessageType Message ReceiverFields}
  (h : Compiles (receiverDefinition sha256) c)
include h

/-- Answering a block. -/
theorem writeMessage_handleBlock (hstate : c.state = handleBlock) (s : ReceiverFields) :
    c.writeMessage s = (do
      let (phase, s, message, err) ← ReceiverPhase.answerBlock s
      return ⟨{ c with state := phase.state }, s, message, err⟩) := by
  obtain ⟨t, ht, hd, hok, hto⟩ : ∃ t, (receiverDefinition sha256).writeTransition c.state = some t ∧
      t.doHandler = some handleBlockHandler ∧ t.okStates = some [handleBlock, needBlock, needDataSent] ∧
      t.toState = NoState := by
    rw [hstate]
    exact ⟨_, rfl, rfl, rfl, rfl⟩
  have hrun (sh : StateHandle) : (handleBlockHandler s).run sh = (do
      let (s, message) ← s.answer
      let state ← s.afterAnswer handleBlock needDataSent needBlock
      (Handler.set state (.ret (⟨s, message, none⟩ : Returned ReceiverFields Message))).run sh) := by
    simp only [handleBlockHandler, Handler.run_call_bind]
    rfl
  cases hanswer : s.answer with
  | error value =>
    rw [h.writeMessage_panic s ht hd (by rw [hrun, hanswer]; rfl)]
    simp only [ReceiverPhase.answerBlock, hanswer]
    rfl
  | ok result =>
    obtain ⟨after, message⟩ := result
    have hmap := ReceiverFields.afterAnswer_map ReceiverPhase.state after .handleBlock .needDataSent .needBlock
    simp only [hanswer, Call.ok_bind] at hrun
    cases hnext : after.afterAnswer ReceiverPhase.handleBlock .needDataSent .needBlock with
    | error value =>
      have hpanic : after.afterAnswer handleBlock needDataSent needBlock = .error value := by
        rw [hnext] at hmap
        exact hmap
      rw [h.writeMessage_panic s ht hd (by rw [hrun, hpanic]; rfl)]
      simp only [ReceiverPhase.answerBlock, hanswer, hnext, Call.ok_bind]
      rfl
    | ok phase =>
      have hplace : after.afterAnswer handleBlock needDataSent needBlock = .ok phase.state := by
        rw [hnext] at hmap
        exact hmap
      have htarget : phase.state ∈ (handleOf t c.state).target := by
        rw [handleOf, hok]
        change phase.state ∈ [handleBlock, needBlock, needDataSent]
        rcases ReceiverFields.afterAnswer_eq_ok hnext with rfl | rfl | rfl <;> decide
      have hset := hrun (handleOf t c.state)
      rw [hplace, Call.ok_bind, Handler.run_set htarget rfl] at hset
      cases message with
      | none =>
        rw [h.writeMessage_nil s ht hd hset rfl]
        simp only [ReceiverPhase.answerBlock, hanswer, hnext, Call.ok_bind]
        rfl
      | some message =>
        rw [h.writeMessage_of_run s ht hd hset rfl (by simp) (by simp)]
        simp only [ReceiverPhase.answerBlock, hanswer, hnext, Call.ok_bind, Transition.finalState,
          hto]
        rfl

variable (phase : ReceiverPhase) (hstate : c.state = phase.state)
include hstate

/-- The client of a receiver writes as its phase says. -/
theorem receiver_writeMessage (s : ReceiverFields) :
    c.writeMessage s = (do
      let (phase, s, message, err) ← phase.write s
      return ⟨{ c with state := phase.state }, s, message, err⟩) := by
  have hblock := writeMessage_handleBlock h
  obtain ⟨protocol, writeFirst, initialState, finalState, state, writer, reader, writeAt⟩ := c
  obtain rfl : state = phase.state := hstate
  cases phase with
  | handleBlock => exact hblock rfl s
  | sendAcknowledge =>
    rw [h.writeMessage_ret s (by exact rfl) (by exact rfl) rfl rfl]
    rfl
  | sendDataReceived =>
    rw [h.writeMessage_ret s (by exact rfl) (by exact rfl) rfl rfl]
    rfl
  | sendAbort =>
    rw [h.writeMessage_ret s (by exact rfl) (by exact rfl) rfl rfl]
    rfl
  | _ => exact h.writeMessage_untriggered s rfl

/-- The client of a receiver reads as its phase says. -/
theorem receiver_readMessage (s : ReceiverFields) (message : Message) :
    c.readMessage s message = (do
      let (phase, s, err) ← phase.read sha256 s message
      return ⟨{ c with state := phase.state }, s, err⟩) := by
  obtain ⟨protocol, writeFirst, initialState, finalState, state, writer, reader, writeAt⟩ := c
  obtain rfl : state = phase.state := hstate
  cases message with
  | other =>
    obtain rfl : protocol = transferProtocol := h.protocol
    rfl
  | header header =>
    cases phase with
    | initialized =>
      exact (h.readMessage_call s rfl rfl (by exact rfl) rfl rfl).trans
        (moveTo_state ReceiverPhase.state _ .sendAcknowledge (.ok (s.readHeader header)))
    | _ => exact h.readMessage_untriggered s _ _ rfl rfl
  | block block =>
    cases phase with
    | needBlock =>
      exact (h.readMessage_call s rfl rfl (by exact rfl) rfl rfl).trans
        (moveTo_state ReceiverPhase.state _ .handleBlock _)
    | _ => exact h.readMessage_untriggered s _ _ rfl rfl
  | dataSent =>
    cases phase with
    | needDataSent => exact (h.readMessage_to s rfl rfl rfl rfl).trans rfl
    | _ => exact h.readMessage_untriggered s _ _ rfl rfl
  | acknowledge => cases phase <;> exact h.readMessage_untriggered s _ _ rfl rfl
  | blockReceived index => cases phase <;> exact h.readMessage_untriggered s _ _ rfl rfl
  | redoBlock index => cases phase <;> exact h.readMessage_untriggered s _ _ rfl rfl
  | dataReceived => cases phase <;> exact h.readMessage_untriggered s _ _ rfl rfl
  | abort => cases phase <;> exact h.readMessage_untriggered s _ _ rfl rfl

end Implementation

/-- The receiver's definition implements its machine. -/
theorem receiver_implements (sha256 : Bytes → Bytes) :
    Implements (receiverDefinition sha256) (receiverMachine sha256) where
  write _ h phase s hstate := receiver_writeMessage h phase hstate s
  read _ h phase s message hstate := receiver_readMessage h phase hstate s message
  canWrite phase := by cases phase <;> simp [receiverMachine, receiverDefinition] <;> decide
  mustWrite _ := rfl
  isDone phase := by cases phase <;> simp [receiverMachine, receiverDefinition] <;> decide

/-- A receiver can be created: its definition compiles. -/
theorem newReceiver_ok (sha256 : Bytes → Bytes) (writerFactory : WriterFactory) :
    ∃ client, newReceiver sha256 writerFactory =
      .ok ((receiverMachine sha256).peer client (.initialized, .new writerFactory)) ∧
      Compiles (receiverDefinition sha256) client := by
  have hnew : ∃ client, newClient (receiverDefinition sha256) = .ok client := ⟨_, rfl⟩
  obtain ⟨client, hclient⟩ := hnew
  obtain ⟨hcompiles, hstate, -, -⟩ := newClient_eq_ok hclient
  refine ⟨client, ?_, hcompiles⟩
  simp only [newReceiver, hclient, Call.ok_bind, Call.pure_eq_ok, Machine.peer]
  congr 2
  cases client
  congr 1

end ProjektCore.Transfer
