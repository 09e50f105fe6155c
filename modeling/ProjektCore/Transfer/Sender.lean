import ProjektCore.Protocol.Failure
import ProjektCore.Protocol.Pair
import ProjektCore.Transfer.Message

/-!
# The sender

The sender writes a header, then all blocks of its reader, then that the data is sent. It does not
wait for the acknowledge of the header before it writes blocks, and acknowledges of blocks arrive
while it still writes. A requested block puts it back into progress.

The definition below is the sender's transition map. `SenderPhase.write` and `SenderPhase.read` say
without an automaton what a call does in each phase; `Sender.embeds` is the proof that the compiled
client does exactly this.
-/

namespace ProjektCore.Transfer

open Foundation Protocol

/-- The header is sent, its acknowledge is not yet received. -/
def inPrologue : State := firstState

/-- Blocks are sent after the acknowledge. -/
def inProgress : State := firstState + 1

/-- All blocks are sent before the acknowledge. -/
def needAcknowledge : State := firstState + 2

/-- All blocks are sent, the end of the data is not yet announced. -/
def transferred : State := firstState + 3

/-- The end of the data is announced. -/
def needDataReceived : State := firstState + 4

/-- The fields of a sender. -/
structure SenderFields where
  reader : Reader
  received : List Bool
  receivedCount : ℕ
  metadata : Option Metadata
deriving DecidableEq

/-- A sender: its protocol client and its fields. -/
abbrev Sender := Peer MessageType Message SenderFields

namespace SenderFields

/-- The fields of a new sender: no block is received. -/
def new (metadata : Option Metadata) (reader : Reader) : SenderFields :=
  ⟨reader, List.replicate reader.blockCount false, 0, metadata⟩

/-- The header of the transfer. -/
def createHeader (s : SenderFields) : Header :=
  ⟨s.metadata, s.reader.totalSize, s.reader.blockSize.bytes⟩

/-- Record that a block was received. -/
def blockReceived (s : SenderFields) (index : ℕ) : Go (SenderFields × Option Err) :=
  match s.received[index]? with
  | none => panicRuntime "index out of range"
  | some true => .ok (s, some .duplicateBlockReceived)
  | some false =>
    if s.receivedCount + 1 > s.reader.blockCount then
      panicText "sent more blocks than there should be available"
    else .ok ({ s with received := s.received.set index true, receivedCount := s.receivedCount + 1 }, none)

/-- Queue a block that the receiver requested again. -/
def redoBlock (s : SenderFields) (index : ℕ) : Go (SenderFields × Option Err) :=
  match s.received[index]? with
  | none => panicRuntime "index out of range"
  | some true => .ok (s, some .redoForReceivedBlock)
  | some false =>
    if index ≥ s.reader.nextBlockIndex then .ok (s, some .redoForUnwrittenBlock)
    else match s.reader.redoBlock index with
      | (reader, _, some err) => .ok ({ s with reader := reader }, some err)
      | (reader, queued, none) =>
        .ok ({ s with reader := reader }, if queued then none else some .duplicateRedoBlock)

/-- Whether the receipt of the data is acknowledged too early. -/
def dataReceived (s : SenderFields) : Option Err :=
  if s.receivedCount < s.reader.blockCount then some .invalidDataReceived else none

/-- Read the next block. -/
def nextBlock (sha256 : Bytes → Bytes) (s : SenderFields) :
    Go (SenderFields × Option Block × Option Err) :=
  if !s.reader.hasData then panicText "expected data but no data to write"
  else do
    let (reader, block, err) ← s.reader.nextBlock sha256
    return ({ s with reader := reader }, block, err)

end SenderFields

/-- An error of a store is reported as it is. -/
theorem isBadTransition_of_isStoreError {err : Err} (h : Store.isStoreError err) :
    Client.isBadTransition (some err) = false := by
  cases err <;> first | rfl | cases h

/-- Reading the next block does not fail with an error that means something else to the client. -/
theorem SenderFields.nextBlock_error {sha256 : Bytes → Bytes} {s after : SenderFields}
    {block : Option Block} {err : Err} (h : s.nextBlock sha256 = .ok (after, block, some err)) :
    Client.isBadTransition (some err) = false := by
  simp only [nextBlock] at h
  split at h
  · simp [panicText] at h
  · simp only [Call.bind_eq_ok, Call.pure_eq_ok, Except.ok.injEq, Prod.mk.injEq] at h
    obtain ⟨⟨reader, block', readErr⟩, hread, -, -, rfl⟩ := h
    exact isBadTransition_of_isStoreError (Reader.nextBlock_error hread)

/-- A handler that writes a fixed message. -/
def writeHandler (message : SenderFields → Message) : WriteMessageHandler SenderFields Message :=
  fun s => return ⟨s, some (message s), none⟩

/-- The handler that writes the next block: the state depends on whether it was the last one. -/
def nextBlockHandler (sha256 : Bytes → Bytes) (more last : State) :
    WriteMessageHandler SenderFields Message := fun s => do
  let (s, block, err) ← Handler.call (s.nextBlock sha256)
  match err with
  | some err => return ⟨s, some (.block block), some err⟩
  | none => .set (if s.reader.isDone then last else more) (return ⟨s, some (.block block), none⟩)

/-- The handler of a received block receipt. -/
def blockReceivedHandler : ReadMessageHandler SenderFields Message := fun s message =>
  match message with
  | .blockReceived index => .call (s.blockReceived index)
  | _ => .panic (.runtime "interface conversion")

/-- The handler of a requested block. -/
def redoBlockHandler : ReadMessageHandler SenderFields Message := fun s message =>
  match message with
  | .redoBlock index => .call (s.redoBlock index)
  | _ => .panic (.runtime "interface conversion")

/-- The handler of the acknowledged end of the data. -/
def dataReceivedHandler :
    ReadMessageHandler SenderFields Message := fun s _ => return (s, s.dataReceived)

/-- The transition map of the sender. -/
def senderDefinition (sha256 : Bytes → Bytes) : Definition MessageType Message SenderFields where
  protocol := transferProtocol
  initialState := initialized
  finalState := done
  writeMessage := {
    entries := [
      (.state initialized,
        [{ toState := inPrologue, doHandler := some (writeHandler fun s => .header s.createHeader) }]),
      (.state inPrologue,
        [{ okStates := some [inPrologue, needAcknowledge]
           doHandler := some (nextBlockHandler sha256 inPrologue needAcknowledge) }]),
      (.state inProgress,
        [{ okStates := some [inProgress, transferred]
           doHandler := some (nextBlockHandler sha256 inProgress transferred) }]),
      (.state transferred,
        [{ toState := needDataReceived, doHandler := some (writeHandler fun _ => .dataSent) }]),
      (.state sendAbort,
        [{ toState := aborted, doHandler := some (writeHandler fun _ => .abort) }])]
    nodup := by simp only [List.map_cons, List.map_nil]; decide }
  readMessage := {
    entries := [
      (.value .acknowledge,
        [{ atStates := some [inPrologue], toState := inProgress },
         { atStates := some [needAcknowledge], toState := transferred }]),
      (.value .blockReceived,
        [{ atStates := some [inProgress], doHandler := some blockReceivedHandler },
         { atStates := some [transferred], doHandler := some blockReceivedHandler },
         { atStates := some [needDataReceived], doHandler := some blockReceivedHandler }]),
      (.value .redoBlock,
        [{ atStates := some [inProgress], doHandler := some redoBlockHandler },
         { atStates := some [transferred], toState := inProgress, doHandler := some redoBlockHandler },
         { atStates := some [needDataReceived], toState := inProgress, doHandler := some redoBlockHandler }]),
      (.value .dataReceived,
        [{ atStates := some [needDataReceived], toState := done, doHandler := some dataReceivedHandler }]),
      (.value .abort,
        [{ atStates := some [initialized, inPrologue, inProgress, needAcknowledge, transferred,
             needDataReceived, sendAbort]
           toState := aborted }])]
    nodup := by simp only [List.map_cons, List.map_nil]; decide }

/-- A sender of the data of a reader. -/
def newSender (sha256 : Bytes → Bytes) (metadata : Option Metadata) (reader : Reader) :
    Go Sender := do
  let client ← newClient (senderDefinition sha256)
  return ⟨client, .new metadata reader⟩

/-- The phases of a sender. -/
inductive SenderPhase where
  | initialized
  | done
  | sendAbort
  | aborted
  | inPrologue
  | inProgress
  | needAcknowledge
  | transferred
  | needDataReceived
deriving Repr, DecidableEq

namespace SenderPhase

/-- The state of a phase. -/
def state : SenderPhase → State
  | .initialized => Transfer.initialized
  | .done => Transfer.done
  | .sendAbort => Transfer.sendAbort
  | .aborted => Transfer.aborted
  | .inPrologue => Transfer.inPrologue
  | .inProgress => Transfer.inProgress
  | .needAcknowledge => Transfer.needAcknowledge
  | .transferred => Transfer.transferred
  | .needDataReceived => Transfer.needDataReceived

/-- The state of a sender determines its phase. -/
theorem state_injective : Function.Injective state := by
  intro phase other h
  cases phase <;> cases other <;> first | rfl | cases h

/-- The phases in which a message can be written. -/
def canWrite : SenderPhase → Bool
  | .initialized | .inPrologue | .inProgress | .transferred | .sendAbort => true
  | _ => false

/-- Write the next block and move on if it was the last one. -/
def writeBlock (sha256 : Bytes → Bytes) (stay : SenderPhase) (s : SenderFields)
    (more last : SenderPhase) :
    Go (SenderPhase × SenderFields × Any Message × Option Err) := do
  let (s, block, err) ← s.nextBlock sha256
  return (if err.isSome then stay else if s.reader.isDone then last else more, s, some (.block block), err)

/-- What writing a message does in a phase. -/
def write (sha256 : Bytes → Bytes) : SenderPhase → SenderFields →
    Go (SenderPhase × SenderFields × Any Message × Option Err)
  | .initialized, s => .ok (.inPrologue, s, some (.header s.createHeader), none)
  | .inPrologue, s => writeBlock sha256 .inPrologue s .inPrologue .needAcknowledge
  | .inProgress, s => writeBlock sha256 .inProgress s .inProgress .transferred
  | .transferred, s => .ok (.needDataReceived, s, some .dataSent, none)
  | .sendAbort, s => .ok (.aborted, s, some .abort, none)
  | phase, s => .ok (phase, s, none, some .nothingToWrite)

/-- What reading a message does in a phase. -/
def read : SenderPhase → SenderFields → Message → Go (SenderPhase × SenderFields × Option Err)
  | _, _, .other => panicError .illegalRootMessageType
  | .inPrologue, s, .acknowledge => .ok (.inProgress, s, none)
  | .needAcknowledge, s, .acknowledge => .ok (.transferred, s, none)
  | .inProgress, s, .blockReceived index => moveTo .inProgress (s.blockReceived index)
  | .transferred, s, .blockReceived index => moveTo .transferred (s.blockReceived index)
  | .needDataReceived, s, .blockReceived index => moveTo .needDataReceived (s.blockReceived index)
  | .inProgress, s, .redoBlock index => moveTo .inProgress (s.redoBlock index)
  | .transferred, s, .redoBlock index => moveTo .inProgress (s.redoBlock index)
  | .needDataReceived, s, .redoBlock index => moveTo .inProgress (s.redoBlock index)
  | .needDataReceived, s, .dataReceived => moveTo .done (.ok (s, s.dataReceived))
  | .done, s, .abort => .ok (.done, s, some .unexpectedMessage)
  | .aborted, s, .abort => .ok (.aborted, s, some .unexpectedMessage)
  | _, s, .abort => .ok (.aborted, s, none)
  | phase, s, _ => .ok (phase, s, some .unexpectedMessage)

end SenderPhase

/-- The sender as a machine over its phases. -/
def senderMachine (sha256 : Bytes → Bytes) : Machine SenderPhase Message SenderFields where
  state := SenderPhase.state
  write := SenderPhase.write sha256
  read := SenderPhase.read
  canWrite := SenderPhase.canWrite
  mustWrite _ := false
  isDone phase := phase = .done

section Implementation

variable {sha256 : Bytes → Bytes} {c : Client MessageType Message SenderFields}
  (h : Compiles (senderDefinition sha256) c) (phase : SenderPhase) (hstate : c.state = phase.state)
include h

/-- Writing the next block in a state. -/
theorem writeMessage_nextBlock {more last : State}
    {t : Transition (WriteMessageHandler SenderFields Message)}
    (ht : (senderDefinition sha256).writeTransition c.state = some t)
    (hd : t.doHandler = some (nextBlockHandler sha256 more last))
    (hok : t.okStates = some [more, last]) (hto : t.toState = NoState) (s : SenderFields) :
    c.writeMessage s = (do
      let (s, block, err) ← s.nextBlock sha256
      return ⟨{ c with state := if err.isSome then c.state else if s.reader.isDone then last else more },
        s, some (.block block), err⟩) := by
  cases hnext : s.nextBlock sha256 with
  | error value =>
    refine h.writeMessage_panic s ht hd ?_
    simp [nextBlockHandler, hnext]
  | ok result =>
    obtain ⟨after, block, err⟩ := result
    cases err with
    | some err =>
      have hrun : (nextBlockHandler sha256 more last s).run (handleOf t c.state) =
          .ok (⟨after, some (.block block), some err⟩, handleOf t c.state) := by
        simp only [nextBlockHandler, Handler.run_call_bind, hnext, Call.ok_bind]
        rfl
      rw [h.writeMessage_of_run s ht hd hrun rfl (by simp [handleOf, newStateHandle]) (by simp)]
      simp [SenderFields.nextBlock_error hnext, Transition.finalState, hto, handleOf,
        newStateHandle]
    | none =>
      have htarget : (if after.reader.isDone then last else more) ∈ (handleOf t c.state).target := by
        simp only [handleOf, newStateHandle, hok, Option.getD_some]
        split <;> simp
      have hrun : (nextBlockHandler sha256 more last s).run (handleOf t c.state) =
          .ok (⟨after, some (.block block), none⟩, { handleOf t c.state with
            state := if after.reader.isDone then last else more, mutated := true }) := by
        simp only [nextBlockHandler, Handler.run_call_bind, hnext, Call.ok_bind]
        exact Handler.run_set htarget rfl
      rw [h.writeMessage_of_run s ht hd hrun rfl (by simp) (by simp)]
      simp [Transition.finalState, hto, Client.isBadTransition]

omit h in
/-- The state after a written block is the state of the phase after it. -/
theorem writeBlock_state (c : Client MessageType Message SenderFields)
    (stay more last : SenderPhase) (s : SenderFields) :
    (do
      let (s, block, err) ← s.nextBlock sha256
      return (⟨{ c with state := if err.isSome then stay.state else
          if s.reader.isDone then last.state else more.state }, s, some (.block block), err⟩ :
          Written MessageType Message SenderFields)) = (do
      let (phase, s, message, err) ← stay.writeBlock sha256 s more last
      return ⟨{ c with state := phase.state }, s, message, err⟩) := by
  simp only [SenderPhase.writeBlock]
  cases s.nextBlock sha256 with
  | error value => rfl
  | ok result =>
    obtain ⟨after, block, err⟩ := result
    cases err with
    | some err => rfl
    | none => cases hdone : after.reader.isDone <;> simp [hdone]

include hstate

/-- The client of a sender writes as its phase says. -/
theorem sender_writeMessage (s : SenderFields) :
    c.writeMessage s = (do
      let (phase, s, message, err) ← phase.write sha256 s
      return ⟨{ c with state := phase.state }, s, message, err⟩) := by
  obtain ⟨protocol, writeFirst, initialState, finalState, state, writer, reader, writeAt⟩ := c
  obtain rfl : state = phase.state := hstate
  cases phase with
  | initialized =>
    rw [h.writeMessage_ret s (by exact rfl) (by exact rfl) rfl rfl]
    rfl
  | inPrologue =>
    rw [writeMessage_nextBlock h (by exact rfl) (by exact rfl) rfl rfl]
    exact writeBlock_state _ .inPrologue .inPrologue .needAcknowledge s
  | inProgress =>
    rw [writeMessage_nextBlock h (by exact rfl) (by exact rfl) rfl rfl]
    exact writeBlock_state _ .inProgress .inProgress .transferred s
  | transferred =>
    rw [h.writeMessage_ret s (by exact rfl) (by exact rfl) rfl rfl]
    rfl
  | sendAbort =>
    rw [h.writeMessage_ret s (by exact rfl) (by exact rfl) rfl rfl]
    rfl
  | done => exact h.writeMessage_untriggered s rfl
  | aborted => exact h.writeMessage_untriggered s rfl
  | needAcknowledge => exact h.writeMessage_untriggered s rfl
  | needDataReceived => exact h.writeMessage_untriggered s rfl

/-- The client of a sender reads as its phase says. -/
theorem sender_readMessage (s : SenderFields) (message : Message) :
    c.readMessage s message = (do
      let (phase, s, err) ← phase.read s message
      return ⟨{ c with state := phase.state }, s, err⟩) := by
  obtain ⟨protocol, writeFirst, initialState, finalState, state, writer, reader, writeAt⟩ := c
  obtain rfl : state = phase.state := hstate
  cases message with
  | other =>
    obtain rfl : protocol = transferProtocol := h.protocol
    rfl
  | acknowledge =>
    cases phase with
    | inPrologue => exact (h.readMessage_to s rfl rfl rfl rfl).trans rfl
    | needAcknowledge => exact (h.readMessage_to s rfl rfl rfl rfl).trans rfl
    | _ => exact h.readMessage_untriggered s _ _ rfl rfl
  | blockReceived index =>
    cases phase with
    | inProgress =>
      exact (h.readMessage_call s rfl rfl (by exact rfl) rfl rfl).trans (moveTo_state SenderPhase.state _ .inProgress _)
    | transferred =>
      exact (h.readMessage_call s rfl rfl (by exact rfl) rfl rfl).trans
        (moveTo_state SenderPhase.state _ .transferred _)
    | needDataReceived =>
      exact (h.readMessage_call s rfl rfl (by exact rfl) rfl rfl).trans
        (moveTo_state SenderPhase.state _ .needDataReceived _)
    | _ => exact h.readMessage_untriggered s _ _ rfl rfl
  | redoBlock index =>
    cases phase with
    | inProgress =>
      exact (h.readMessage_call s rfl rfl (by exact rfl) rfl rfl).trans (moveTo_state SenderPhase.state _ .inProgress _)
    | transferred =>
      exact (h.readMessage_call s rfl rfl (by exact rfl) rfl rfl).trans (moveTo_state SenderPhase.state _ .inProgress _)
    | needDataReceived =>
      exact (h.readMessage_call s rfl rfl (by exact rfl) rfl rfl).trans (moveTo_state SenderPhase.state _ .inProgress _)
    | _ => exact h.readMessage_untriggered s _ _ rfl rfl
  | dataReceived =>
    cases phase with
    | needDataReceived =>
      exact (h.readMessage_call s rfl rfl (by exact rfl) rfl rfl).trans
        (moveTo_state SenderPhase.state _ .done (.ok (s, s.dataReceived)))
    | _ => exact h.readMessage_untriggered s _ _ rfl rfl
  | abort =>
    cases phase with
    | done => exact h.readMessage_untriggered s _ _ rfl rfl
    | aborted => exact h.readMessage_untriggered s _ _ rfl rfl
    | _ => exact (h.readMessage_to s rfl rfl rfl rfl).trans rfl
  | header header => cases phase <;> exact h.readMessage_untriggered s _ _ rfl rfl
  | block block => cases phase <;> exact h.readMessage_untriggered s _ _ rfl rfl
  | dataSent => cases phase <;> exact h.readMessage_untriggered s _ _ rfl rfl

end Implementation

/-- The sender's definition implements its machine. -/
theorem sender_implements (sha256 : Bytes → Bytes) :
    Implements (senderDefinition sha256) (senderMachine sha256) where
  write _ h phase s hstate := sender_writeMessage h phase hstate s
  read _ h phase s message hstate := sender_readMessage h phase hstate s message
  canWrite phase := by cases phase <;> simp [senderMachine, senderDefinition] <;> decide
  mustWrite _ := rfl
  isDone phase := by cases phase <;> simp [senderMachine, senderDefinition] <;> decide

/-- A sender can be created: its definition compiles. -/
theorem newSender_ok (sha256 : Bytes → Bytes) (metadata : Option Metadata) (reader : Reader) :
    ∃ client, newSender sha256 metadata reader =
      .ok ((senderMachine sha256).peer client (.initialized, .new metadata reader)) ∧
      Compiles (senderDefinition sha256) client := by
  have hnew : ∃ client, newClient (senderDefinition sha256) = .ok client := ⟨_, rfl⟩
  obtain ⟨client, hclient⟩ := hnew
  obtain ⟨hcompiles, hstate, -, -⟩ := newClient_eq_ok hclient
  refine ⟨client, ?_, hcompiles⟩
  simp only [newSender, hclient, Call.ok_bind, Call.pure_eq_ok, Machine.peer]
  congr 2
  cases client
  congr 1

section Reachable

variable {sha256 : Bytes → Bytes} {c : Client MessageType Message SenderFields} {phase next : SenderPhase}
  {s after : SenderFields}

/-- A client goes on to the phase that writing a message leads to. -/
theorem reachable_write (h : Client.Reachable (senderDefinition sha256) c)
    (hstate : c.state = phase.state) {message : Any Message} {err : Option Err}
    (hwrite : phase.write sha256 s = .ok (next, after, message, err)) :
    Client.Reachable (senderDefinition sha256) { c with state := next.state } := by
  have hcall := (sender_implements sha256).write c h.compiles phase s hstate
  simp only [senderMachine, hwrite, Call.ok_bind, Call.pure_eq_ok] at hcall
  exact .wrote s h hcall

/-- A client goes on to the phase that reading a message leads to. -/
theorem reachable_read (h : Client.Reachable (senderDefinition sha256) c)
    (hstate : c.state = phase.state) {message : Message} {err : Option Err}
    (hread : phase.read s message = .ok (next, after, err)) :
    Client.Reachable (senderDefinition sha256) { c with state := next.state } := by
  have hcall := (sender_implements sha256).read c h.compiles phase s message hstate
  simp only [senderMachine, hread, Call.ok_bind, Call.pure_eq_ok] at hcall
  exact .read s message h hcall

end Reachable

/-- A sender of one byte, whose store fails as given. -/
def oneByte (faults : List (Option ℕ)) : SenderFields :=
  .new none (newBlockReader ⟨[7], 0, faults⟩ 1 ⟨1, by decide⟩)

/-- Calls of a sender that fail. A store that fails and a receipt that is repeated leave the state
intact, a data receipt that is too early does not. Nothing can be written while the data receipt is
awaited, and the end of the data is not expected. -/
theorem sender_failed_call_intact_iff :
    ∃ inPro inProg awaiting : Client MessageType Message SenderFields,
      (Client.Reachable (senderDefinition id) inPro ∧ inPro.state = inPrologue ∧
        ∃ f : WriteFailure (senderDefinition id) inPro, f.err = Store.ioError ∧ f.Intact) ∧
      (Client.Reachable (senderDefinition id) inProg ∧ inProg.state = inProgress ∧
        (∃ f : ReadFailure (senderDefinition id) inProg, f.message = .blockReceived 0 ∧
          f.err = .duplicateBlockReceived ∧ f.Intact) ∧
        inProg.readMessage (oneByte []) .dataSent = .ok ⟨inProg, oneByte [], some .unexpectedMessage⟩) ∧
      (Client.Reachable (senderDefinition id) awaiting ∧ awaiting.state = needDataReceived ∧
        (∃ f : ReadFailure (senderDefinition id) awaiting, f.message = .dataReceived ∧
          f.err = .invalidDataReceived ∧ ¬ f.Intact) ∧
        awaiting.writeMessage (oneByte []) = .ok ⟨awaiting, oneByte [], none, some .nothingToWrite⟩) := by
  have hnew : ∃ client, newClient (senderDefinition id) = .ok client := ⟨_, rfl⟩
  obtain ⟨client, hclient⟩ := hnew
  have hstate : client.state = SenderPhase.initialized.state := (newClient_eq_ok hclient).2.1
  have hinPro := reachable_write (.new hclient) hstate
    (rfl : SenderPhase.initialized.write id (oneByte []) = .ok (.inPrologue, oneByte [], _, none))
  have hinProg := reachable_read hinPro rfl
    (rfl : SenderPhase.inPrologue.read (oneByte []) .acknowledge = .ok (.inProgress, oneByte [], none))
  have hneedAck := reachable_write hinPro rfl
    (rfl : SenderPhase.inPrologue.write id (oneByte []) = .ok (.needAcknowledge, _, _, none))
  have htransferred := reachable_read hneedAck rfl
    (rfl : SenderPhase.needAcknowledge.read (oneByte []) .acknowledge = .ok (.transferred, oneByte [], none))
  have hawaiting := reachable_write htransferred rfl
    (rfl : SenderPhase.transferred.write id (oneByte []) = .ok (.needDataReceived, oneByte [], _, none))
  have hstore : ¬ Client.isBadTransition (some Store.ioError) := by decide
  have hduplicate : ¬ Client.isBadTransition (some .duplicateBlockReceived) := by decide
  refine ⟨_, _, _, ⟨hinPro, rfl, ?_⟩, ⟨hinProg, rfl, ?_, ?_⟩, ⟨hawaiting, rfl, ?_, ?_⟩⟩
  · refine ⟨⟨oneByte [some 0], _, _, _, _, _, rfl, rfl, rfl, rfl, rfl⟩, rfl, ?_⟩
    exact ((failed_call_intact_iff _ _ hinPro).1 _).mpr ⟨rfl, hstore, .inl rfl⟩
  · refine ⟨⟨{ oneByte [] with received := [true] }, .blockReceived 0, _, _, _, _, _, _, rfl, rfl, rfl, rfl, rfl⟩,
      rfl, rfl, ?_⟩
    exact ((failed_call_intact_iff _ _ hinProg).2.1 _).mpr ⟨hduplicate, .inl rfl⟩
  · exact (failed_call_intact_iff _ _ hinProg).2.2.2 _ _ _ rfl rfl
  · refine ⟨⟨oneByte [], .dataReceived, _, _, _, _, _, _, rfl, rfl, rfl, rfl, rfl⟩, rfl, rfl, ?_⟩
    rw [(failed_call_intact_iff _ _ hawaiting).2.1]
    rintro ⟨-, hnone | hsame⟩
    · cases hnone
    · cases hsame
  · exact (failed_call_intact_iff _ _ hawaiting).2.2.1 _ rfl

/-- A data receipt before the receipt of the only block is refused with an error, and yet the
sender's state becomes final. The handler of the receipt does not set the state. -/
theorem early_dataReceived_changes_state :
    (do
      let s ← newSender id (some ⟨[100]⟩) (newBlockReader (.ofBytes [7]) 1 ⟨1, by decide⟩)
      let (s, _, _) ← Peer.side.write s
      let (s, _, _) ← Peer.side.write s
      let (s, _) ← Peer.side.read s .acknowledge
      let (before, _, _) ← Peer.side.write s
      let (after, err) ← Peer.side.read before .dataReceived
      return (before.client.state, err, after.client.state)) =
      (.ok (needDataReceived, some .invalidDataReceived, done) : Go _) := rfl

end ProjektCore.Transfer
