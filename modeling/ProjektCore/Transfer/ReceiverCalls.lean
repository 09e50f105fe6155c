import ProjektCore.Protocol.Solo
import ProjektCore.Transfer.Receiver

/-!
# The calls on a receiver

What a call on a receiver can do, whatever its store and its peer do. `ReceiverWrite` lists the
writes that return and `ReceiverRead` the reads that return. A read that returns an error may still
have moved the receiver on: a refused header leads to its acknowledgement, and a refused block to an
answer that does not exist.
-/

namespace ProjektCore.Transfer

open Foundation Protocol

/-- The writes of a receiver that return: phase, fields, message and error. -/
inductive ReceiverWrite :
    ReceiverPhase → ReceiverFields → ReceiverPhase → ReceiverFields → Any Message → Option Err → Prop
  | acknowledge {fields : ReceiverFields} :
      ReceiverWrite .sendAcknowledge fields .needBlock fields (some .acknowledge) none
  | received {fields : ReceiverFields} {b : Block} {phase : ReceiverPhase} (last : fields.lastBlock = some b)
      (next : { fields with lastBlock := none }.afterAnswer ReceiverPhase.handleBlock .needDataSent .needBlock =
        .ok phase) :
      ReceiverWrite .handleBlock fields phase { fields with lastBlock := none } (some (.blockReceived b.index)) none
  | redo {fields : ReceiverFields} {index : ℕ} {rest : List ℕ} {phase : ReceiverPhase}
      (last : fields.lastBlock = none) (redo : fields.redoBlocks = some (index :: rest))
      (next : { fields with redoBlocks := if rest.length = 0 then none else some rest }.afterAnswer
        ReceiverPhase.handleBlock .needDataSent .needBlock = .ok phase) :
      ReceiverWrite .handleBlock fields phase { fields with redoBlocks := if rest.length = 0 then none else some rest }
        (some (.redoBlock index)) none
  | dataReceived {fields : ReceiverFields} :
      ReceiverWrite .sendDataReceived fields .done fields (some .dataReceived) none
  | abort {fields : ReceiverFields} :
      ReceiverWrite .sendAbort fields .aborted fields (some .abort) none
  | nothing {phase : ReceiverPhase} {fields : ReceiverFields} (silent : phase.canWrite = false) :
      ReceiverWrite phase fields phase fields none (some .nothingToWrite)

/-- How a stored block moves a receiver on, by the next index and the requested blocks: it was
awaited, or all blocks between the awaited one and it are requested. -/
inductive Advance (fields : ReceiverFields) (b : Block) : ℕ → Option (List ℕ) → Prop
  | awaited (index : b.index = fields.nextBlockIndex) :
      Advance fields b (fields.nextBlockIndex + 1) fields.redoBlocks
  | ahead (index : fields.nextBlockIndex < b.index) :
      Advance fields b fields.nextBlockIndex
        (some (List.range' fields.nextBlockIndex (b.index - fields.nextBlockIndex)))

/-- The reads of a receiver that return: phase, fields, message and error. -/
inductive ReceiverRead (sha256 : Bytes → Bytes) :
    ReceiverPhase → ReceiverFields → Message → ReceiverPhase → ReceiverFields → Option Err → Prop
  | header {fields : ReceiverFields} {header : Header} {metadata : Metadata} {store : Store}
      {blockSize : Size} (hasMetadata : header.metadata = some metadata)
      (size : blockSize.bytes = header.blockSize)
      (created : fields.writerFactory metadata header.totalSize = .ok store) :
      ReceiverRead sha256 .initialized fields (.header header) .sendAcknowledge
        { fields with writer := some (newWriter store header.totalSize blockSize), header := some header } none
  | badHeader {fields : ReceiverFields} {header : Header} {err : Err} :
      ReceiverRead sha256 .initialized fields (.header header) .sendAcknowledge fields (Client.readError (some err))
  | stored {fields : ReceiverFields} {b : Block} {w w' : Writer} {next : ℕ} {redo : Option (List ℕ)}
      (writer : fields.writer = some w) (written : w.writeBlock sha256 b = .ok (w', none))
      (advance : Advance fields b next redo) :
      ReceiverRead sha256 .needBlock fields (.block (some b)) .handleBlock
        { fields with writer := some w', nextBlockIndex := next, lastBlock := some b, redoBlocks := redo } none
  | again {fields : ReceiverFields} {b : Block} {w w' : Writer} (writer : fields.writer = some w)
      (refused : w.writeBlock sha256 b = .ok (w', some .badBlockChecksum)) :
      ReceiverRead sha256 .needBlock fields (.block (some b)) .handleBlock
        { fields with writer := some w', redoBlocks := some [b.index] } none
  | refused {fields : ReceiverFields} {b : Block} {w w' : Writer} {err : Err}
      (writer : fields.writer = some w) (refused : w.writeBlock sha256 b = .ok (w', some err)) :
      ReceiverRead sha256 .needBlock fields (.block (some b)) .handleBlock { fields with writer := some w' }
        (Client.readError (some err))
  | dataSent {fields : ReceiverFields} :
      ReceiverRead sha256 .needDataSent fields .dataSent .sendDataReceived fields none
  | unexpected {phase : ReceiverPhase} {fields : ReceiverFields} {message : Message} :
      ReceiverRead sha256 phase fields message phase fields (some .unexpectedMessage)

section Cases

variable {sha256 : Bytes → Bytes} {phase phase' : ReceiverPhase} {fields fields' : ReceiverFields}
  {message : Message} {err : Option Err}

/-- Where an answer leads. -/
theorem ReceiverFields.afterAnswer_cases
    (h : fields.afterAnswer ReceiverPhase.handleBlock .needDataSent .needBlock = .ok phase) :
    fields.redoBlocks.isSome = true ∧ phase = .handleBlock ∨
      fields.redoBlocks = none ∧ ∃ w, fields.writer = some w ∧
        (w.isDone = true ∧ phase = .needDataSent ∨ w.isDone = false ∧ phase = .needBlock) := by
  unfold afterAnswer at h
  split at h
  · rename_i hredo
    exact .inl ⟨hredo, (Except.ok.inj h).symm⟩
  · rename_i hredo
    rw [Bool.not_eq_true, Option.isSome_eq_false_iff, Option.isNone_iff_eq_none] at hredo
    refine .inr ⟨hredo, ?_⟩
    split at h
    · simp [panicRuntime] at h
    · rename_i w hw
      refine ⟨w, hw, ?_⟩
      cases hdone : w.isDone with
      | true =>
        rw [hdone] at h
        exact .inl ⟨rfl, (Except.ok.inj h).symm⟩
      | false =>
        rw [hdone] at h
        exact .inr ⟨rfl, (Except.ok.inj h).symm⟩

/-- The answers to a block. -/
theorem ReceiverPhase.answerBlock_cases {message : Any Message}
    (h : ReceiverPhase.answerBlock fields = .ok (phase', fields', message, err)) :
    ReceiverWrite .handleBlock fields phase' fields' message err := by
  simp only [ReceiverPhase.answerBlock, Call.bind_eq_ok] at h
  obtain ⟨⟨after, answer⟩, hanswer, next, hnext, h⟩ := h
  unfold ReceiverFields.answer at hanswer
  split at hanswer
  · rename_i b _ hlast
    simp only [Except.ok.injEq, Prod.mk.injEq] at hanswer
    obtain ⟨rfl, rfl⟩ := hanswer
    simp only [Option.isNone_some, Bool.false_eq_true, if_false, Call.pure_eq_ok, Except.ok.injEq,
      Prod.mk.injEq] at h
    obtain ⟨rfl, rfl, rfl, rfl⟩ := h
    exact .received hlast hnext
  · rename_i hlast hredo
    simp only [Except.ok.injEq, Prod.mk.injEq] at hanswer
    obtain ⟨rfl, rfl⟩ := hanswer
    simp only [Option.isNone_some, Bool.false_eq_true, if_false, Call.pure_eq_ok, Except.ok.injEq,
      Prod.mk.injEq] at h
    obtain ⟨rfl, rfl, rfl, rfl⟩ := h
    exact .redo hlast hredo hnext
  · simp [panicRuntime] at hanswer
  · simp only [Except.ok.injEq, Prod.mk.injEq] at hanswer
    obtain ⟨-, rfl⟩ := hanswer
    simp [panicText] at h

/-- Every write of a receiver that returns is listed. -/
theorem ReceiverPhase.write_cases {message : Any Message}
    (h : phase.write fields = .ok (phase', fields', message, err)) :
    ReceiverWrite phase fields phase' fields' message err := by
  cases phase with
  | handleBlock => exact ReceiverPhase.answerBlock_cases h
  | sendAcknowledge =>
    obtain ⟨rfl, rfl, rfl, rfl⟩ := by simpa only [ReceiverPhase.write, Except.ok.injEq, Prod.mk.injEq] using h
    exact .acknowledge
  | sendDataReceived =>
    obtain ⟨rfl, rfl, rfl, rfl⟩ := by simpa only [ReceiverPhase.write, Except.ok.injEq, Prod.mk.injEq] using h
    exact .dataReceived
  | sendAbort =>
    obtain ⟨rfl, rfl, rfl, rfl⟩ := by simpa only [ReceiverPhase.write, Except.ok.injEq, Prod.mk.injEq] using h
    exact .abort
  | _ =>
    obtain ⟨rfl, rfl, rfl, rfl⟩ := by simpa only [ReceiverPhase.write, Except.ok.injEq, Prod.mk.injEq] using h
    exact .nothing rfl

/-- A header is accepted, or refused without a change of the fields. -/
theorem ReceiverFields.readHeader_cases {header : Header}
    (h : fields.readHeader header = (fields', err)) :
    ReceiverRead sha256 .initialized fields (.header header) .sendAcknowledge fields' (Client.readError err) := by
  unfold readHeader at h
  split at h
  · obtain ⟨rfl, rfl⟩ := Prod.mk.inj h
    exact .badHeader
  · rename_i metadata hmetadata
    split at h
    · obtain ⟨rfl, rfl⟩ := Prod.mk.inj h
      exact .badHeader
    · split at h
      · obtain ⟨rfl, rfl⟩ := Prod.mk.inj h
        exact .badHeader
      · rename_i store hstore
        obtain ⟨rfl, rfl⟩ := Prod.mk.inj h
        exact .header hmetadata rfl hstore

/-- A block is stored, requested again or refused. -/
theorem ReceiverFields.readBlock_cases {block : Option Block}
    (h : fields.readBlock sha256 block = .ok (fields', err)) :
    ReceiverRead sha256 .needBlock fields (.block block) .handleBlock fields' (Client.readError err) := by
  unfold readBlock at h
  split at h
  · rename_i b w hwriter
    simp only [Call.bind_eq_ok] at h
    obtain ⟨⟨w', outcome⟩, hwrite, h⟩ := h
    simp only at h
    split at h
    · rename_i hbad
      simp only [Call.pure_eq_ok, Except.ok.injEq, Prod.mk.injEq] at h
      obtain ⟨rfl, rfl⟩ := h
      rw [hbad] at hwrite
      exact .again hwriter hwrite
    · cases outcome with
      | some e =>
        simp only [Option.isSome_some, if_true, Call.pure_eq_ok, Except.ok.injEq,
          Prod.mk.injEq] at h
        obtain ⟨rfl, rfl⟩ := h
        exact .refused hwriter hwrite
      | none =>
        simp only [Option.isSome_none, Bool.false_eq_true, if_false] at h
        split at h
        · rename_i hahead
          simp only [Call.pure_eq_ok, Except.ok.injEq, Prod.mk.injEq] at h
          obtain ⟨rfl, rfl⟩ := h
          exact .stored hwriter hwrite (.ahead hahead)
        · rename_i hahead
          split at h
          · simp [panicText] at h
          · rename_i hbehind
            simp only [Call.pure_eq_ok, Except.ok.injEq, Prod.mk.injEq] at h
            obtain ⟨rfl, rfl⟩ := h
            exact .stored hwriter hwrite (.awaited (by omega))
  · simp [panicRuntime] at h

/-- Every read of a receiver that returns is listed. -/
theorem ReceiverPhase.read_cases
    (h : phase.read sha256 fields message = .ok (phase', fields', err)) :
    ReceiverRead sha256 phase fields message phase' fields' err := by
  unfold ReceiverPhase.read at h
  split at h
  · simp [panicError] at h
  · obtain ⟨err', hresult, rfl, rfl⟩ := moveTo_returns h
    exact ReceiverFields.readHeader_cases (Except.ok.inj hresult)
  · obtain ⟨err', hresult, rfl, rfl⟩ := moveTo_returns h
    exact ReceiverFields.readBlock_cases hresult
  · simp only [Except.ok.injEq, Prod.mk.injEq] at h
    obtain ⟨rfl, rfl, rfl⟩ := h
    exact .dataSent
  · simp only [Except.ok.injEq, Prod.mk.injEq] at h
    obtain ⟨rfl, rfl, rfl⟩ := h
    exact .unexpected

end Cases

/-- The total size of a header stays below a limit. -/
def totalSizeBelow (limit : ℕ) : SideCall Message → Bool
  | .read (.header header) => header.totalSize < limit
  | _ => true

end ProjektCore.Transfer
