import ProjektCore.Protocol.Solo
import ProjektCore.Transfer.Sender

/-!
# The calls on a sender

What a call on a sender can do, whatever its store and its peer do. `SenderWrite` lists the writes
that return, `SenderRead` the reads that are accepted; a read that returns an error leaves the
fields alone, and a read panics exactly on an index that no block has.
-/

namespace ProjektCore.Transfer

open Foundation Protocol

namespace SenderPhase

/-- The phases in which blocks are written. -/
def sendsBlocks : SenderPhase → Bool
  | .inPrologue | .inProgress => true
  | _ => false

/-- The phase after the last block. -/
def afterLast : SenderPhase → SenderPhase
  | .inPrologue => .needAcknowledge
  | _ => .transferred

/-- The phases in which answers to blocks are read. -/
def takesAnswers : SenderPhase → Bool
  | .inProgress | .transferred | .needDataReceived => true
  | _ => false

end SenderPhase

namespace SenderFields

/-- The fields with another reader. -/
def withReader (fields : SenderFields) (reader : Reader) :
    SenderFields := { fields with reader := reader }

/-- The fields after the receipt of a block was recorded. -/
def acknowledged (fields : SenderFields) (index : ℕ) : SenderFields :=
  { fields with received := fields.received.set index true, receivedCount := fields.receivedCount + 1 }

/-- The fields after a block was queued again. -/
def requested (fields : SenderFields) (index : ℕ) : SenderFields :=
  fields.withReader { fields.reader with redoBlocks := fields.reader.redoBlocks ++ [index] }

end SenderFields

/-- The writes of a sender that return: phase, fields, message and error. -/
inductive SenderWrite (sha256 : Bytes → Bytes) :
    SenderPhase → SenderFields → SenderPhase → SenderFields → Any Message → Option Err → Prop
  | header {fields : SenderFields} :
      SenderWrite sha256 .initialized fields .inPrologue fields (some (.header fields.createHeader)) none
  | block {phase : SenderPhase} {fields : SenderFields} {store : Store} {b : Block}
      (sends : phase.sendsBlocks = true) (hasData : fields.reader.isDone = false)
      (inside : fields.reader.offset fields.reader.upcoming < fields.reader.totalSize)
      (used : fields.reader.reader.Used store)
      (block : fields.reader.blockOf sha256 fields.reader.upcoming = some b) :
      SenderWrite sha256 phase fields (if fields.reader.advanced.isDone then phase.afterLast else phase)
        (fields.withReader (fields.reader.advanced.withStore store)) (some (.block (some b))) none
  | failed {phase : SenderPhase} {fields : SenderFields} {store : Store} (err : Err)
      (sends : phase.sendsBlocks = true) (used : fields.reader.reader.Used store) :
      SenderWrite sha256 phase fields phase (fields.withReader (fields.reader.withStore store))
        (some (.block none)) (some err)
  | dataSent {fields : SenderFields} :
      SenderWrite sha256 .transferred fields .needDataReceived fields (some .dataSent) none
  | abort {fields : SenderFields} :
      SenderWrite sha256 .sendAbort fields .aborted fields (some .abort) none
  | nothing {phase : SenderPhase} {fields : SenderFields} (silent : phase.canWrite = false) :
      SenderWrite sha256 phase fields phase fields none (some .nothingToWrite)

/-- The reads of a sender that are accepted: phase, fields and message. -/
inductive SenderRead : SenderPhase → SenderFields → Message → SenderPhase → SenderFields → Prop
  | prologueEnds {fields : SenderFields} :
      SenderRead .inPrologue fields .acknowledge .inProgress fields
  | allSent {fields : SenderFields} :
      SenderRead .needAcknowledge fields .acknowledge .transferred fields
  | received {phase : SenderPhase} {fields : SenderFields} {index : ℕ}
      (takes : phase.takesAnswers = true) (missing : fields.received[index]? = some false) :
      SenderRead phase fields (.blockReceived index) phase (fields.acknowledged index)
  | redo {phase : SenderPhase} {fields : SenderFields} {index : ℕ}
      (takes : phase.takesAnswers = true) (missing : fields.received[index]? = some false)
      (inside : fields.reader.offset index < fields.reader.totalSize)
      (written : index < fields.reader.nextIndex) (single : index ∉ fields.reader.redoBlocks) :
      SenderRead phase fields (.redoBlock index) .inProgress (fields.requested index)
  | dataReceived {fields : SenderFields}
      (complete : fields.reader.blockCount ≤ fields.receivedCount) :
      SenderRead .needDataReceived fields .dataReceived .done fields
  | abort {phase : SenderPhase} {fields : SenderFields} (running : phase ≠ .done) :
      SenderRead phase fields .abort .aborted fields

section Writes

variable {sha256 : Bytes → Bytes} {phase phase' : SenderPhase} {fields fields' : SenderFields}
  {message : Any Message} {err : Option Err}

/-- A block that is written or cannot be read. -/
theorem SenderPhase.writeBlock_cases (hsends : phase.sendsBlocks = true)
    (h : phase.writeBlock sha256 fields phase phase.afterLast = .ok (phase', fields', message, err)) :
    SenderWrite sha256 phase fields phase' fields' message err := by
  simp only [SenderPhase.writeBlock, SenderFields.nextBlock, Reader.hasData, Bool.not_not] at h
  cases hdone : fields.reader.isDone with
  | true => simp [hdone, panicText] at h
  | false =>
    rcases hnext : fields.reader.nextBlock sha256 with value | result
    · simp [hdone, hnext] at h
    · simp only [hdone, hnext, Bool.false_eq_true, if_false, Call.ok_bind, Call.pure_eq_ok,
        Except.ok.injEq, Prod.mk.injEq] at h
      obtain ⟨rfl, rfl, rfl, rfl⟩ := h
      cases Reader.nextBlock_outcome hdone hnext with
      | failed err hused => exact .failed err hsends hused
      | read hinside hused hblock => exact .block hsends hdone hinside hused hblock

/-- Every write of a sender that returns is listed. -/
theorem SenderPhase.write_cases
    (h : phase.write sha256 fields = .ok (phase', fields', message, err)) :
    SenderWrite sha256 phase fields phase' fields' message err := by
  cases phase with
  | inPrologue => exact SenderPhase.writeBlock_cases rfl h
  | inProgress => exact SenderPhase.writeBlock_cases rfl h
  | initialized =>
    obtain ⟨rfl, rfl, rfl, rfl⟩ := by simpa only [SenderPhase.write, Except.ok.injEq, Prod.mk.injEq] using h
    exact .header
  | transferred =>
    obtain ⟨rfl, rfl, rfl, rfl⟩ := by simpa only [SenderPhase.write, Except.ok.injEq, Prod.mk.injEq] using h
    exact .dataSent
  | sendAbort =>
    obtain ⟨rfl, rfl, rfl, rfl⟩ := by simpa only [SenderPhase.write, Except.ok.injEq, Prod.mk.injEq] using h
    exact .abort
  | _ =>
    obtain ⟨rfl, rfl, rfl, rfl⟩ := by simpa only [SenderPhase.write, Except.ok.injEq, Prod.mk.injEq] using h
    exact .nothing rfl

/-- Writing a block is reading it and moving on after the last one. -/
theorem SenderPhase.write_of_nextBlock (hsends : phase.sendsBlocks = true)
    (hdata : fields.reader.isDone = false) {reader : Reader} {block : Option Block}
    (hnext : fields.reader.nextBlock sha256 = .ok (reader, block, err)) :
    phase.write sha256 fields =
      .ok (if err.isSome then phase else if reader.isDone then phase.afterLast else phase,
        fields.withReader reader, some (.block block), err) := by
  have hblock : phase.writeBlock sha256 fields phase phase.afterLast =
      .ok (if err.isSome then phase else if reader.isDone then phase.afterLast else phase,
        fields.withReader reader, some (.block block), err) := by
    simp only [SenderPhase.writeBlock, SenderFields.nextBlock, Reader.hasData, hdata, hnext,
      Bool.not_false, Bool.not_true, Bool.false_eq_true, if_false, Call.ok_bind, Call.pure_eq_ok]
    rfl
  cases phase with
  | inPrologue => exact hblock
  | inProgress => exact hblock
  | _ => cases hsends

/-- A write returns unless a block is due and the reader has none to read. -/
theorem SenderPhase.write_returns (sha256 : Bytes → Bytes)
    (hdata : phase.sendsBlocks = true → fields.reader.isDone = false)
    (hinside : phase.sendsBlocks = true →
      fields.reader.offset fields.reader.upcoming < fields.reader.totalSize) :
    ∃ result, phase.write sha256 fields = .ok result := by
  cases hsends : phase.sendsBlocks with
  | true =>
    obtain ⟨⟨reader, block, err⟩, hnext⟩ := Reader.nextBlock_returns sha256 (hdata hsends) (hinside hsends)
    exact ⟨_, SenderPhase.write_of_nextBlock hsends (hdata hsends) hnext⟩
  | false =>
    cases phase with
    | inPrologue => cases hsends
    | inProgress => cases hsends
    | _ => exact ⟨_, rfl⟩

end Writes

section Reads

variable {phase phase' : SenderPhase} {fields fields' : SenderFields} {message : Message}

/-- An accepted receipt of a block. -/
theorem SenderFields.blockReceived_accepted {index : ℕ}
    (h : fields.blockReceived index = .ok (fields', none)) :
    fields.received[index]? = some false ∧ fields' = fields.acknowledged index := by
  unfold SenderFields.blockReceived at h
  split at h
  · simp [panicRuntime] at h
  · simp at h
  · rename_i hmissing
    split at h
    · simp [panicText] at h
    · obtain ⟨rfl, -⟩ := by simpa using h
      exact ⟨hmissing, rfl⟩

/-- An accepted request of a block. -/
theorem SenderFields.redoBlock_accepted {index : ℕ}
    (h : fields.redoBlock index = .ok (fields', none)) :
    fields.received[index]? = some false ∧ fields.reader.offset index < fields.reader.totalSize ∧
      index < fields.reader.nextIndex ∧ index ∉ fields.reader.redoBlocks ∧ fields' = fields.requested index := by
  unfold SenderFields.redoBlock Reader.redoBlock at h
  split at h
  · simp [panicRuntime] at h
  · simp at h
  · rename_i hmissing
    by_cases hunwritten : index ≥ fields.reader.nextBlockIndex
    · simp [if_pos hunwritten] at h
    · have hwritten : index < fields.reader.nextIndex := Nat.not_le.mp hunwritten
      simp only [if_neg hunwritten] at h
      by_cases hinside : fields.reader.offset index ≥ fields.reader.totalSize
      · simp [if_pos hinside] at h
      · simp only [if_neg hinside, if_neg (Nat.not_le.mpr hwritten)] at h
        by_cases hdup : index ∈ fields.reader.redoBlocks
        · simp [if_pos hdup] at h
        · simp only [if_neg hdup, Except.ok.injEq, Prod.mk.injEq] at h
          exact ⟨hmissing, Nat.not_le.mp hinside, hwritten, hdup, h.1.symm⟩

/-- Every read of a sender that is accepted is listed. -/
theorem SenderPhase.read_cases (h : phase.read fields message = .ok (phase', fields', none)) :
    SenderRead phase fields message phase' fields' := by
  have hreceived {index : ℕ} (htakes : phase.takesAnswers = true)
      (hr : moveTo phase (fields.blockReceived index) = .ok (phase', fields', none)) :
      SenderRead phase fields (.blockReceived index) phase' fields' := by
    obtain ⟨rfl, hcall⟩ := moveTo_eq_ok.mp hr
    obtain ⟨hmissing, rfl⟩ := SenderFields.blockReceived_accepted hcall
    exact .received htakes hmissing
  have hredo {index : ℕ} (htakes : phase.takesAnswers = true)
      (hr : moveTo .inProgress (fields.redoBlock index) = .ok (phase', fields', none)) :
      SenderRead phase fields (.redoBlock index) phase' fields' := by
    obtain ⟨rfl, hcall⟩ := moveTo_eq_ok.mp hr
    obtain ⟨hmissing, hinside, hwritten, hsingle, rfl⟩ := SenderFields.redoBlock_accepted hcall
    exact .redo htakes hmissing hinside hwritten hsingle
  unfold SenderPhase.read at h
  split at h
  · simp [panicError] at h
  · obtain ⟨rfl, rfl, -⟩ := by simpa using h
    exact .prologueEnds
  · obtain ⟨rfl, rfl, -⟩ := by simpa using h
    exact .allSent
  · exact hreceived rfl h
  · exact hreceived rfl h
  · exact hreceived rfl h
  · exact hredo rfl h
  · exact hredo rfl h
  · exact hredo rfl h
  · obtain ⟨rfl, hr⟩ := moveTo_eq_ok.mp h
    simp only [SenderFields.dataReceived, Except.ok.injEq, Prod.mk.injEq] at hr
    obtain ⟨rfl, hcount⟩ := hr
    split at hcount
    · simp at hcount
    · exact .dataReceived (by omega)
  · simp at h
  · simp at h
  · rename_i hdone _
    obtain ⟨rfl, rfl, -⟩ := by simpa using h
    exact .abort hdone
  · simp at h

/-- A refused receipt of a block changes nothing. -/
theorem SenderFields.blockReceived_refused {index : ℕ} {err : Err}
    (h : fields.blockReceived index = .ok (fields', some err)) : fields' = fields := by
  unfold SenderFields.blockReceived at h
  split at h
  · simp [panicRuntime] at h
  · simp only [Except.ok.injEq, Prod.mk.injEq] at h
    exact h.1.symm
  · split at h
    · simp [panicText] at h
    · simp at h

/-- A refused request of a block changes nothing. -/
theorem SenderFields.redoBlock_refused {index : ℕ} {err : Err}
    (h : fields.redoBlock index = .ok (fields', some err)) : fields' = fields := by
  unfold SenderFields.redoBlock Reader.redoBlock at h
  split at h
  · simp [panicRuntime] at h
  · simp only [Except.ok.injEq, Prod.mk.injEq] at h
    exact h.1.symm
  · by_cases hunwritten : index ≥ fields.reader.nextBlockIndex
    · simp only [if_pos hunwritten, Except.ok.injEq, Prod.mk.injEq] at h
      exact h.1.symm
    · have hwritten : index < fields.reader.nextIndex := Nat.not_le.mp hunwritten
      simp only [if_neg hunwritten] at h
      by_cases hinside : fields.reader.offset index ≥ fields.reader.totalSize
      · simp only [if_pos hinside, Except.ok.injEq, Prod.mk.injEq] at h
        exact h.1.symm
      · simp only [if_neg hinside, if_neg (Nat.not_le.mpr hwritten)] at h
        by_cases hdup : index ∈ fields.reader.redoBlocks
        · simp only [if_pos hdup, Except.ok.injEq, Prod.mk.injEq] at h
          exact h.1.symm
        · simp [if_neg hdup] at h

/-- A read that returns an error leaves the fields alone. -/
theorem SenderPhase.read_refused {err : Err}
    (h : phase.read fields message = .ok (phase', fields', some err)) :
    fields' = fields := by
  have hreceived {index : ℕ} {next : SenderPhase}
      (hr : moveTo next (fields.blockReceived index) = .ok (phase', fields', some err)) : fields' = fields := by
    obtain ⟨err', hcall⟩ := moveTo_refused hr
    exact SenderFields.blockReceived_refused hcall
  have hredo {index : ℕ} {next : SenderPhase}
      (hr : moveTo next (fields.redoBlock index) = .ok (phase', fields', some err)) : fields' = fields := by
    obtain ⟨err', hcall⟩ := moveTo_refused hr
    exact SenderFields.redoBlock_refused hcall
  unfold SenderPhase.read at h
  split at h
  · simp [panicError] at h
  · simp at h
  · simp at h
  · exact hreceived h
  · exact hreceived h
  · exact hreceived h
  · exact hredo h
  · exact hredo h
  · exact hredo h
  · obtain ⟨err', hcall⟩ := moveTo_refused h
    simp only [Except.ok.injEq, Prod.mk.injEq] at hcall
    exact hcall.1.symm
  · simp only [Except.ok.injEq, Prod.mk.injEq] at h
    exact h.2.1.symm
  · simp only [Except.ok.injEq, Prod.mk.injEq] at h
    exact h.2.1.symm
  · simp at h
  · simp only [Except.ok.injEq, Prod.mk.injEq] at h
    exact h.2.1.symm

/-- The panic of an index that no block has. -/
def indexPanic : Panic Err := .runtime "index out of range"

/-- The receipt of a block panics exactly on an index that no block has, as long as a missing
receipt leaves room in the count. -/
theorem SenderFields.blockReceived_panics_iff {index : ℕ} {value : Panic Err}
    (hcount : false ∈ fields.received → fields.receivedCount + 1 ≤ fields.reader.blockCount) :
    fields.blockReceived index = .error value ↔ fields.received.length ≤ index ∧ value = indexPanic := by
  rw [← List.getElem?_eq_none_iff]
  unfold SenderFields.blockReceived
  rcases hbit : fields.received[index]? with _ | _ | _
  · simp [panicRuntime, indexPanic, eq_comm]
  · simp [Nat.not_lt.mpr (hcount (List.mem_of_getElem? hbit))]
  · simp

/-- The request of a block panics exactly on an index that no block has. -/
theorem SenderFields.redoBlock_panics_iff {index : ℕ} {value : Panic Err} :
    fields.redoBlock index = .error value ↔ fields.received.length ≤ index ∧ value = indexPanic := by
  rw [← List.getElem?_eq_none_iff]
  unfold SenderFields.redoBlock
  rcases hbit : fields.received[index]? with _ | _ | _
  · simp [panicRuntime, indexPanic, eq_comm]
  · by_cases hunwritten : index ≥ fields.reader.nextBlockIndex
    · simp [if_pos hunwritten]
    · simp only [if_neg hunwritten]
      rcases fields.reader.redoBlock index with ⟨reader, queued, _ | err⟩ <;> simp
  · simp

/-- A message about a block that does not exist. -/
def Message.pointsBehind (count : ℕ) : Message → Bool
  | .blockReceived index | .redoBlock index => count ≤ index
  | _ => false

/-- A read panics exactly if it takes an answer about a block that does not exist. -/
theorem SenderPhase.read_panics_iff (hother : message ≠ .other)
    (hcount : false ∈ fields.received → fields.receivedCount + 1 ≤ fields.reader.blockCount)
    {value : Panic Err} :
    phase.read fields message = .error value ↔
      (phase.takesAnswers = true ∧ message.pointsBehind fields.received.length = true) ∧ value = indexPanic := by
  cases message with
  | other => exact absurd rfl hother
  | blockReceived index =>
    cases phase <;> simp [SenderPhase.read, SenderPhase.takesAnswers, Message.pointsBehind, moveTo_panics,
      SenderFields.blockReceived_panics_iff hcount]
  | redoBlock index =>
    cases phase <;> simp [SenderPhase.read, SenderPhase.takesAnswers, Message.pointsBehind, moveTo_panics,
      SenderFields.redoBlock_panics_iff]
  | dataReceived =>
    cases phase <;> simp [SenderPhase.read, SenderPhase.takesAnswers, Message.pointsBehind, moveTo_panics]
  | _ => cases phase <;> simp [SenderPhase.read, Message.pointsBehind]

end Reads

end ProjektCore.Transfer
