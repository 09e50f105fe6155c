import ProjektCore.Transfer.Counters

/-!
# The sides of an honest transfer

What the fields of each side are after a number of messages, and that each write and each read of a
side that is due succeeds, takes the next message of the fixed sequence and moves its counter.
-/

namespace ProjektCore.Transfer

open Foundation Protocol

section Sides

variable (sha256 : Bytes → Bytes) (data : Bytes) (s : Size) (metadata : Metadata) (factory : WriterFactory)

/-- The number of blocks of the data. -/
abbrev blocks : ℕ := s.blockCount data.length

/-- The messages of the sender in their order. -/
def senderMessage (k : ℕ) : Message :=
  if k = 0 then .header ⟨some metadata, data.length, s.bytes⟩
  else if k ≤ blocks data s then .block (some (blockAt sha256 data s (k - 1)))
  else .dataSent

/-- The answers of the receiver in their order. -/
def receiverMessage (k : ℕ) : Message :=
  if k = 0 then .acknowledge
  else if k ≤ blocks data s then .blockReceived (k - 1)
  else .dataReceived

/-- The fields of the sender after it sent and collected some messages. -/
structure SenderFieldsAt (sent collected : ℕ) (fields : SenderFields) : Prop where
  reader : Reader.Over data s fields.reader
  noRedo : fields.reader.redoBlocks = []
  next : fields.reader.nextIndex = min (sent - 1) (blocks data s)
  received : fields.received = marks (blocks data s) (min (collected - 1) (blocks data s))
  count : fields.receivedCount = min (collected - 1) (blocks data s)
  metadata : fields.metadata = some metadata

/-- The fields of the receiver after it read and answered some messages. -/
structure ReceiverFieldsAt (delivered answered : ℕ) (fields : ReceiverFields) : Prop where
  factory : fields.writerFactory = factory
  writer : 0 < delivered → ∃ w, fields.writer = some w ∧ Writer.Copies data s w ∧
    w.written = marks (blocks data s) (min (delivered - 1) (blocks data s))
  next : fields.nextBlockIndex = min (delivered - 1) (blocks data s)
  last : fields.lastBlock =
    if answered < delivered ∧ 2 ≤ delivered ∧ delivered ≤ blocks data s + 1 then
      some (blockAt sha256 data s (delivered - 2))
    else none
  noRedo : fields.redoBlocks = none

variable {sha256 data s metadata factory}

/-- The sender can write as long as messages are left, except that it waits for the acknowledge. -/
theorem canWrite_senderPhaseAt {sent collected : ℕ} (hle : sent ≤ blocks data s + 2) :
    (senderPhaseAt (blocks data s) sent collected).canWrite = true ↔
      sent ≤ blocks data s ∨ (sent = blocks data s + 1 ∧ 0 < collected) := by
  unfold senderPhaseAt
  split_ifs <;> simp only [SenderPhase.canWrite, true_iff, Bool.false_eq_true, false_iff] <;> omega

/-- The receiver can write exactly if a message is not answered. -/
theorem canWrite_receiverPhaseAt {delivered answered : ℕ} :
    (receiverPhaseAt (blocks data s) delivered answered).canWrite = true ↔ answered < delivered := by
  unfold receiverPhaseAt
  split_ifs <;> simp only [ReceiverPhase.canWrite, true_iff, Bool.false_eq_true, false_iff] <;> omega

/-- The sender's next block is the one of its counter. -/
theorem SenderFieldsAt.nextBlock (sha256 : Bytes → Bytes) (hfits : s.Fits data.length)
    {sent collected : ℕ} {fields : SenderFields}
    (h : SenderFieldsAt data s metadata sent collected fields) (hpos : 0 < sent)
    (hle : sent ≤ blocks data s) :
    ∃ fields', fields.nextBlock sha256 = .ok (fields', some (blockAt sha256 data s (sent - 1)), none) ∧
      SenderFieldsAt data s metadata (sent + 1) collected fields' ∧
      (fields'.reader.isDone = true ↔ sent = blocks data s) := by
  have hindex : fields.reader.nextIndex = sent - 1 := by
    rw [h.next]
    omega
  have hmore : fields.reader.nextIndex < s.blockCount data.length := by
    rw [hindex]
    change sent ≤ s.blockCount data.length at hle
    omega
  have hdata : fields.reader.hasData = true := by
    rw [Reader.hasData, Bool.not_eq_true', Bool.eq_false_iff]
    intro hdone
    have hend := ((h.reader.isDone_iff hfits).mp hdone).2
    omega
  have hnext := h.reader.nextBlock_new sha256 hfits h.noRedo hmore
  have hover := (h.reader.nextBlock hfits hnext).1
  have hindex' : fields.reader.nextIndex + 1 = sent := by omega
  refine ⟨{ fields with reader := _ }, ?_, ⟨hover, h.noRedo, ?_, h.received, h.count, h.metadata⟩, ?_⟩
  · simp only [SenderFields.nextBlock, hdata, hnext, Bool.not_true, Bool.false_eq_true, if_false,
      Call.ok_bind, Call.pure_eq_ok, hindex]
  · change fields.reader.nextIndex + 1 = min (sent + 1 - 1) (blocks data s)
    omega
  · rw [hover.isDone_iff hfits]
    change fields.reader.redoBlocks = [] ∧ fields.reader.nextIndex + 1 = blocks data s ↔ _
    rw [hindex']
    exact and_iff_right h.noRedo

/-- The sender writes the message of its counter. -/
theorem SenderFieldsAt.write (hfits : s.Fits data.length) (hblocks : 0 < blocks data s)
    {sent collected : ℕ} {fields : SenderFields}
    (h : SenderFieldsAt data s metadata sent collected fields) (hcollected : collected ≤ sent)
    (hcan : sent ≤ blocks data s ∨ (sent = blocks data s + 1 ∧ 0 < collected)) :
    ∃ fields', (senderPhaseAt (blocks data s) sent collected).write sha256 fields =
        .ok (senderPhaseAt (blocks data s) (sent + 1) collected, fields',
          some (senderMessage sha256 data s metadata sent), none) ∧
      SenderFieldsAt data s metadata (sent + 1) collected fields' := by
  rcases hcan with hle | ⟨rfl, hpos⟩
  · rcases Nat.eq_zero_or_pos sent with rfl | hpos
    · obtain rfl : collected = 0 := by omega
      refine ⟨fields, ?_, ⟨h.reader, h.noRedo, h.next, h.received, h.count, h.metadata⟩⟩
      have hphase : senderPhaseAt (blocks data s) (0 + 1) 0 = .inPrologue :=
        senderPhaseAt_inPrologue (by omega) hblocks
      have hheader : fields.createHeader = ⟨some metadata, data.length, s.bytes⟩ := by
        rw [SenderFields.createHeader, h.metadata, h.reader.totalSize, h.reader.blockSize]
      rw [hphase, senderMessage, if_pos rfl, ← hheader]
      rfl
    · obtain ⟨fields', hnext, hfields, hdone⟩ := h.nextBlock sha256 hfits hpos hle
      refine ⟨fields', ?_, hfields⟩
      have hmessage : senderMessage sha256 data s metadata sent =
          .block (some (blockAt sha256 data s (sent - 1))) := by
        rw [senderMessage, if_neg (by omega), if_pos hle]
      rcases Nat.eq_zero_or_pos collected with rfl | hc
      · rw [senderPhaseAt_inPrologue hpos hle, hmessage]
        simp only [SenderPhase.write, SenderPhase.writeBlock, hnext]
        by_cases hend : sent = blocks data s
        · rw [senderPhaseAt_needAcknowledge (by omega)]
          simp [hdone.mpr hend]
        · rw [senderPhaseAt_inPrologue (by omega) (by omega)]
          simp [Bool.eq_false_iff.mpr (mt hdone.mp hend)]
      · rw [senderPhaseAt_inProgress hpos hle hc, hmessage]
        simp only [SenderPhase.write, SenderPhase.writeBlock, hnext]
        by_cases hend : sent = blocks data s
        · rw [hend, senderPhaseAt_transferred hc]
          simp [hdone.mpr hend]
        · rw [senderPhaseAt_inProgress (by omega) (by omega) hc]
          simp [Bool.eq_false_iff.mpr (mt hdone.mp hend)]
  · refine ⟨fields, ?_, ⟨h.reader, h.noRedo, ?_, h.received, h.count, h.metadata⟩⟩
    · rw [senderPhaseAt_transferred hpos, senderPhaseAt_needDataReceived hpos (by omega),
        senderMessage, if_neg (by omega), if_neg (by omega)]
      rfl
    · rw [h.next]
      omega

/-- Recording the receipt of the counter's block. -/
theorem SenderFieldsAt.blockReceived {sent collected : ℕ} {fields : SenderFields}
    (h : SenderFieldsAt data s metadata sent collected fields) (hpos : 0 < collected)
    (hle : collected ≤ blocks data s) :
    ∃ fields', fields.blockReceived (collected - 1) = .ok (fields', none) ∧
      SenderFieldsAt data s metadata sent (collected + 1) fields' := by
  have hmin : min (collected - 1) (blocks data s) = collected - 1 := by omega
  have hmin' : min (collected + 1 - 1) (blocks data s) = collected - 1 + 1 := by omega
  have hfree : fields.received[collected - 1]? = some false := by
    rw [h.received, hmin]
    exact marks_getElem? (by omega)
  have hcount : ¬ fields.receivedCount + 1 > fields.reader.blockCount := by
    rw [h.count, hmin, h.reader.blockCount_eq]
    change ¬ collected - 1 + 1 > blocks data s
    omega
  refine ⟨{ fields with
    received := fields.received.set (collected - 1) true, receivedCount := fields.receivedCount + 1 }, ?_,
    ⟨h.reader, h.noRedo, h.next, ?_, ?_, h.metadata⟩⟩
  · simp only [SenderFields.blockReceived, hfree, if_neg hcount]
  · rw [hmin']
    change fields.received.set (collected - 1) true = _
    rw [h.received, hmin]
    exact marks_set (by omega)
  · rw [hmin']
    change fields.receivedCount + 1 = _
    rw [h.count, hmin]

/-- The sender reads the answer of its counter. -/
theorem SenderFieldsAt.read {sent collected : ℕ} {fields : SenderFields}
    (h : SenderFieldsAt data s metadata sent collected fields) (hcollected : collected < sent)
    (hsent : sent ≤ blocks data s + 2) (hack : sent = blocks data s + 2 → 1 ≤ collected) :
    ∃ fields', (senderPhaseAt (blocks data s) sent collected).read fields (receiverMessage data s collected) =
        .ok (senderPhaseAt (blocks data s) sent (collected + 1), fields', none) ∧
      SenderFieldsAt data s metadata sent (collected + 1) fields' := by
  rcases Nat.eq_zero_or_pos collected with rfl | hpos
  · refine ⟨fields, ?_, ⟨h.reader, h.noRedo, h.next, h.received, h.count, h.metadata⟩⟩
    by_cases hle : sent ≤ blocks data s
    · rw [senderPhaseAt_inPrologue hcollected hle,
        senderPhaseAt_inProgress hcollected hle (by omega)]
      rfl
    · obtain rfl : sent = blocks data s + 1 := by omega
      rw [senderPhaseAt_needAcknowledge (by omega), senderPhaseAt_transferred (by omega)]
      rfl
  · by_cases hle : collected ≤ blocks data s
    · obtain ⟨fields', hreceived, hfields⟩ := h.blockReceived hpos hle
      refine ⟨fields', ?_, hfields⟩
      rw [receiverMessage, if_neg (by omega), if_pos hle]
      by_cases hs : sent ≤ blocks data s
      · rw [senderPhaseAt_inProgress (by omega) hs hpos,
          senderPhaseAt_inProgress (by omega) hs (by omega)]
        exact moveTo_eq_ok.mpr ⟨rfl, hreceived⟩
      · by_cases hs' : sent = blocks data s + 1
        · rw [hs', senderPhaseAt_transferred hpos, senderPhaseAt_transferred (by omega)]
          exact moveTo_eq_ok.mpr ⟨rfl, hreceived⟩
        · obtain rfl : sent = blocks data s + 2 := by omega
          rw [senderPhaseAt_needDataReceived hpos (by omega),
            senderPhaseAt_needDataReceived (by omega) (by omega)]
          exact moveTo_eq_ok.mpr ⟨rfl, hreceived⟩
    · obtain rfl : collected = blocks data s + 1 := by omega
      obtain rfl : sent = blocks data s + 2 := by omega
      have hall : ¬ fields.receivedCount < fields.reader.blockCount := by
        rw [h.count, h.reader.blockCount_eq]
        change ¬ min (blocks data s + 1 - 1) (blocks data s) < blocks data s
        omega
      refine ⟨fields, ?_, ⟨h.reader, h.noRedo, h.next, ?_, ?_, h.metadata⟩⟩
      · rw [senderPhaseAt_needDataReceived hpos (by omega), senderPhaseAt_done, receiverMessage,
          if_neg (by omega), if_neg (by omega)]
        refine moveTo_eq_ok.mpr ⟨rfl, ?_⟩
        rw [SenderFields.dataReceived, if_neg hall]
      · rw [h.received]
        congr 1
        omega
      · rw [h.count]
        omega

/-- The receiver answers the message of its counter. -/
theorem ReceiverFieldsAt.write (hblocks : 0 < blocks data s) {delivered : ℕ}
    {fields : ReceiverFields}
    (h : ReceiverFieldsAt sha256 data s factory (delivered + 1) delivered fields)
    (hle : delivered ≤ blocks data s + 1) :
    ∃ fields', (receiverPhaseAt (blocks data s) (delivered + 1) delivered).write fields =
        .ok (receiverPhaseAt (blocks data s) (delivered + 1) (delivered + 1), fields',
          some (receiverMessage data s delivered), none) ∧
      ReceiverFieldsAt sha256 data s factory (delivered + 1) (delivered + 1) fields' := by
  obtain ⟨w, hw, hcopies, hwritten⟩ := h.writer (by omega)
  rcases Nat.eq_zero_or_pos delivered with rfl | hpos
  · refine ⟨fields, ?_, ⟨h.factory, h.writer, h.next, ?_, h.noRedo⟩⟩
    · rw [receiverPhaseAt_needBlock (by omega) (by omega)]
      rfl
    · rw [h.last]
      simp
  · by_cases hblock : delivered ≤ blocks data s
    · have hlast : fields.lastBlock = some (blockAt sha256 data s (delivered - 1)) := by
        rw [h.last, if_pos ⟨by omega, by omega, by omega⟩]
        congr 2
      have hdone : w.isDone = true ↔ delivered = blocks data s := by
        rw [hcopies.isDone_iff, hwritten, forall_mem_marks (by omega)]
        omega
      have hanswer : fields.answer =
          .ok ({ fields with lastBlock := none }, some (.blockReceived (delivered - 1))) := by
        simp only [ReceiverFields.answer, hlast]
        rfl
      refine ⟨{ fields with lastBlock := none }, ?_, ⟨h.factory, h.writer, h.next, ?_, h.noRedo⟩⟩
      · rw [receiverPhaseAt_handleBlock (by omega) (by omega) (by omega), receiverMessage,
          if_neg (by omega), if_pos hblock]
        simp only [ReceiverPhase.write, ReceiverPhase.answerBlock, hanswer, Call.ok_bind,
          ReceiverFields.afterAnswer, h.noRedo, hw]
        by_cases hend : delivered = blocks data s
        · rw [hend, receiverPhaseAt_needDataSent]
          simp [hdone.mpr hend]
        · rw [receiverPhaseAt_needBlock (by omega) (by omega)]
          simp [Bool.eq_false_iff.mpr (mt hdone.mp hend)]
      · simp
    · obtain rfl : delivered = blocks data s + 1 := by omega
      refine ⟨fields, ?_, ⟨h.factory, h.writer, h.next, ?_, h.noRedo⟩⟩
      · rw [receiverPhaseAt_sendDataReceived, receiverPhaseAt_done, receiverMessage,
          if_neg (by omega), if_neg (by omega)]
        rfl
      · rw [h.last, if_neg (by omega), if_neg (by omega)]

/-- The receiver writes the block of its counter. -/
theorem ReceiverFieldsAt.readBlock (hfits : s.Fits data.length) {delivered : ℕ}
    {fields : ReceiverFields}
    (h : ReceiverFieldsAt sha256 data s factory delivered delivered fields) (hpos : 0 < delivered)
    (hle : delivered ≤ blocks data s) :
    ∃ fields', fields.readBlock sha256 (some (blockAt sha256 data s (delivered - 1))) = .ok (fields', none) ∧
      ReceiverFieldsAt sha256 data s factory (delivered + 1) delivered fields' := by
  obtain ⟨w, hw, hcopies, hwritten⟩ := h.writer hpos
  have hmin : min (delivered - 1) (blocks data s) = delivered - 1 := by omega
  have hmin' : min (delivered + 1 - 1) (blocks data s) = delivered - 1 + 1 := by omega
  have hnext : fields.nextBlockIndex = delivered - 1 := by rw [h.next, hmin]
  have hi : delivered - 1 < s.blockCount data.length := by
    change delivered - 1 < blocks data s
    omega
  have hnew : w.written[delivered - 1]? = some false := by
    rw [hwritten, hmin]
    exact marks_getElem? hi
  have hindex : (blockAt sha256 data s (delivered - 1)).index = delivered - 1 := rfl
  refine ⟨{ fields with
    writer := some (w.withBlock s (blockAt sha256 data s (delivered - 1)))
    nextBlockIndex := fields.nextBlockIndex + 1
    lastBlock := some (blockAt sha256 data s (delivered - 1)) }, ?_, ⟨h.factory, ?_, ?_, ?_, h.noRedo⟩⟩
  · simp only [ReceiverFields.readBlock, hw, hcopies.writeBlock_eq hfits hi hnew, Call.ok_bind,
      hindex, hnext]
    simp
  · intro _
    refine ⟨_, rfl, hcopies.withBlock hfits hi hnew, ?_⟩
    rw [hmin']
    change w.written.set (delivered - 1) true = _
    rw [hwritten, hmin]
    exact marks_set hi
  · rw [hmin']
    change fields.nextBlockIndex + 1 = _
    rw [hnext]
  · rw [if_pos ⟨by omega, by omega, by omega⟩]
    congr 2

/-- The receiver reads the message of its counter. -/
theorem ReceiverFieldsAt.read (hfits : s.Fits data.length) (hfresh : Fresh factory) {delivered : ℕ}
    {fields : ReceiverFields}
    (h : ReceiverFieldsAt sha256 data s factory delivered delivered fields)
    (hle : delivered ≤ blocks data s + 1) :
    ∃ fields', (receiverPhaseAt (blocks data s) delivered delivered).read sha256 fields
          (senderMessage sha256 data s metadata delivered) =
        .ok (receiverPhaseAt (blocks data s) (delivered + 1) delivered, fields', none) ∧
      ReceiverFieldsAt sha256 data s factory (delivered + 1) delivered fields' := by
  rcases Nat.eq_zero_or_pos delivered with rfl | hpos
  · obtain ⟨store, hstore, hlength, hfaults⟩ := hfresh metadata data.length
    have hpos : ¬ s.bytes = 0 := Nat.pos_iff_ne_zero.mp s.pos
    refine ⟨{ fields with
      writer := some (newWriter store data.length s), header := some ⟨some metadata, data.length, s.bytes⟩ }, ?_,
      ⟨h.factory, ?_, h.next, ?_, h.noRedo⟩⟩
    · refine moveTo_eq_ok.mpr ⟨rfl, ?_⟩
      simp only [ReceiverFields.readHeader, h.factory, hstore, dif_neg hpos]
    · intro _
      exact ⟨_, rfl, Writer.copies_newWriter hfits hlength hfaults, by simp [newWriter, marks]⟩
    · rw [if_neg (by omega)]
      exact h.last.trans (if_neg (by omega))
  · by_cases hblock : delivered ≤ blocks data s
    · obtain ⟨fields', hread, hfields⟩ := h.readBlock hfits hpos hblock
      refine ⟨fields', ?_, hfields⟩
      rw [receiverPhaseAt_needBlock hpos hblock,
        receiverPhaseAt_handleBlock (by omega) (by omega) (by omega), senderMessage,
        if_neg (by omega), if_pos hblock]
      exact moveTo_eq_ok.mpr ⟨rfl, hread⟩
    · obtain rfl : delivered = blocks data s + 1 := by omega
      refine ⟨fields, ?_, ⟨h.factory, ?_, ?_, ?_, h.noRedo⟩⟩
      · rw [receiverPhaseAt_needDataSent, receiverPhaseAt_sendDataReceived, senderMessage,
          if_neg (by omega), if_neg (by omega)]
        rfl
      · intro _
        obtain ⟨w, hw, hcopies, hwritten⟩ := h.writer hpos
        refine ⟨w, hw, hcopies, ?_⟩
        rw [hwritten]
        congr 1
        omega
      · rw [h.next]
        omega
      · rw [h.last, if_neg (by omega), if_neg (by omega)]

end Sides

end ProjektCore.Transfer
