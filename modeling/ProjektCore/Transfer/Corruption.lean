import ProjektCore.Transfer.Pipeline
import ProjektCore.Transfer.SenderCalls

/-!
# Blocks that are damaged on their way

The data of a queued block may be replaced by other data of the same length that does not fit the
checksum. A receiver that reads such a block in its turn requests it again, and a sender that reads
the request writes the block once more; the fields of both are then those of a transfer without
damage. The lemmas about the two sides do not look at the queues between them.
-/

namespace ProjektCore.Transfer

open Foundation Protocol

/-- Damage a queued block: other data of the same length, the same index and checksum. -/
def corruptBlock (sha256 : Bytes → Bytes) (queue : List Message) (position : ℕ) (data : Bytes) :
    Option (List Message) := do
  let b ← queuedBlock queue position
  if data.length = b.data.length then alterBlock sha256 queue position { b with data := data } else none

/-- A step of a transfer over a link that damages blocks. -/
inductive LinkEvent where
  | turn (turn : Turn)
  | corrupt (position : ℕ) (data : Bytes)
deriving Repr, DecidableEq

/-- One step: a call that does not fail, or a damaged block. -/
def linkStep {S T : Type} (sha256 : Bytes → Bytes) (a : Side S Message) (b : Side T Message)
    (p : Pair S T Message) : LinkEvent → Option (Pair S T Message)
  | .turn turn => p.step a b turn
  | .corrupt position data =>
    (corruptBlock sha256 p.toRight position data).map fun queue => { p with toRight := queue }

/-- The steps that the loops of the two sides and the link may take. -/
def loopEvent {S T : Type} (a : Side S Message) (b : Side T Message) (p : Pair S T Message) :
    LinkEvent → Bool
  | .turn turn => p.loopTakes a b turn
  | .corrupt _ _ => true

/-- The runs of the loops over a link that damages any blocks. -/
def LinkDriven {S T : Type} (a : Side S Message) (b : Side T Message) (p : Pair S T Message)
    (event : LinkEvent) : Prop :=
  loopEvent a b p event = true

instance {S T : Type} (a : Side S Message) (b : Side T Message) (p : Pair S T Message)
    (event : LinkEvent) :
    Decidable (LinkDriven a b p event) := inferInstanceAs (Decidable (_ = true))

/-- The steps between mapped sides are the mapped steps. -/
theorem linkStep_map (sha256 : Bytes → Bytes) {S T S' T' : Type} {a : Side S Message}
    {b : Side T Message} {a' : Side S' Message} {b' : Side T' Message} {f : S → S'} {g : T → T'}
    (ha : a.Embeds a' f) (hb : b.Embeds b' g) (p : Pair S T Message) (event : LinkEvent) :
    linkStep sha256 a' b' (p.map f g) event = (linkStep sha256 a b p event).map (Pair.map f g) := by
  cases event with
  | turn turn => exact Pair.step_map ha hb p turn
  | corrupt position data =>
    simp only [linkStep, Pair.map, Option.map_map]
    rfl

/-- The loops of mapped sides may take the same steps. -/
theorem loopEvent_map {S T S' T' : Type} {a : Side S Message} {b : Side T Message}
    {a' : Side S' Message} {b' : Side T' Message} {f : S → S'} {g : T → T'} (ha : a.Embeds a' f)
    (hb : b.Embeds b' g) (p : Pair S T Message) (event : LinkEvent) :
    loopEvent a' b' (p.map f g) event = loopEvent a b p event := by
  cases event with
  | turn turn => exact Pair.loopTakes_map ha hb p turn
  | corrupt position data => rfl

/-- A damaged copy of a block of the data. -/
structure Damage (sha256 : Bytes → Bytes) (data : Bytes) (s : Size) (i : ℕ) (b : Block) : Prop where
  index : b.index = i
  length : b.data.length = (dataAt data s i).length
  bad : computeChecksum sha256 i b.data ≠ b.checksum

variable {sha256 : Bytes → Bytes} {data : Bytes} {s : Size} {metadata : Metadata} {factory : WriterFactory}

section Writer

/-- A damaged block that is not yet written is refused for its checksum. -/
theorem Writer.Copies.writeBlock_damaged {w : Writer} (h : Writer.Copies data s w)
    (hfits : s.Fits data.length) {i : ℕ} (hi : i < s.blockCount data.length)
    (hnew : w.written[i]? = some false) {b : Block} (hb : Damage sha256 data s i b) :
    w.writeBlock sha256 b = .ok (w, some .badBlockChecksum) := by
  have hlt := (s.lt_blockCount_iff data.length i).mp hi
  have hoffset : w.offset i = i * s.bytes := by rw [Writer.offset, h.blockSize, Size.offset_eq hfits hi.le]
  have hamount : b.data.length = w.amount (i * s.bytes) := by
    rw [hb.length, Writer.amount, h.blockSize, h.totalSize, dataAt_length data s hi]
  have hcheck : w.checkBlock sha256 b = .ok (some .badBlockChecksum) := by
    simp only [Writer.checkBlock, hb.index, hoffset, h.totalSize, if_neg (Nat.not_le.mpr hlt),
      hamount, ne_eq, not_true_eq_false, if_false, hnew, hb.bad, not_false_eq_true, if_true]
  simp only [Writer.writeBlock, hcheck, Call.ok_bind]
  rfl

end Writer

section Receiver

variable {i : ℕ} {fields : ReceiverFields}

/-- The receiver with a block to request again. -/
def ReceiverFields.requesting (fields : ReceiverFields) (i : ℕ) : ReceiverFields :=
  { fields with redoBlocks := some [i] }

/-- Before a block is read in its turn there is a writer that has not written it. -/
theorem ReceiverFieldsAt.writer_at
    (h : ReceiverFieldsAt sha256 data s factory (i + 1) (i + 1) fields) (hi : i < blocks data s) :
    ∃ w, fields.writer = some w ∧ Writer.Copies data s w ∧ w.written[i]? = some false ∧ w.isDone = false := by
  obtain ⟨w, hw, hcopies, hwritten⟩ := h.writer (by omega)
  have hmin : min (i + 1 - 1) (blocks data s) = i := by omega
  rw [hmin] at hwritten
  refine ⟨w, hw, hcopies, ?_, ?_⟩
  · rw [hwritten]
    exact marks_getElem? hi
  · rw [Bool.eq_false_iff, ne_eq, hcopies.isDone_iff, hwritten, forall_mem_marks hi.le]
    omega

/-- A receiver that reads a damaged block in its turn remembers to request it. -/
theorem ReceiverFieldsAt.read_damaged (hfits : s.Fits data.length)
    (h : ReceiverFieldsAt sha256 data s factory (i + 1) (i + 1) fields) (hi : i < blocks data s)
    {b : Block} (hb : Damage sha256 data s i b) :
    ReceiverPhase.needBlock.read sha256 fields (.block (some b)) =
      .ok (.handleBlock, fields.requesting i, none) := by
  obtain ⟨w, hw, hcopies, hnew, -⟩ := h.writer_at hi
  refine moveTo_eq_ok.mpr ⟨rfl, ?_⟩
  simp only [ReceiverFields.readBlock, hw, hcopies.writeBlock_damaged hfits hi hnew hb,
    Call.ok_bind, if_true, hb.index, Call.pure_eq_ok, ReceiverFields.requesting]

/-- The request leaves the receiver as it was before the damaged block. -/
theorem ReceiverFieldsAt.write_request
    (h : ReceiverFieldsAt sha256 data s factory (i + 1) (i + 1) fields) (hi : i < blocks data s) :
    ReceiverPhase.handleBlock.write (fields.requesting i) = .ok (.needBlock, fields, some (.redoBlock i), none) := by
  obtain ⟨w, hw, -, -, hopen⟩ := h.writer_at hi
  have hlast : fields.lastBlock = none := by
    rw [h.last]
    exact if_neg (by omega)
  have hanswer : (fields.requesting i).answer = .ok (fields, some (.redoBlock i)) := by
    have hredo := h.noRedo
    cases fields
    subst hlast hredo
    rfl
  simp only [ReceiverPhase.write, ReceiverPhase.answerBlock, hanswer, Call.ok_bind,
    ReceiverFields.afterAnswer, h.noRedo, hw, hopen]
  rfl

end Receiver

section Sender

variable {i : ℕ} {fields : SenderFields}

/-- A sender that has collected the answers to all earlier messages queues the last block again. -/
theorem SenderFieldsAt.redoBlock (hfits : s.Fits data.length)
    (h : SenderFieldsAt data s metadata (i + 2) (i + 1) fields) (hi : i < blocks data s) :
    fields.redoBlock i = .ok (fields.requested i, none) := by
  have hlt := (s.lt_blockCount_iff data.length i).mp hi
  have hmissing : fields.received[i]? = some false := by
    have hmin : min (i + 1 - 1) (blocks data s) = i := by omega
    rw [h.received, hmin]
    exact marks_getElem? hi
  have hnext : fields.reader.nextIndex = i + 1 := by
    rw [h.next]
    omega
  have hinside : ¬ fields.reader.offset i ≥ fields.reader.totalSize := by
    rw [Reader.offset, h.reader.blockSize, h.reader.totalSize, Size.offset_eq hfits hi.le]
    omega
  have hwritten : ¬ i ≥ fields.reader.nextIndex := by omega
  have hsingle : i ∉ fields.reader.redoBlocks := by simp [h.noRedo]
  simp only [SenderFields.redoBlock, hmissing, Reader.nextBlockIndex, if_neg hwritten,
    Reader.redoBlock, if_neg hinside, if_neg hsingle]
  rfl

/-- The request of the last block puts a sender back into progress. -/
theorem SenderFieldsAt.read_request (hfits : s.Fits data.length)
    (h : SenderFieldsAt data s metadata (i + 2) (i + 1) fields) (hi : i < blocks data s) :
    (senderPhaseAt (blocks data s) (i + 2) (i + 1)).read fields (.redoBlock i) =
      .ok (.inProgress, fields.requested i, none) := by
  have hcall := h.redoBlock hfits hi
  by_cases hmore : i + 2 ≤ blocks data s
  · rw [senderPhaseAt_inProgress (by omega) hmore (by omega)]
    exact moveTo_eq_ok.mpr ⟨rfl, hcall⟩
  · have hlast : i + 2 = blocks data s + 1 := by omega
    rw [hlast, senderPhaseAt_transferred (by omega)]
    exact moveTo_eq_ok.mpr ⟨rfl, hcall⟩

/-- A requested block is written again, and the sender is where it was before the request. -/
theorem SenderFieldsAt.write_requested (sha256 : Bytes → Bytes) (hfits : s.Fits data.length)
    (h : SenderFieldsAt data s metadata (i + 2) (i + 1) fields) (hi : i < blocks data s) :
    ∃ fields', SenderPhase.inProgress.write sha256 (fields.requested i) =
        .ok (senderPhaseAt (blocks data s) (i + 2) (i + 1), fields',
          some (senderMessage sha256 data s metadata (i + 1)), none) ∧
      SenderFieldsAt data s metadata (i + 2) (i + 1) fields' := by
  have hnext : fields.reader.nextIndex = i + 1 := by
    rw [h.next]
    omega
  have hqueue : (fields.requested i).reader.redoBlocks = [i] := by
    change fields.reader.redoBlocks ++ [i] = [i]
    rw [h.noRedo]
    rfl
  have hover : Reader.Over data s (fields.requested i).reader := by
    refine ⟨h.reader.store, h.reader.faults, h.reader.totalSize, h.reader.blockSize, h.reader.next_le, ?_⟩
    intro j hj
    rw [hqueue, List.mem_singleton] at hj
    change j < fields.reader.nextIndex
    omega
  obtain ⟨reader, hread, hafter, hempty, hindex⟩ : ∃ reader : Reader,
      (fields.requested i).reader.nextBlock sha256 = .ok (reader, some (blockAt sha256 data s i), none) ∧
      Reader.Over data s reader ∧ reader.redoBlocks = [] ∧ reader.nextIndex = i + 1 := by
    have hredo := hover.nextBlock_redo sha256 hfits hqueue
    exact ⟨_, hredo, (hover.nextBlock hfits hredo).1, rfl, hnext⟩
  have hdone : (fields.requested i).reader.isDone = false := by
    rw [Bool.eq_false_iff, ne_eq, hover.isDone_iff hfits, hqueue]
    simp
  have hmessage : senderMessage sha256 data s metadata (i + 1) = .block (some (blockAt sha256 data s i)) := by
    rw [senderMessage, if_neg (by omega), if_pos (by omega), Nat.add_sub_cancel]
  have hend : reader.isDone = true ↔ i + 1 = blocks data s := by
    rw [hafter.isDone_iff hfits, hindex]
    exact and_iff_right hempty
  refine ⟨(fields.requested i).withReader reader, ?_,
    ⟨hafter, hempty, hindex.trans (hnext.symm.trans h.next), h.received, h.count, h.metadata⟩⟩
  rw [SenderPhase.write_of_nextBlock rfl hdone hread, hmessage]
  by_cases hmore : i + 2 ≤ blocks data s
  · rw [senderPhaseAt_inProgress (by omega) hmore (by omega)]
    simp [Bool.eq_false_iff.mpr (mt hend.mp (by omega))]
  · have hlast : i + 2 = blocks data s + 1 := by omega
    rw [hlast, senderPhaseAt_transferred (by omega)]
    simp [hend.mpr (by omega), SenderPhase.afterLast]

end Sender

end ProjektCore.Transfer
