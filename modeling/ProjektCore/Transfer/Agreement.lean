import ProjektCore.Transfer.Block.Copies
import ProjektCore.Transfer.Receiver
import ProjektCore.Transfer.Sender

/-!
# Agreement of sender and receiver

A sender and a receiver are joined by two queues. Blocks may be altered on their way, as long as the
alteration shows in the checksum. In every run without an error, a receiver that is done holds the
data of the sender, and a sender that is done has a receiver that is done.

The invariant behind it says that every block on its way is a block of the data or has a wrong
checksum, that the blocks written so far are those of the data, and that the receiver gets past the
blocks only when all of them are written.
-/

namespace ProjektCore.Transfer

open Foundation Protocol

/-- A step of a transfer: a call of one side, or the alteration of a queued block. -/
inductive TransferEvent where
  | turn (turn : Turn)
  | alter (position : ℕ) (block : Block)

/-- The block at a position of a queue. -/
def queuedBlock (queue : List Message) (position : ℕ) : Option Block :=
  match queue[position]? with
  | some (.block (some block)) => some block
  | _ => none

/-- Alter the data or the checksum of a queued block such that they do not fit each other. -/
def alterBlock (sha256 : Bytes → Bytes) (queue : List Message) (position : ℕ) (block : Block) :
    Option (List Message) := do
  let original ← queuedBlock queue position
  if block.index = original.index ∧ computeChecksum sha256 block.index block.data ≠ block.checksum then
    some (queue.set position (.block (some block)))
  else none

/-- A step of a transfer between two sides in which no call fails. -/
def transferStep {S T : Type} (sha256 : Bytes → Bytes) (a : Side S Message) (b : Side T Message)
    (p : Pair S T Message) : TransferEvent → Option (Pair S T Message)
  | .turn turn => p.step a b turn
  | .alter position block =>
    (alterBlock sha256 p.toRight position block).map fun queue => { p with toRight := queue }

/-- The states of a transfer between the machines of the two sides. -/
abbrev MachinePair := Pair (SenderPhase × SenderFields) (ReceiverPhase × ReceiverFields) Message

/-- The steps of a transfer between clients are those between the machines they implement. -/
theorem transferStep_map (sha256 : Bytes → Bytes) {S T S' T' : Type} {a : Side S Message}
    {b : Side T Message} {a' : Side S' Message} {b' : Side T' Message} {f : S → S'} {g : T → T'}
    (ha : a.Embeds a' f) (hb : b.Embeds b' g) (p : Pair S T Message) (event : TransferEvent) :
    transferStep sha256 a' b' (p.map f g) event = (transferStep sha256 a b p event).map (Pair.map f g) := by
  cases event with
  | turn turn => exact Pair.step_map ha hb p turn
  | alter position block =>
    simp only [transferStep, Pair.map, Option.map_map]
    rfl

/-- A message that the sender wrote, or an altered block whose checksum is wrong. -/
def Credible (sha256 : Bytes → Bytes) (data : Bytes) (s : Size) : Message → Prop
  | .header header => header.totalSize = data.length ∧ header.blockSize = s.bytes
  | .block none => False
  | .block (some b) =>
    (∃ i, i < s.blockCount data.length ∧ b = blockAt sha256 data s i) ∨
      computeChecksum sha256 b.index b.data ≠ b.checksum
  | _ => True

/-- The phases of a receiver that has written all blocks. -/
def ReceiverPhase.pastBlocks : ReceiverPhase → Bool
  | .needDataSent | .sendDataReceived | .done => true
  | _ => false

/-- A factory that returns stores of the requested size that do not fail. -/
def Fresh (factory : WriterFactory) : Prop :=
  ∀ metadata size, ∃ store, factory metadata size = .ok store ∧ store.data.length = size ∧ store.faults = []

/-- What holds in every state of a transfer without errors. -/
structure Agrees (sha256 : Bytes → Bytes) (data : Bytes) (s : Size) (factory : WriterFactory)
    (p : MachinePair) : Prop where
  reader : Reader.Over data s p.left.2.reader
  sent : ∀ m ∈ p.toRight, Credible sha256 data s m
  factory : p.right.2.writerFactory = factory
  writer : ∀ w, p.right.2.writer = some w → Writer.Copies data s w
  written : p.right.1.pastBlocks → ∃ w, p.right.2.writer = some w ∧ w.isDone = true
  receipt : .dataReceived ∈ p.toLeft → p.right.1 = .done
  senderDone : p.left.1 = .done → p.right.1 = .done

variable {sha256 : Bytes → Bytes} {data : Bytes} {s : Size} {factory : WriterFactory}

section Sender

variable {phase phase' : SenderPhase} {fields fields' : SenderFields}

/-- Reading the next block of the sender. -/
theorem SenderFields.nextBlock_eq_ok {block : Option Block}
    (h : fields.nextBlock sha256 = .ok (fields', block, none)) :
    fields.reader.nextBlock sha256 = .ok (fields'.reader, block, none) := by
  simp only [SenderFields.nextBlock] at h
  split at h
  · simp [panicText] at h
  · simp only [Call.bind_eq_ok, Call.pure_eq_ok, Except.ok.injEq, Prod.mk.injEq] at h
    obtain ⟨⟨reader, block', err⟩, hnext, rfl, rfl, rfl⟩ := h
    exact hnext

/-- Writing a block of the sender. -/
theorem SenderPhase.writeBlock_eq_ok {more last : SenderPhase} {message : Any Message}
    (h : phase.writeBlock sha256 fields more last = .ok (phase', fields', message, none)) :
    ∃ block, fields.nextBlock sha256 = .ok (fields', block, none) ∧ message = some (.block block) ∧
      phase' = if fields'.reader.isDone then last else more := by
  simp only [SenderPhase.writeBlock, Call.bind_eq_ok, Call.pure_eq_ok, Except.ok.injEq,
    Prod.mk.injEq] at h
  obtain ⟨⟨after, block, err⟩, hnext, hphase, rfl, hmessage, rfl⟩ := h
  exact ⟨block, hnext, hmessage.symm, by simpa using hphase.symm⟩

/-- What the sender writes is credible, keeps its reader over the data, and does not finish it. -/
theorem SenderPhase.write_credible (hfits : s.Fits data.length)
    (hreader : Reader.Over data s fields.reader) {message : Any Message}
    (h : phase.write sha256 fields = .ok (phase', fields', message, none)) :
    Reader.Over data s fields'.reader ∧ (∀ m ∈ message, Credible sha256 data s m) ∧ phase' ≠ .done := by
  have hblock {more last : SenderPhase} (hmore : more ≠ .done) (hlast : last ≠ .done)
      (hw : phase.writeBlock sha256 fields more last = .ok (phase', fields', message, none)) :
      Reader.Over data s fields'.reader ∧ (∀ m ∈ message, Credible sha256 data s m) ∧ phase' ≠ .done := by
    obtain ⟨block, hnext, rfl, rfl⟩ := SenderPhase.writeBlock_eq_ok hw
    obtain ⟨hover, i, hi, rfl⟩ := hreader.nextBlock hfits (SenderFields.nextBlock_eq_ok hnext)
    refine ⟨hover, ?_, ?_⟩
    · intro m hm
      obtain rfl := Option.some.inj hm
      exact .inl ⟨i, hi, rfl⟩
    · split
      · exact hlast
      · exact hmore
  cases phase with
  | inPrologue => exact hblock (by decide) (by decide) h
  | inProgress => exact hblock (by decide) (by decide) h
  | initialized =>
    simp only [SenderPhase.write, Except.ok.injEq, Prod.mk.injEq] at h
    obtain ⟨rfl, rfl, rfl, -⟩ := h
    refine ⟨hreader, ?_, by decide⟩
    intro m hm
    obtain rfl := Option.some.inj hm
    exact ⟨hreader.totalSize, by rw [SenderFields.createHeader, hreader.blockSize]⟩
  | transferred =>
    simp only [SenderPhase.write, Except.ok.injEq, Prod.mk.injEq] at h
    obtain ⟨rfl, rfl, rfl, -⟩ := h
    exact ⟨hreader, by simp [Credible], by decide⟩
  | sendAbort =>
    simp only [SenderPhase.write, Except.ok.injEq, Prod.mk.injEq] at h
    obtain ⟨rfl, rfl, rfl, -⟩ := h
    exact ⟨hreader, by simp [Credible], by decide⟩
  | _ => simp [SenderPhase.write] at h

/-- Recording a receipt does not touch the reader. -/
theorem SenderFields.blockReceived_reader {index : ℕ} {err : Option Err}
    (h : fields.blockReceived index = .ok (fields', err)) : fields'.reader = fields.reader := by
  simp only [SenderFields.blockReceived] at h
  split at h
  · simp [panicRuntime] at h
  · simp only [Except.ok.injEq, Prod.mk.injEq] at h
    rw [← h.1]
  · split at h
    · simp [panicText] at h
    · simp only [Except.ok.injEq, Prod.mk.injEq] at h
      rw [← h.1]

/-- Queueing a requested block keeps the reader over the data. -/
theorem SenderFields.redoBlock_reader (hreader : Reader.Over data s fields.reader) {index : ℕ}
    {err : Option Err} (h : fields.redoBlock index = .ok (fields', err)) :
    Reader.Over data s fields'.reader := by
  have hredo := hreader.redoBlock index
  simp only [SenderFields.redoBlock] at h
  split at h
  · simp [panicRuntime] at h
  · simp only [Except.ok.injEq, Prod.mk.injEq] at h
    rwa [← h.1]
  · split at h
    · simp only [Except.ok.injEq, Prod.mk.injEq] at h
      rwa [← h.1]
    · split at h <;>
      · rename_i hresult
        rw [hresult] at hredo
        simp only [Except.ok.injEq, Prod.mk.injEq] at h
        rw [← h.1]
        exact hredo

/-- Reading keeps the sender's reader over the data, and only the data receipt finishes the
sender. -/
theorem SenderPhase.read_over (hreader : Reader.Over data s fields.reader) {message : Message}
    (h : phase.read fields message = .ok (phase', fields', none)) :
    Reader.Over data s fields'.reader ∧ (phase' = .done → message = .dataReceived) := by
  have hreceived {index : ℕ} {next : SenderPhase} (hne : next ≠ .done)
      (hr : moveTo next (fields.blockReceived index) = .ok (phase', fields', none)) :
      Reader.Over data s fields'.reader ∧ (phase' = .done → message = .dataReceived) := by
    obtain ⟨rfl, hcall⟩ := moveTo_eq_ok.mp hr
    rw [SenderFields.blockReceived_reader hcall]
    exact ⟨hreader, fun hd => absurd hd hne⟩
  have hredo {index : ℕ} {next : SenderPhase} (hne : next ≠ .done)
      (hr : moveTo next (fields.redoBlock index) = .ok (phase', fields', none)) :
      Reader.Over data s fields'.reader ∧ (phase' = .done → message = .dataReceived) := by
    obtain ⟨rfl, hcall⟩ := moveTo_eq_ok.mp hr
    exact ⟨SenderFields.redoBlock_reader hreader hcall, fun hd => absurd hd hne⟩
  unfold SenderPhase.read at h
  split at h
  · simp [panicError] at h
  · obtain ⟨rfl, rfl, -⟩ := by simpa using h
    exact ⟨hreader, by simp⟩
  · obtain ⟨rfl, rfl, -⟩ := by simpa using h
    exact ⟨hreader, by simp⟩
  · exact hreceived (by decide) h
  · exact hreceived (by decide) h
  · exact hreceived (by decide) h
  · exact hredo (by decide) h
  · exact hredo (by decide) h
  · exact hredo (by decide) h
  · obtain ⟨rfl, hr⟩ := moveTo_eq_ok.mp h
    obtain ⟨rfl, -⟩ := by simpa using hr
    exact ⟨hreader, fun _ => rfl⟩
  · simp at h
  · simp at h
  · obtain ⟨rfl, rfl, -⟩ := by simpa using h
    exact ⟨hreader, by simp⟩
  · simp at h

end Sender

section Receiver

variable {phase phase' : ReceiverPhase} {fields fields' : ReceiverFields}

/-- An answer does not touch the writer. -/
theorem ReceiverFields.answer_writer {message : Any Message}
    (h : fields.answer = .ok (fields', message)) :
    fields'.writer = fields.writer ∧ fields'.writerFactory = fields.writerFactory ∧
      message ≠ some .dataReceived := by
  unfold ReceiverFields.answer at h
  split at h
  · obtain ⟨rfl, rfl⟩ := by simpa using h
    exact ⟨rfl, rfl, by simp⟩
  · obtain ⟨rfl, rfl⟩ := by simpa using h
    exact ⟨rfl, rfl, by simp⟩
  · simp [panicRuntime] at h
  · obtain ⟨rfl, rfl⟩ := by simpa using h
    exact ⟨rfl, rfl, by simp⟩

/-- An answer leads past the blocks only if all of them are written. -/
theorem ReceiverFields.afterAnswer_pastBlocks
    (h : fields.afterAnswer ReceiverPhase.handleBlock .needDataSent .needBlock = .ok phase)
    (hpast : phase.pastBlocks) : ∃ w, fields.writer = some w ∧ w.isDone = true := by
  unfold ReceiverFields.afterAnswer at h
  split at h
  · obtain rfl := Except.ok.inj h
    cases hpast
  · split at h
    · simp [panicRuntime] at h
    · rename_i w hw
      split at h
      · rename_i hdone
        exact ⟨w, hw, hdone⟩
      · obtain rfl := Except.ok.inj h
        cases hpast

/-- What the receiver writes leaves its writer alone, and only a finished receiver sends a
receipt. -/
theorem ReceiverPhase.write_agrees {message : Any Message}
    (h : phase.write fields = .ok (phase', fields', message, none)) :
    fields'.writer = fields.writer ∧ fields'.writerFactory = fields.writerFactory ∧ phase ≠ .done ∧
      (phase'.pastBlocks → phase.pastBlocks ∨ ∃ w, fields.writer = some w ∧ w.isDone = true) ∧
      (message = some .dataReceived → phase' = .done) := by
  cases phase with
  | handleBlock =>
    simp only [ReceiverPhase.write, ReceiverPhase.answerBlock, Call.bind_eq_ok] at h
    obtain ⟨⟨after, answered⟩, hanswer, next, hnext, h⟩ := h
    obtain ⟨hwriter, hfactory, hne⟩ := ReceiverFields.answer_writer hanswer
    split at h
    · simp [panicText] at h
    · simp only [Call.pure_eq_ok, Except.ok.injEq, Prod.mk.injEq] at h
      obtain ⟨rfl, rfl, rfl, -⟩ := h
      refine ⟨hwriter, hfactory, by decide, ?_, fun hm => absurd hm hne⟩
      intro hpast
      obtain ⟨w, hw, hdone⟩ := ReceiverFields.afterAnswer_pastBlocks hnext hpast
      exact .inr ⟨w, hwriter ▸ hw, hdone⟩
  | sendAcknowledge =>
    obtain ⟨rfl, rfl, rfl⟩ := by simpa [ReceiverPhase.write] using h
    simp [ReceiverPhase.pastBlocks]
  | sendDataReceived =>
    obtain ⟨rfl, rfl, rfl⟩ := by simpa [ReceiverPhase.write] using h
    simp [ReceiverPhase.pastBlocks]
  | sendAbort =>
    obtain ⟨rfl, rfl, rfl⟩ := by simpa [ReceiverPhase.write] using h
    simp [ReceiverPhase.pastBlocks]
  | _ => simp [ReceiverPhase.write] at h

/-- A header of the sender creates a writer that copies the data. -/
theorem ReceiverFields.readHeader_copies {header : Header} (hfits : s.Fits data.length)
    (hfresh : Fresh fields.writerFactory) (hsize : header.totalSize = data.length)
    (hblock : header.blockSize = s.bytes) (h : fields.readHeader header = (fields', none)) :
    fields'.writerFactory = fields.writerFactory ∧
      ∀ w, fields'.writer = some w → Writer.Copies data s w := by
  unfold ReceiverFields.readHeader at h
  split at h
  · simp at h
  · rename_i metadata _
    split at h
    · simp at h
    · obtain ⟨store, hstore, hlength, hfaults⟩ := hfresh metadata header.totalSize
      simp only [hstore, Prod.mk.injEq, and_true] at h
      obtain rfl := h
      refine ⟨rfl, ?_⟩
      intro w hw
      obtain rfl := Option.some.inj hw
      have hsame : (⟨header.blockSize, Nat.pos_of_ne_zero ‹_›⟩ : Size) = s := by
        cases s
        simp only [Size.mk.injEq]
        exact hblock
      rw [hsame, hsize]
      exact Writer.copies_newWriter hfits (hlength.trans hsize) hfaults

/-- Writing a credible block keeps the writer a copy of the data. -/
theorem Writer.Copies.writeBlock {w w' : Writer} (hcopies : Writer.Copies data s w)
    (hfits : s.Fits data.length) {b : Block} (hb : Credible sha256 data s (.block (some b)))
    {err : Option Err} (h : w.writeBlock sha256 b = .ok (w', err)) : Writer.Copies data s w' := by
  rcases hb with ⟨i, hi, rfl⟩ | hbad
  · have hbit : i < w.written.length := by
      rw [hcopies.bitmap]
      exact hi
    cases hold : w.written[i] with
    | true =>
      rw [hcopies.writeBlock_again hfits hi (by rw [List.getElem?_eq_getElem hbit, hold])] at h
      obtain ⟨rfl, -⟩ := by simpa using h
      exact hcopies
    | false =>
      have hnew : w.written[i]? = some false := by rw [List.getElem?_eq_getElem hbit, hold]
      rw [hcopies.writeBlock_eq hfits hi hnew] at h
      obtain ⟨rfl, -⟩ := by simpa using h
      exact hcopies.withBlock hfits hi hnew
  · rw [(Writer.writeBlock_badChecksum hbad h).1]
    exact hcopies

/-- Reading a credible block keeps the writer a copy of the data. -/
theorem ReceiverFields.readBlock_copies (hfits : s.Fits data.length) {block : Option Block}
    (hblock : Credible sha256 data s (.block block))
    (hcopies : ∀ w, fields.writer = some w → Writer.Copies data s w) {err : Option Err}
    (h : fields.readBlock sha256 block = .ok (fields', err)) :
    fields'.writerFactory = fields.writerFactory ∧
      ∀ w, fields'.writer = some w → Writer.Copies data s w := by
  unfold ReceiverFields.readBlock at h
  split at h
  · rename_i b w hw
    simp only [Call.bind_eq_ok] at h
    obtain ⟨⟨w', werr⟩, hwrite, h⟩ := h
    have hcopies' := (hcopies w hw).writeBlock hfits hblock hwrite
    have hsame : fields'.writerFactory = fields.writerFactory ∧ fields'.writer = some w' := by
      split at h
      · obtain ⟨rfl, -⟩ := by simpa using h
        exact ⟨rfl, rfl⟩
      · split at h
        · obtain ⟨rfl, -⟩ := by simpa using h
          exact ⟨rfl, rfl⟩
        · split at h
          · obtain ⟨rfl, -⟩ := by simpa using h
            exact ⟨rfl, rfl⟩
          · split at h
            · simp [panicText] at h
            · obtain ⟨rfl, -⟩ := by simpa using h
              exact ⟨rfl, rfl⟩
    refine ⟨hsame.1, ?_⟩
    intro w₁ hw₁
    rw [hsame.2] at hw₁
    exact Option.some.inj hw₁ ▸ hcopies'
  · simp [panicRuntime] at h

/-- Reading a credible message keeps the writer a copy of the data and does not skip blocks. -/
theorem ReceiverPhase.read_agrees (hfits : s.Fits data.length) (hfresh : Fresh fields.writerFactory)
    {message : Message} (hmessage : Credible sha256 data s message)
    (hcopies : ∀ w, fields.writer = some w → Writer.Copies data s w)
    (h : phase.read sha256 fields message = .ok (phase', fields', none)) :
    fields'.writerFactory = fields.writerFactory ∧ (∀ w, fields'.writer = some w → Writer.Copies data s w) ∧
      phase ≠ .done ∧ (phase'.pastBlocks → phase.pastBlocks ∧ fields'.writer = fields.writer) := by
  unfold ReceiverPhase.read at h
  split at h
  · simp [panicError] at h
  · obtain ⟨rfl, hcall⟩ := moveTo_eq_ok.mp h
    obtain ⟨hfactory, hwriter⟩ :=
      ReceiverFields.readHeader_copies hfits hfresh hmessage.1 hmessage.2 (Except.ok.inj hcall)
    exact ⟨hfactory, hwriter, by decide, by simp [ReceiverPhase.pastBlocks]⟩
  · obtain ⟨rfl, hcall⟩ := moveTo_eq_ok.mp h
    obtain ⟨hfactory, hwriter⟩ := ReceiverFields.readBlock_copies hfits hmessage hcopies hcall
    exact ⟨hfactory, hwriter, by decide, by simp [ReceiverPhase.pastBlocks]⟩
  · obtain ⟨rfl, rfl, -⟩ := by simpa using h
    exact ⟨rfl, hcopies, by decide, by simp [ReceiverPhase.pastBlocks]⟩
  · simp at h

end Receiver

/-- A block at a position of a queue is a message of the queue. -/
theorem queuedBlock_eq_some {queue : List Message} {position : ℕ} {block : Block} :
    queuedBlock queue position = some block ↔ queue[position]? = some (.block (some block)) := by
  unfold queuedBlock
  split
  · next heq => rw [heq, Option.some.injEq, Option.some.injEq, Message.block.injEq,
                  Option.some.injEq]
  · next hother => exact iff_of_false (fun h => nomatch h) (hother block)

/-- What an altered queue was before. -/
theorem alterBlock_eq_some {queue queue' : List Message} {position : ℕ} {block : Block} :
    alterBlock sha256 queue position block = some queue' ↔
      ∃ original, queue[position]? = some (.block (some original)) ∧ block.index = original.index ∧
        computeChecksum sha256 block.index block.data ≠ block.checksum ∧
        queue' = queue.set position (.block (some block)) := by
  simp only [alterBlock, Option.bind_eq_bind, Option.bind_eq_some_iff, queuedBlock_eq_some,
    Option.ite_none_right_eq_some, Option.some.injEq]
  constructor
  · rintro ⟨original, horiginal, ⟨hindex, hbad⟩, rfl⟩
    exact ⟨original, horiginal, hindex, hbad, rfl⟩
  · rintro ⟨original, horiginal, hindex, hbad, rfl⟩
    exact ⟨original, horiginal, ⟨hindex, hbad⟩, rfl⟩

/-- Altering a queued block leaves only credible messages. -/
theorem alterBlock_credible {queue queue' : List Message} {position : ℕ} {block : Block}
    (h : alterBlock sha256 queue position block = some queue')
    (hqueue : ∀ m ∈ queue, Credible sha256 data s m) : ∀ m ∈ queue', Credible sha256 data s m := by
  obtain ⟨original, -, -, hbad, rfl⟩ := alterBlock_eq_some.mp h
  intro m hm
  rcases List.mem_or_eq_of_mem_set hm with hm | rfl
  · exact hqueue m hm
  · exact .inr hbad

/-- Every step of a transfer keeps the agreement. -/
theorem Agrees.step (hfits : s.Fits data.length) (hfresh : Fresh factory) {p q : MachinePair}
    {event : TransferEvent} (hp : Agrees sha256 data s factory p)
    (h : transferStep sha256 (senderMachine sha256).side (receiverMachine sha256).side p event = some q) :
    Agrees sha256 data s factory q := by
  cases event with
  | alter position block =>
    obtain ⟨queue, hqueue, rfl⟩ := Option.map_eq_some_iff.mp h
    exact { hp with sent := alterBlock_credible hqueue hp.sent }
  | turn turn =>
    cases turn with
    | leftWrites =>
      obtain ⟨left, message, hwrite, rfl⟩ := Pair.step_leftWrites.mp h
      obtain ⟨hreader, hcredible, hne⟩ :=
        SenderPhase.write_credible hfits hp.reader (Machine.side_write_eq_ok.mp hwrite)
      refine { hp with reader := hreader, sent := ?_, senderDone := fun hd => absurd hd hne }
      intro m hm
      rcases List.mem_append.mp hm with hm | hm
      · exact hp.sent m hm
      · exact hcredible m (Option.mem_toList.mp hm)
    | leftReads =>
      obtain ⟨message, rest, left, hqueue, hread, rfl⟩ := Pair.step_leftReads.mp h
      obtain ⟨hreader, hdone⟩ := SenderPhase.read_over hp.reader (Machine.side_read_eq_ok.mp hread)
      have hreceipt := hp.receipt
      rw [hqueue] at hreceipt
      refine { hp with
        reader := hreader
        receipt := fun hm => hreceipt (List.mem_cons_of_mem _ hm)
        senderDone := fun hd => hreceipt (by rw [hdone hd]; exact List.mem_cons_self) }
    | rightWrites =>
      obtain ⟨right, message, hwrite, rfl⟩ := Pair.step_rightWrites.mp h
      obtain ⟨hwriter, hfactory, hne, hpast, hreceipt⟩ :=
        ReceiverPhase.write_agrees (Machine.side_write_eq_ok.mp hwrite)
      refine {
        reader := hp.reader
        sent := hp.sent
        factory := hfactory.trans hp.factory
        writer := fun w hw => hp.writer w (hwriter ▸ hw)
        written := ?_
        receipt := ?_
        senderDone := fun hd => absurd (hp.senderDone hd) hne }
      · intro hq
        rcases hpast hq with hold | hnow
        · exact hwriter ▸ hp.written hold
        · exact hwriter ▸ hnow
      · intro hm
        rcases List.mem_append.mp hm with hm | hm
        · exact absurd (hp.receipt hm) hne
        · exact hreceipt (Option.mem_toList.mp hm)
    | rightReads =>
      obtain ⟨message, rest, right, hqueue, hread, rfl⟩ := Pair.step_rightReads.mp h
      have hsent := hp.sent
      rw [hqueue] at hsent
      obtain ⟨hfactory, hwriter, hne, hpast⟩ := ReceiverPhase.read_agrees hfits (hp.factory ▸ hfresh)
        (hsent message List.mem_cons_self) hp.writer (Machine.side_read_eq_ok.mp hread)
      refine {
        reader := hp.reader
        sent := fun m hm => hsent m (List.mem_cons_of_mem _ hm)
        factory := hfactory.trans hp.factory
        writer := hwriter
        written := ?_
        receipt := fun hm => absurd (hp.receipt hm) hne
        senderDone := fun hd => absurd (hp.senderDone hd) hne }
      intro hq
      obtain ⟨hold, hsame⟩ := hpast hq
      exact hsame ▸ hp.written hold

/-- A new sender of the data and a new receiver. -/
def transferStart (metadata : Option Metadata) (factory : WriterFactory) (data : Bytes) (s : Size) :
    MachinePair where
  left := (.initialized, .new metadata (newBlockReader (.ofBytes data) data.length s))
  right := (.initialized, .new factory)
  toRight := []
  toLeft := []

/-- The clients of a new sender and a new receiver behave as the machines at the start. -/
theorem transferStart_embeds (sha256 : Bytes → Bytes) (metadata : Option Metadata)
    (factory : WriterFactory) (data : Bytes) (s : Size) :
    ∃ client client',
      newSender sha256 metadata (newBlockReader (.ofBytes data) data.length s) =
        .ok ((senderMachine sha256).peer client (transferStart metadata factory data s).left) ∧
      newReceiver sha256 factory =
        .ok ((receiverMachine sha256).peer client' (transferStart metadata factory data s).right) ∧
      (senderMachine sha256).side.Embeds Peer.side ((senderMachine sha256).peer client) ∧
      (receiverMachine sha256).side.Embeds Peer.side ((receiverMachine sha256).peer client') := by
  obtain ⟨client, hsender, hclient⟩ := newSender_ok sha256 metadata (newBlockReader (.ofBytes data) data.length s)
  obtain ⟨client', hreceiver, hclient'⟩ := newReceiver_ok sha256 factory
  exact ⟨client, client', hsender, hreceiver, (sender_implements sha256).embeds hclient,
    (receiver_implements sha256).embeds hclient'⟩

/-- The agreement holds at the start. -/
theorem agrees_start {metadata : Option Metadata} :
    Agrees sha256 data s factory (transferStart metadata factory data s) where
  reader := Reader.over_newBlockReader data s
  sent := by simp [transferStart]
  factory := rfl
  writer := by simp [transferStart, ReceiverFields.new]
  written := by simp [transferStart, ReceiverPhase.pastBlocks]
  receipt := by simp [transferStart]
  senderDone := by simp [transferStart]

/-- A receiver that is done holds the data, and a sender that is done has a receiver that is
done. -/
theorem transfer_agreement (sha256 : Bytes → Bytes) (data : Bytes) (s : Size)
    (hfits : s.Fits data.length) (metadata : Option Metadata) (factory : WriterFactory)
    (hfresh : Fresh factory) :
    ∃ sender receiver,
      newSender sha256 metadata (newBlockReader (.ofBytes data) data.length s) = .ok sender ∧
      newReceiver sha256 factory = .ok receiver ∧
      ∀ p, Reached (transferStep sha256 Peer.side Peer.side) anyStep ⟨sender, receiver, [], []⟩ p →
        (p.right.client.state = done → ∃ w, p.right.world.writer = some w ∧ w.writer.data = data) ∧
        (p.left.client.state = done → p.right.client.state = done) := by
  obtain ⟨client, hsender, hclient⟩ :=
    newSender_ok sha256 metadata (newBlockReader (.ofBytes data) data.length s)
  obtain ⟨client', hreceiver, hclient'⟩ := newReceiver_ok sha256 factory
  refine ⟨_, _, hsender, hreceiver, ?_⟩
  intro q hq
  have hmap := transferStep_map sha256 ((sender_implements sha256).embeds hclient)
    ((receiver_implements sha256).embeds hclient')
  obtain ⟨p, rfl, hp⟩ := Reached.of_map _ hmap (fun _ _ _ => trivial)
    (transferStart metadata factory data s) hq
  have hagrees : Agrees sha256 data s factory p :=
    hp.invariant (Agrees sha256 data s factory) agrees_start fun _ _ _ hp _ hstep => hp.step hfits hfresh hstep
  have hright : p.right.1.state = done ↔ p.right.1 = .done := by cases p.right.1 <;> decide
  have hleft : p.left.1.state = done ↔ p.left.1 = .done := by cases p.left.1 <;> decide
  constructor
  · intro hdone
    obtain ⟨w, hw, hwdone⟩ := hagrees.written (by rw [hright.mp hdone]; rfl)
    exact ⟨w, hw, (hagrees.writer w hw).data_eq hwdone⟩
  · intro hdone
    exact hright.mpr (hagrees.senderDone (hleft.mp hdone))

/-- Three bytes in blocks of two, the first block altered once and sent again: both sides finish. -/
theorem transfer_agreement_three_bytes :
    ∃ sender receiver p,
      newSender id (some ⟨[100]⟩) (newBlockReader (.ofBytes [1, 2, 3]) 3 ⟨2, by decide⟩) = .ok sender ∧
      newReceiver id (fun _ size => .ok (.make size)) = .ok receiver ∧
      Reached (transferStep id Peer.side Peer.side) anyStep ⟨sender, receiver, [], []⟩ p ∧
      p.left.client.state = done ∧ ∃ w, p.right.world.writer = some w ∧ w.writer.data = [1, 2, 3] := by
  obtain ⟨sender, receiver, hsender, hreceiver, hall⟩ :=
    transfer_agreement id [1, 2, 3] ⟨2, by decide⟩ ⟨by decide, by decide⟩ (some ⟨[100]⟩)
      (fun _ size => .ok (.make size))
      (fun _ size => ⟨.make size, rfl, by simp [Store.make, Store.ofBytes], rfl⟩)
  change newSender id (some ⟨[100]⟩) (newBlockReader (.ofBytes [1, 2, 3]) 3 ⟨2, by decide⟩) = .ok sender at hsender
  have hrun : (do
      let sender ← newSender id (some ⟨[100]⟩) (newBlockReader (.ofBytes [1, 2, 3]) 3 ⟨2, by decide⟩)
      let receiver ← newReceiver id (fun _ size => .ok (.make size))
      return (execute (transferStep id Peer.side Peer.side) anyStep
        [.turn .leftWrites, .turn .rightReads, .turn .rightWrites, .turn .leftWrites,
          .alter 0 ⟨0, [9, 9], []⟩, .turn .leftReads, .turn .rightReads, .turn .rightWrites, .turn .leftReads,
          .turn .leftWrites, .turn .rightReads, .turn .rightWrites, .turn .leftWrites, .turn .leftWrites,
          .turn .rightReads, .turn .rightWrites, .turn .rightReads, .turn .rightWrites,
          .turn .leftReads, .turn .leftReads, .turn .leftReads]
        ⟨sender, receiver, [], []⟩).map fun p => (p.left.client.state, p.right.client.state)) =
      (.ok (some (done, done)) : Go _) := rfl
  simp only [hsender, hreceiver, Call.ok_bind, Call.pure_eq_ok, Except.ok.injEq,
    Option.map_eq_some_iff, Prod.mk.injEq] at hrun
  obtain ⟨p, hp, hleft, hright⟩ := hrun
  have hreached := reached_of_execute _ hp
  exact ⟨sender, receiver, p, hsender, hreceiver, hreached, hleft, (hall p hreached).1 hright⟩

end ProjektCore.Transfer
