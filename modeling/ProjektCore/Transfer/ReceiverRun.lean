import ProjektCore.Transfer.Block.WriterRuns
import ProjektCore.Transfer.ReceiverCalls

/-!
# Runs of a receiver without errors

A receiver is called in any order and its peer sends any messages, but no read has returned an
error. Then a block that has to be answered has an answer, a receiver that awaits a block has
answered all others, and every block below the awaited one is written. With a store that does what
it is told and blocks whose offsets do not wrap, no call panics.
-/

namespace ProjektCore.Transfer

open Foundation Protocol

/-- A condition on the calls of a receiver, given its fields. -/
abbrev CallBound := ReceiverFields → SideCall Message → Bool

section Guard

variable {S S' : Type} {a : Side S Message} {a' : Side S' Message} {f : S → S'} {fields : S → ReceiverFields}
  {fields' : S' → ReceiverFields} {bound : CallBound}

/-- The runs in which no read returns an error and every call meets a condition. -/
def ErrorFree (a : Side S Message) (fields : S → ReceiverFields) (bound : CallBound)
    (r : Solo S Message) (call : SideCall Message) : Prop :=
  Solo.Accepting a r call ∧ bound (fields r.side) call = true

instance (r : Solo S Message) (call : SideCall Message) :
    Decidable (ErrorFree a fields bound r call) :=
  inferInstanceAs (Decidable (_ ∧ _))

/-- A mapped receiver makes the same calls without errors. -/
theorem errorFree_map (ha : a.Embeds a' f) (hfields : ∀ s, fields' (f s) = fields s)
    (r : Solo S Message) (call : SideCall Message) :
    ErrorFree a' fields' bound (r.map f) call ↔ ErrorFree a fields bound r call := by
  have hside : fields' (r.map f).side = fields r.side := hfields r.side
  rw [ErrorFree, ErrorFree, Solo.Accepting, Solo.Accepting, Solo.readsFine_map ha, hside]

/-- Every state that such runs of a mapped receiver reach is a mapped state that such runs reach. -/
theorem errorFree_of_map (ha : a.Embeds a' f) (hfields : ∀ s, fields' (f s) = fields s)
    (start : Solo S Message) {q : Solo S' Message}
    (h : Reached (Solo.step a') (ErrorFree a' fields' bound) (start.map f) q) :
    ∃ r, q = r.map f ∧ Reached (Solo.step a) (ErrorFree a fields bound) start r :=
  Reached.of_map (Solo.map f) (Solo.step_map ha) (fun r call => (errorFree_map ha hfields r call).mp) start h

/-- Executing such calls on a mapped receiver. -/
theorem execute_errorFree_map (ha : a.Embeds a' f) (hfields : ∀ s, fields' (f s) = fields s)
    (calls : List (SideCall Message)) (r : Solo S Message) :
    execute (Solo.step a') (ErrorFree a' fields' bound) calls (r.map f) =
      (execute (Solo.step a) (ErrorFree a fields bound) calls r).map (Solo.map f) :=
  Foundation.execute_map (Solo.map f) (Solo.step_map ha) (fun r call => errorFree_map ha hfields r call) calls r

end Guard

/-- The calls whose headers can be sent. -/
def sizeFits : CallBound := fun _ => totalSizeBelow (2 ^ 64)

/-- A receiver, by its phase and its fields, with its history. -/
abbrev ReceiverSolo := Solo (ReceiverPhase × ReceiverFields) Message

/-- The reads of a receiver that return no error: phase, fields and message. -/
inductive ReceiverAccept (sha256 : Bytes → Bytes) :
    ReceiverPhase → ReceiverFields → Message → ReceiverPhase → ReceiverFields → Prop
  | header {fields : ReceiverFields} {header : Header} {metadata : Metadata} {store : Store}
      {blockSize : Size} (created : fields.writerFactory metadata header.totalSize = .ok store) :
      ReceiverAccept sha256 .initialized fields (.header header) .sendAcknowledge
        { fields with writer := some (newWriter store header.totalSize blockSize), header := some header }
  | stored {fields : ReceiverFields} {b : Block} {w w' : Writer} {next : ℕ} {redo : Option (List ℕ)}
      (writer : fields.writer = some w) (written : w.writeBlock sha256 b = .ok (w', none))
      (advance : Advance fields b next redo) :
      ReceiverAccept sha256 .needBlock fields (.block (some b)) .handleBlock
        { fields with writer := some w', nextBlockIndex := next, lastBlock := some b, redoBlocks := redo }
  | again {fields : ReceiverFields} {b : Block} {w w' : Writer} (writer : fields.writer = some w)
      (refused : w.writeBlock sha256 b = .ok (w', some .badBlockChecksum)) :
      ReceiverAccept sha256 .needBlock fields (.block (some b)) .handleBlock
        { fields with writer := some w', redoBlocks := some [b.index] }
  | dataSent {fields : ReceiverFields} :
      ReceiverAccept sha256 .needDataSent fields .dataSent .sendDataReceived fields

/-- Every read that returns no error is listed. -/
theorem ReceiverRead.accept {sha256 : Bytes → Bytes} {phase phase' : ReceiverPhase}
    {fields fields' : ReceiverFields} {message : Message} {err : Option Err}
    (h : ReceiverRead sha256 phase fields message phase' fields' err) (herr : err = none) :
    ReceiverAccept sha256 phase fields message phase' fields' := by
  cases h with
  | header _ _ hcreated => exact .header hcreated
  | stored hwriter hwrite hadvance => exact .stored hwriter hwrite hadvance
  | again hwriter hrefused => exact .again hwriter hrefused
  | dataSent => exact .dataSent
  | badHeader => exact absurd herr (Client.readError_some_ne_none _)
  | refused => exact absurd herr (Client.readError_some_ne_none _)
  | unexpected => cases herr

section Invariant

variable {sha256 : Bytes → Bytes} {bound : CallBound} {start r : ReceiverSolo}

/-- What every write that returns and every read without an error keep holds in every state of a
run. -/
theorem errorFree_invariant (P : ReceiverPhase → ReceiverFields → Prop) (hstart : P start.side.1 start.side.2)
    (hwrite : ∀ phase fields phase' fields' message err, P phase fields →
      ReceiverWrite phase fields phase' fields' message err → P phase' fields')
    (hread : ∀ phase fields message phase' fields', P phase fields → bound fields (.read message) = true →
      ReceiverAccept sha256 phase fields message phase' fields' → P phase' fields')
    (h : Reached (Solo.step (receiverMachine sha256).side) (ErrorFree (receiverMachine sha256).side Prod.snd bound)
      start r) : P r.side.1 r.side.2 := by
  refine h.invariant (fun r => P r.side.1 r.side.2) hstart ?_
  intro r call q hr hguard hstep
  cases call with
  | write =>
    obtain ⟨phase, fields, message, err, hresult, rfl⟩ := Solo.step_write.mp hstep
    exact hwrite _ _ _ _ _ _ hr (ReceiverPhase.write_cases hresult)
  | read message =>
    obtain ⟨phase, fields, hresult, rfl⟩ := Solo.step_accepted hguard.1 hstep
    exact hread _ _ _ _ _ hr hguard.2 ((ReceiverPhase.read_cases hresult).accept rfl)

end Invariant

/-- A receiver with a writer: every block below the awaited one is written, and the requested blocks
exist. -/
structure Loaded (fields : ReceiverFields) (w : Writer) : Prop where
  writer : fields.writer = some w
  filled : ∃ store blocks, w.Filled store blocks
  below : ∀ i < fields.nextBlockIndex, w.written[i]? = some true
  redo : ∀ redo, fields.redoBlocks = some redo → redo ≠ [] ∧ ∀ i ∈ redo, i < w.blockCount

/-- The stages of a receiver that has returned no error from a read. -/
inductive Orderly : ReceiverPhase → ReceiverFields → Prop
  /-- Nothing has happened. -/
  | initialized {fields : ReceiverFields} : fields.writer = none → fields.nextBlockIndex = 0 →
      fields.lastBlock = none → fields.redoBlocks = none → Orderly .initialized fields
  /-- The next block is awaited. -/
  | waiting {phase : ReceiverPhase} {fields : ReceiverFields} {w : Writer} :
      phase = .sendAcknowledge ∨ phase = .needBlock → Loaded fields w → fields.lastBlock = none →
      fields.redoBlocks = none → Orderly phase fields
  /-- There is an answer to a block. -/
  | answering {fields : ReceiverFields} {w : Writer} : Loaded fields w →
      fields.lastBlock.isSome = true ∨ fields.redoBlocks.isSome = true → Orderly .handleBlock fields
  /-- All blocks are written. -/
  | complete {phase : ReceiverPhase} {fields : ReceiverFields} {w : Writer} :
      phase = .needDataSent ∨ phase = .sendDataReceived ∨ phase = .done → Loaded fields w → Orderly phase fields

section Writer

variable {sha256 : Bytes → Bytes} {w w' : Writer} {b : Block}

/-- What writing a block marks. -/
theorem Writer.writeBlock_marks (h : w.writeBlock sha256 b = .ok (w', none)) :
    w.written[b.index]? = some false ∧ w'.written = w.written.set b.index true ∧
      w'.blockCount = w.blockCount := by
  cases Writer.writeBlock_outcome h with
  | written hcheck => exact ⟨(Writer.passes_of_checkBlock hcheck).2.1, rfl, rfl⟩

/-- A block with a wrong checksum exists and is not written, and nothing is done with it. -/
theorem Writer.writeBlock_badBlockChecksum
    (h : w.writeBlock sha256 b = .ok (w', some .badBlockChecksum)) :
    w' = w ∧ w.written[b.index]? = some false := by
  cases Writer.writeBlock_outcome h with
  | failed herr => cases herr
  | refused hcheck =>
    refine ⟨rfl, ?_⟩
    simp only [Writer.checkBlock] at hcheck
    split at hcheck
    · cases hcheck
    · split at hcheck
      · cases hcheck
      · split at hcheck
        · cases hcheck
        · cases hcheck
        · assumption

end Writer

section Orderly

variable {sha256 : Bytes → Bytes} {phase phase' : ReceiverPhase} {fields fields' : ReceiverFields} {w w' : Writer}
  {b : Block} {message : Message}

/-- A receiver that awaits a block has a writer and has answered all blocks. -/
theorem Orderly.of_needBlock (h : Orderly .needBlock fields) :
    ∃ w, Loaded fields w ∧ fields.lastBlock = none ∧ fields.redoBlocks = none := by
  cases h with
  | waiting _ hloaded hlast hredo => exact ⟨_, hloaded, hlast, hredo⟩
  | complete hphase => simp at hphase

/-- A receiver that has to answer a block has a writer and an answer. -/
theorem Orderly.of_handleBlock (h : Orderly .handleBlock fields) :
    ∃ w, Loaded fields w ∧ (fields.lastBlock.isSome = true ∨ fields.redoBlocks.isSome = true) := by
  cases h with
  | answering hloaded hanswer => exact ⟨_, hloaded, hanswer⟩
  | waiting hphase => simp at hphase
  | complete hphase => simp at hphase

/-- A stored block keeps what holds of the blocks below the awaited one. -/
theorem Loaded.stored (h : Loaded fields w) (hredo : fields.redoBlocks = none)
    (hwrite : w.writeBlock sha256 b = .ok (w', none)) {next : ℕ} {redo : Option (List ℕ)}
    (hadvance : Advance fields b next redo) :
    Loaded { fields with writer := some w', nextBlockIndex := next, lastBlock := some b, redoBlocks := redo } w' := by
  obtain ⟨store, blocks, hfilled⟩ := h.filled
  obtain ⟨hunwritten, hmarks, hcount⟩ := Writer.writeBlock_marks hwrite
  obtain ⟨hexists, -, -⟩ := hfilled.offset_eq hunwritten
  have hbit : b.index < w.written.length := by rw [hfilled.bitmap]; exact hexists
  have hkept {i : ℕ} (hi : w.written[i]? = some true) : w'.written[i]? = some true := by
    rw [hmarks]
    by_cases heq : b.index = i
    · rw [heq, List.getElem?_set_self (heq ▸ hbit)]
    · rw [List.getElem?_set_ne heq, hi]
  have hfilled' : ∃ store blocks, w'.Filled store blocks := ⟨store, _, hfilled.write hwrite⟩
  cases hadvance with
  | awaited hindex =>
    refine ⟨rfl, hfilled', ?_, ?_⟩
    · intro i hi
      rcases Nat.lt_succ_iff_lt_or_eq.mp hi with hlt | rfl
      · exact hkept (h.below i hlt)
      · rw [hmarks, ← hindex, List.getElem?_set_self hbit]
    · intro redo hsome
      simp [hredo] at hsome
  | ahead hindex =>
    refine ⟨rfl, hfilled', fun i hi => hkept (h.below i hi), ?_⟩
    intro redo hsome
    obtain rfl := Option.some.inj hsome
    refine ⟨?_, ?_⟩
    · rw [Ne, List.range'_eq_nil_iff]
      omega
    · intro i hi
      have hrange := List.mem_range'_1.mp hi
      rw [hcount]
      omega

/-- A block that has to be sent again exists. -/
theorem Loaded.again (h : Loaded fields w)
    (hwrite : w.writeBlock sha256 b = .ok (w', some .badBlockChecksum)) :
    Loaded { fields with writer := some w', redoBlocks := some [b.index] } w := by
  obtain ⟨rfl, hunwritten⟩ := Writer.writeBlock_badBlockChecksum hwrite
  obtain ⟨store, blocks, hfilled⟩ := h.filled
  refine ⟨rfl, h.filled, h.below, ?_⟩
  intro redo hsome
  obtain rfl := Option.some.inj hsome
  refine ⟨List.cons_ne_nil _ _, ?_⟩
  intro i hi
  rw [List.mem_singleton.mp hi]
  exact (hfilled.offset_eq hunwritten).1

/-- Where an answer leads. -/
theorem Loaded.answered (h : Loaded fields w) (hlast : fields.lastBlock = none)
    (hnext : fields.afterAnswer ReceiverPhase.handleBlock .needDataSent .needBlock = .ok phase) :
    Orderly phase fields := by
  rcases ReceiverFields.afterAnswer_cases hnext with ⟨hredo, rfl⟩ | ⟨hredo, _, -, ⟨-, rfl⟩ | ⟨-, rfl⟩⟩
  · exact .answering h (.inr hredo)
  · exact .complete (.inl rfl) h
  · exact .waiting (.inr rfl) h hlast hredo

/-- A written message keeps the stages. -/
theorem Orderly.write (h : Orderly phase fields) {message : Any Message} {err : Option Err}
    (hwrite : ReceiverWrite phase fields phase' fields' message err) : Orderly phase' fields' := by
  cases hwrite with
  | acknowledge =>
    cases h with
    | waiting _ hloaded hlast hredo => exact .waiting (.inr rfl) hloaded hlast hredo
    | complete hphase => simp at hphase
  | received hlast hnext =>
    obtain ⟨w, hloaded, -⟩ := h.of_handleBlock
    exact Loaded.answered (w := w) ⟨hloaded.writer, hloaded.filled, hloaded.below, hloaded.redo⟩ rfl hnext
  | @redo _ index rest _ hlast hredo hnext =>
    obtain ⟨w, hloaded, -⟩ := h.of_handleBlock
    refine Loaded.answered (w := w) ⟨hloaded.writer, hloaded.filled, hloaded.below, ?_⟩ hlast hnext
    intro redo hsome
    by_cases hrest : rest.length = 0
    · simp [hrest] at hsome
    · rw [if_neg hrest] at hsome
      obtain rfl := Option.some.inj hsome
      refine ⟨List.ne_nil_of_length_pos (Nat.pos_of_ne_zero hrest), ?_⟩
      intro i hi
      exact (hloaded.redo _ hredo).2 i (List.mem_cons_of_mem index hi)
  | dataReceived =>
    cases h with
    | complete _ hloaded => exact .complete (.inr (.inr rfl)) hloaded
    | waiting hphase => simp at hphase
  | abort =>
    cases h with
    | waiting hphase => simp at hphase
    | complete hphase => simp at hphase
  | nothing => exact h

/-- A message that is read without an error keeps the stages. -/
theorem Orderly.read (h : Orderly phase fields)
    (hfits : totalSizeBelow (2 ^ 64) (.read message) = true)
    (hread : ReceiverAccept sha256 phase fields message phase' fields') :
    Orderly phase' fields' := by
  cases hread with
  | @header _ header metadata store blockSize hcreated =>
    cases h with
    | initialized hwriter hnext hlast hredo =>
      refine .waiting (w := newWriter store header.totalSize blockSize) (.inl rfl)
        ⟨rfl, ⟨store, [], Writer.filled_newWriter store (of_decide_eq_true hfits) blockSize⟩, ?_, ?_⟩ hlast hredo
      · intro i hi
        simp [hnext] at hi
      · intro redo hsome
        simp [hredo] at hsome
    | waiting hphase => simp at hphase
    | complete hphase => simp at hphase
  | stored hwriter hwrite hadvance =>
    obtain ⟨w, hloaded, -, hredo⟩ := h.of_needBlock
    obtain rfl := Option.some.inj (hloaded.writer.symm.trans hwriter)
    exact .answering (hloaded.stored hredo hwrite hadvance) (.inl rfl)
  | again hwriter hrefused =>
    obtain ⟨w, hloaded, -, -⟩ := h.of_needBlock
    obtain rfl := Option.some.inj (hloaded.writer.symm.trans hwriter)
    exact .answering (hloaded.again hrefused) (.inr rfl)
  | dataSent =>
    cases h with
    | complete _ hloaded => exact .complete (.inr (.inl rfl)) hloaded
    | waiting hphase => simp at hphase

/-- A new receiver. -/
theorem orderly_new (writerFactory : WriterFactory) : Orderly .initialized (.new writerFactory) :=
  .initialized rfl rfl rfl rfl

end Orderly

/-- A writer over a store that does what it is told and has room for the whole file. -/
structure Writer.Honoured (w : Writer) : Prop where
  calm : w.writer.faults = []
  size : w.totalSize < 2 ^ 63
  room : w.totalSize ≤ w.writer.data.length

section Honoured

variable {sha256 : Bytes → Bytes} {w w' : Writer} {b : Block} {store : Store} {blocks : List Block}

/-- Such a writer refuses a block whose offset does not wrap without touching anything, or writes
it. -/
theorem Writer.Honoured.writeBlock_cases (sha256 : Bytes → Bytes) (h : w.Honoured)
    (hfilled : w.Filled store blocks) (hsmall : b.index * w.blockSize.bytes < 2 ^ 64) :
    (∃ err, w.writeBlock sha256 b = .ok (w, some err)) ∨
      w.writeBlock sha256 b = .ok (w.withBlock w.blockSize b, none) ∧ (w.withBlock w.blockSize b).Honoured := by
  obtain ⟨answer, hcheck⟩ := hfilled.checkBlock_returns sha256 hsmall
  cases answer with
  | some err => exact .inl ⟨err, by simp [Writer.writeBlock, hcheck]⟩
  | none =>
    obtain ⟨hexists, hamount, -, -⟩ := hfilled.checkBlock_iff.mp hcheck
    have hinside := (w.blockSize.lt_blockCount_iff w.totalSize b.index).mp hexists
    have hend : b.index * w.blockSize.bytes + b.data.length ≤ w.writer.data.length := by
      have hroom := h.room
      omega
    have hwrite := Writer.writeBlock_of_calm hcheck (Nat.mod_eq_of_lt hsmall) (hinside.trans h.size) h.calm hend
      (by rw [hfilled.bitmap]; exact hexists)
    refine .inr ⟨hwrite, h.calm, h.size, ?_⟩
    change w.totalSize ≤ (overwrite w.writer.data (b.index * w.blockSize.bytes) b.data).length
    rw [overwrite_length _ _ _ hend]
    exact h.room

end Honoured

/-- Peers send messages of the protocol, and a block that was sent is no nil pointer. -/
def decoded : Message → Bool
  | .other => false
  | .block none => false
  | _ => true

/-- The total size of a header fits a signed number, and the offset of a block does not wrap. -/
def withinLimits : CallBound := fun fields call =>
  totalSizeBelow (2 ^ 63) call &&
    match call, fields.writer with
    | .read (.block (some b)), some w => b.index * w.blockSize.bytes < 2 ^ 64
    | _, _ => true

section Panics

variable {sha256 : Bytes → Bytes} {phase phase' : ReceiverPhase} {fields fields' : ReceiverFields} {w : Writer}
  {b : Block} {message : Message} {writerFactory : WriterFactory}

/-- A block is read without a panic. -/
theorem Loaded.readBlock_returns (sha256 : Bytes → Bytes) (h : Loaded fields w)
    (hhonoured : w.Honoured) (hsmall : b.index * w.blockSize.bytes < 2 ^ 64) :
    ∃ result, fields.readBlock sha256 (some b) = .ok result := by
  obtain ⟨store, blocks, hfilled⟩ := h.filled
  rcases hhonoured.writeBlock_cases sha256 hfilled hsmall with ⟨err, hwrite⟩ | ⟨hwrite, -⟩
  · simp only [ReceiverFields.readBlock, h.writer, hwrite, Call.ok_bind, Option.some.injEq,
      Option.isSome_some, if_true]
    split
    · exact ⟨_, rfl⟩
    · exact ⟨_, rfl⟩
  · -- a block below the awaited one is written already
    have hunwritten := (Writer.writeBlock_marks hwrite).1
    have hnot : ¬ b.index < fields.nextBlockIndex := by
      intro hlt
      have hmark := h.below b.index hlt
      simp [hunwritten] at hmark
    simp only [ReceiverFields.readBlock, h.writer, hwrite, Call.ok_bind, reduceCtorEq, if_false,
      Option.isSome_none, Bool.false_eq_true, if_neg hnot]
    split
    · exact ⟨_, rfl⟩
    · exact ⟨_, rfl⟩

/-- An answer leads somewhere once there is a writer. -/
theorem ReceiverFields.afterAnswer_returns (hwriter : fields.writer = some w) :
    ∃ next, fields.afterAnswer ReceiverPhase.handleBlock .needDataSent .needBlock = .ok next := by
  unfold ReceiverFields.afterAnswer
  split
  · exact ⟨_, rfl⟩
  · rw [hwriter]
    exact ⟨_, rfl⟩

/-- The receipt of a block is written. -/
theorem answerBlock_received (hlast : fields.lastBlock = some b)
    (hnext : { fields with lastBlock := none }.afterAnswer ReceiverPhase.handleBlock .needDataSent .needBlock =
      .ok phase) :
    ReceiverPhase.answerBlock fields =
      .ok (phase, { fields with lastBlock := none }, some (.blockReceived b.index), none) := by
  simp only [ReceiverPhase.answerBlock, ReceiverFields.answer, hlast, Call.ok_bind, hnext]
  rfl

/-- The first requested block is asked for. -/
theorem answerBlock_redo {index : ℕ} {rest : List ℕ} (hlast : fields.lastBlock = none)
    (hredo : fields.redoBlocks = some (index :: rest))
    (hnext : { fields with redoBlocks := if rest.length = 0 then none else some rest }.afterAnswer
      ReceiverPhase.handleBlock .needDataSent .needBlock = .ok phase) :
    ReceiverPhase.answerBlock fields =
      .ok (phase, { fields with redoBlocks := if rest.length = 0 then none else some rest },
        some (.redoBlock index), none) := by
  have hanswer : fields.answer = .ok ({ fields with redoBlocks := if rest.length = 0 then none else some rest },
      some (.redoBlock index)) := by
    simp only [ReceiverFields.answer, hlast, hredo]
  simp only [ReceiverPhase.answerBlock, hanswer, Call.ok_bind, hnext]
  rfl

/-- A block is answered without a panic. -/
theorem Loaded.answerBlock_returns (h : Loaded fields w)
    (hanswer : fields.lastBlock.isSome = true ∨ fields.redoBlocks.isSome = true) :
    ∃ phase' fields' message, ReceiverPhase.answerBlock fields = .ok (phase', fields', some message, none) ∧
      ((∃ i, message = .blockReceived i) ∨ ∃ i, message = .redoBlock i) := by
  cases hlast : fields.lastBlock with
  | some b =>
    have hwriter : { fields with lastBlock := none }.writer = some w := h.writer
    obtain ⟨next, hnext⟩ := ReceiverFields.afterAnswer_returns hwriter
    exact ⟨next, _, _, answerBlock_received hlast hnext, .inl ⟨b.index, rfl⟩⟩
  | none =>
    rw [hlast, Option.isSome_none, Bool.false_eq_true, false_or,
      Option.isSome_iff_exists] at hanswer
    obtain ⟨redo, hredo⟩ := hanswer
    obtain ⟨index, rest, rfl⟩ := List.exists_cons_of_ne_nil (h.redo redo hredo).1
    have hwriter : { fields with redoBlocks := if rest.length = 0 then none else some rest }.writer = some w := h.writer
    obtain ⟨next, hnext⟩ := ReceiverFields.afterAnswer_returns hwriter
    exact ⟨next, _, _, answerBlock_redo hlast hredo hnext, .inr ⟨index, rfl⟩⟩

/-- What holds of a receiver whose factory creates stores that do what they are told. -/
structure Steady (writerFactory : WriterFactory) (phase : ReceiverPhase) (fields : ReceiverFields) :
    Prop where
  orderly : Orderly phase fields
  factory : fields.writerFactory = writerFactory
  honoured : ∀ w, fields.writer = some w → w.Honoured

/-- Writing a message does not change the writer. -/
theorem ReceiverWrite.writer {message : Any Message} {err : Option Err}
    (h : ReceiverWrite phase fields phase' fields' message err) :
    fields'.writer = fields.writer ∧ fields'.writerFactory = fields.writerFactory := by
  cases h <;> exact ⟨rfl, rfl⟩

/-- A message that is read without an error keeps the writer's store as it should be. -/
theorem Steady.read (h : Steady writerFactory phase fields)
    (hstores : ∀ metadata size store, writerFactory metadata size = .ok store →
      store.faults = [] ∧ size ≤ store.data.length)
    (hlimits : withinLimits fields (.read message) = true)
    (hread : ReceiverAccept sha256 phase fields message phase' fields') : Steady writerFactory phase' fields' := by
  have hsize : totalSizeBelow (2 ^ 63) (.read message) = true := (Bool.and_eq_true_iff.mp hlimits).1
  have horderly : Orderly phase' fields' := by
    refine h.orderly.read ?_ hread
    cases message with
    | header header =>
      have hlt : header.totalSize < 2 ^ 63 := of_decide_eq_true hsize
      exact decide_eq_true (hlt.trans (by decide))
    | _ => rfl
  cases hread with
  | @header _ header metadata store blockSize hcreated =>
    refine ⟨horderly, h.factory, ?_⟩
    intro w hw
    obtain rfl := Option.some.inj hw
    rw [h.factory] at hcreated
    obtain ⟨hcalm, hroom⟩ := hstores metadata header.totalSize store hcreated
    exact ⟨hcalm, of_decide_eq_true hsize, hroom⟩
  | @stored _ b w w' _ _ hwriter hwrite =>
    obtain ⟨_, hloaded, -, -⟩ := h.orderly.of_needBlock
    obtain rfl := Option.some.inj (hwriter.symm.trans hloaded.writer)
    obtain ⟨store, blocks, hfilled⟩ := hloaded.filled
    have hsmall : b.index * w.blockSize.bytes < 2 ^ 64 := by
      simpa [withinLimits, totalSizeBelow, hwriter] using hlimits
    refine ⟨horderly, h.factory, ?_⟩
    intro last hlast
    obtain rfl := Option.some.inj hlast
    rcases (h.honoured w hwriter).writeBlock_cases sha256 hfilled hsmall with ⟨err, hok⟩ | ⟨hok, hhonoured⟩
    · simp [hwrite] at hok
    · rw [hwrite, Except.ok.injEq, Prod.mk.injEq] at hok
      exact hok.1 ▸ hhonoured
  | again hwriter hrefused =>
    obtain ⟨rfl, -⟩ := Writer.writeBlock_badBlockChecksum hrefused
    exact ⟨horderly, h.factory, fun w hw => h.honoured w (hwriter.trans hw)⟩
  | dataSent => exact ⟨horderly, h.factory, h.honoured⟩

/-- No message that a peer can send makes such a receiver panic. -/
theorem Steady.read_returns (sha256 : Bytes → Bytes) (h : Steady writerFactory phase fields)
    (hdecoded : decoded message = true) (hlimits : withinLimits fields (.read message) = true) :
    ∃ result, phase.read sha256 fields message = .ok result := by
  unfold ReceiverPhase.read
  split
  · cases hdecoded
  · exact ⟨_, rfl⟩
  · rename_i block
    cases block with
    | none => cases hdecoded
    | some b =>
      obtain ⟨w, hloaded, -, -⟩ := h.orderly.of_needBlock
      have hsmall : b.index * w.blockSize.bytes < 2 ^ 64 := by
        simpa [withinLimits, totalSizeBelow, hloaded.writer] using hlimits
      obtain ⟨result, hresult⟩ := hloaded.readBlock_returns sha256 (h.honoured w hloaded.writer) hsmall
      rw [hresult]
      exact ⟨_, rfl⟩
  · exact ⟨_, rfl⟩
  · exact ⟨_, rfl⟩

/-- Such a receiver can always be asked for a message. -/
theorem Orderly.write_returns (h : Orderly phase fields) :
    ∃ result, phase.write fields = .ok result := by
  cases phase with
  | handleBlock =>
    obtain ⟨w, hloaded, hanswer⟩ := h.of_handleBlock
    obtain ⟨phase', fields', message, hresult, -⟩ := hloaded.answerBlock_returns hanswer
    exact ⟨_, hresult⟩
  | _ => exact ⟨_, rfl⟩

/-- Every block below the awaited one is written. -/
theorem Orderly.below (h : Orderly phase fields) {i : ℕ} (hi : i < fields.nextBlockIndex) :
    ∃ w, fields.writer = some w ∧ w.written[i]? = some true := by
  cases h with
  | initialized _ hnext => simp [hnext] at hi
  | waiting _ hloaded => exact ⟨_, hloaded.writer, hloaded.below i hi⟩
  | answering hloaded => exact ⟨_, hloaded.writer, hloaded.below i hi⟩
  | complete _ hloaded => exact ⟨_, hloaded.writer, hloaded.below i hi⟩

end Panics

/-- A receiver of stores that do what they are told, in any run in which no read has returned an
error, no header has a total size of `2 ^ 63` or more and the offset of no block wraps: a block that
has to be answered has an answer; nothing is left to answer when a block is awaited; every block
below the awaited one is written; and neither a write nor the read of a message that a peer can send
panics. -/
theorem receiver_without_errors (sha256 : Bytes → Bytes) (writerFactory : WriterFactory)
    (hstores : ∀ metadata size store, writerFactory metadata size = .ok store →
      store.faults = [] ∧ size ≤ store.data.length) :
    ∃ receiver, newReceiver sha256 writerFactory = .ok receiver ∧
      ∀ r, Reached (Solo.step Peer.side) (ErrorFree Peer.side Peer.world withinLimits) ⟨receiver, []⟩ r →
        (r.side.client.state = handleBlock → ∃ (side : Receiver) (message : Message),
          Peer.side.write r.side = .ok (side, some message, none) ∧
            ((∃ i, message = .blockReceived i) ∨ ∃ i, message = .redoBlock i)) ∧
        (r.side.client.state = needBlock → r.side.world.lastBlock = none ∧ r.side.world.redoBlocks = none) ∧
        (∀ i < r.side.world.nextBlockIndex,
          ∃ w : Writer, r.side.world.writer = some w ∧ w.written[i]? = some true) ∧
        (∃ result, Peer.side.write r.side = .ok result) ∧
        ∀ message : Message, decoded message = true → withinLimits r.side.world (.read message) = true →
          ∃ result, Peer.side.read r.side message = .ok result := by
  obtain ⟨client, hreceiver, hclient⟩ := newReceiver_ok sha256 writerFactory
  have ha := (receiver_implements sha256).embeds hclient
  refine ⟨_, hreceiver, ?_⟩
  intro q hq
  obtain ⟨r, rfl, hr⟩ := errorFree_of_map ha (fun _ => rfl) ⟨(.initialized, .new writerFactory), []⟩ hq
  have hsteady : Steady writerFactory r.side.1 r.side.2 := by
    refine errorFree_invariant (Steady writerFactory) ⟨orderly_new writerFactory, rfl, by simp [ReceiverFields.new]⟩
      ?_ ?_ hr
    · intro phase fields phase' fields' message err h hwrite
      obtain ⟨hwriter, hfactory⟩ := hwrite.writer
      exact ⟨h.orderly.write hwrite, hfactory.trans h.factory, fun w hw => h.honoured w (hwriter.symm.trans hw)⟩
    · intro phase fields message phase' fields' h hlimits hread
      exact h.read hstores hlimits hread
  refine ⟨?_, ?_, ?_, ?_, ?_⟩
  · intro hstate
    have hphase : r.side.1 = .handleBlock := ReceiverPhase.state_injective hstate
    obtain ⟨w, hloaded, hanswer⟩ := (hphase ▸ hsteady.orderly).of_handleBlock
    obtain ⟨phase, fields, message, hresult, hmessage⟩ := hloaded.answerBlock_returns hanswer
    have hwrite : (receiverMachine sha256).side.write r.side = .ok ((phase, fields), some message, none) := by
      rw [Machine.side_write_eq_ok, hphase]
      exact hresult
    exact ⟨_, message, ha.write_eq_ok.mpr ⟨_, hwrite, rfl⟩, hmessage⟩
  · intro hstate
    have hphase : r.side.1 = .needBlock := ReceiverPhase.state_injective hstate
    obtain ⟨w, -, hlast, hredo⟩ := (hphase ▸ hsteady.orderly).of_needBlock
    exact ⟨hlast, hredo⟩
  · intro i hi
    exact hsteady.orderly.below hi
  · exact ha.write_returns.mpr (Machine.side_write_returns.mpr hsteady.orderly.write_returns)
  · intro message hdecoded hlimits
    obtain ⟨⟨phase, fields, err⟩, hresult⟩ := hsteady.read_returns sha256 hdecoded hlimits
    have hread : (receiverMachine sha256).side.read r.side message = .ok ((phase, fields), err) :=
      Machine.side_read_eq_ok.mpr hresult
    exact ⟨_, ha.read_eq_ok.mpr ⟨_, hread, rfl⟩⟩

/-- A receiver of two blocks that has written the second one, acknowledged it and asked for the
first one has nothing left to answer. -/
theorem receiver_without_errors_ahead :
    ∃ receiver, newReceiver (fun _ => []) (fun _ size => .ok (.make size)) = .ok receiver ∧
      ∃ r, Reached (Solo.step Peer.side) (ErrorFree Peer.side Peer.world withinLimits) ⟨receiver, []⟩ r ∧
        r.history.filterMap Deed.written = [.acknowledge, .blockReceived 1, .redoBlock 0] ∧
        r.side.world.lastBlock = none ∧ r.side.world.redoBlocks = none := by
  have hstores : ∀ (metadata : Metadata) (size : ℕ) (store : Store),
      (fun _ size => .ok (.make size) : WriterFactory) metadata size = .ok store →
      store.faults = [] ∧ size ≤ store.data.length := by
    intro metadata size store hstore
    obtain rfl := Except.ok.inj hstore
    exact ⟨rfl, by simp [Store.make, Store.ofBytes]⟩
  obtain ⟨receiver, hreceiver, hall⟩ := receiver_without_errors (fun _ => []) (fun _ size => .ok (.make size)) hstores
  obtain ⟨r, hr, hshown⟩ := Solo.exists_reached Peer.side (ErrorFree Peer.side Peer.world withinLimits) hreceiver
    [.read (.header ⟨some ⟨[100]⟩, 2, 1⟩), .write, .read (.block (some ⟨1, [8], []⟩)), .write, .write]
    (fun r => (r.history.filterMap Deed.written, r.side.client.state))
    ([.acknowledge, .blockReceived 1, .redoBlock 0], needBlock) rfl
  obtain ⟨hwritten, hstate⟩ := Prod.mk.inj hshown
  exact ⟨receiver, hreceiver, r, hr, hwritten, (hall r hr).2.1 hstate⟩

end ProjektCore.Transfer
