import ProjektCore.Foundation.History
import ProjektCore.Transfer.Block.Filled
import ProjektCore.Transfer.ReceiverCalls

/-!
# What the receipts of a receiver mean

A receiver is called in any order, and its peer sends any messages. A ledger beside it says which
store it has opened, which blocks have passed the checks of its writer and were stored, and what it
has written. A receipt is entered only for a block that was stored before, and once for each block.
When the receiver acknowledges the end of the data, every block has its receipt and the store has
exactly the data of the stored blocks at their offsets.

A refused block leaves the receiver with nothing to answer. It can only panic then, so that no
receipt depends on a store that has failed.
-/

namespace ProjektCore.Transfer

open Foundation Protocol

/-- An entry of the ledger of a receiver. -/
inductive LedgerEntry where
  /-- A writer was created for a header, over a store of the factory. -/
  | opened (header : Header) (store : Store)
  /-- A block has passed the checks and was stored. -/
  | stored (block : Block)
  /-- A message was written. -/
  | wrote (message : Message)
deriving DecidableEq

/-- The block that an entry has stored. -/
def LedgerEntry.block : LedgerEntry → Option Block
  | .stored block => some block
  | _ => none

/-- The block that an entry has acknowledged. -/
def LedgerEntry.receipt : LedgerEntry → Option ℕ
  | .wrote (.blockReceived index) => some index
  | _ => none

/-- The blocks that a ledger has stored. -/
def storedBlocks (log : List LedgerEntry) : List Block := log.filterMap LedgerEntry.block

/-- The blocks that a ledger has acknowledged. -/
def receiptsOf (log : List LedgerEntry) : List ℕ := log.filterMap LedgerEntry.receipt

namespace ReceiverFields

/-- The block passes the checks of the writer, and the writer is left as writing the block without
an error leaves it. -/
def stores (sha256 : Bytes → Bytes) (before after : ReceiverFields) (b : Block) : Bool :=
  match before.writer with
  | none => false
  | some w =>
    match w.checkBlock sha256 b, w.writeBlock sha256 b with
    | .ok none, .ok (w', none) => after.writer = some w'
    | _, _ => false

/-- The factory creates a store for the header, and the receiver has a writer that it did not
have. -/
def opens (before after : ReceiverFields) (header : Header) : Option Store :=
  match header.metadata with
  | none => none
  | some metadata =>
    match before.writerFactory metadata header.totalSize with
    | .error _ => none
    | .ok store => if before.writer.isNone && after.writer.isSome then some store else none

/-- What reading a message adds to the ledger. -/
def entries (sha256 : Bytes → Bytes) (before after : ReceiverFields) : Message → List LedgerEntry
  | .header header => (before.opens after header).toList.map (.opened header)
  | .block (some b) => if before.stores sha256 after b then [.stored b] else []
  | _ => []

end ReceiverFields

/-- A receiver and its ledger. -/
structure Ledger (S : Type) where
  side : S
  log : List LedgerEntry

namespace Ledger

variable {S S' : Type}

/-- What a call adds to the ledger, given the messages that it has written. -/
def added (sha256 : Bytes → Bytes) (before after : ReceiverFields) (written : List Message) :
    SideCall Message → List LedgerEntry
  | .write => written.map .wrote
  | .read message => before.entries sha256 after message

/-- A call on the receiver that returns, with or without an error. -/
def step (sha256 : Bytes → Bytes) (a : Side S Message) (fields : S → ReceiverFields) (g : Ledger S)
    (call : SideCall Message) : Option (Ledger S) :=
  (Solo.step a ⟨g.side, []⟩ call).map fun r =>
    ⟨r.side, g.log ++ added sha256 (fields g.side) (fields r.side) r.written call⟩

/-- Apply a map to the receiver. -/
def map (f : S → S') (g : Ledger S) : Ledger S' := ⟨f g.side, g.log⟩

section Map

variable {sha256 : Bytes → Bytes} {a : Side S Message} {a' : Side S' Message} {f : S → S'}
  {fields : S → ReceiverFields} {fields' : S' → ReceiverFields}

/-- The steps of the mapped receiver are the mapped steps. -/
theorem step_map (ha : a.Embeds a' f) (hfields : ∀ s, fields' (f s) = fields s) (g : Ledger S)
    (call : SideCall Message) :
    (g.map f).step sha256 a' fields' call = (g.step sha256 a fields call).map (Ledger.map f) := by
  have hstep := Solo.step_map ha ⟨g.side, []⟩ call
  simp only [step, map, hfields]
  rw [show (⟨f g.side, []⟩ : Solo S' Message) = Solo.map f ⟨g.side, []⟩ from rfl, hstep]
  cases Solo.step a ⟨g.side, []⟩ call with
  | none => rfl
  | some r => simp [map, Solo.map, Solo.written, hfields]

/-- Every state that calls on the mapped receiver reach is a mapped state that calls reach. -/
theorem reached_of_map (ha : a.Embeds a' f) (hfields : ∀ s, fields' (f s) = fields s)
    (start : Ledger S) {q : Ledger S'}
    (h : Reached (step sha256 a' fields') (fun _ call => totalSizeBelow (2 ^ 64) call) (start.map f) q) :
    ∃ g, q = g.map f ∧ Reached (step sha256 a fields) (fun _ call => totalSizeBelow (2 ^ 64) call) start g :=
  Reached.of_map (Ledger.map f) (step_map ha hfields) (fun _ _ hfits => hfits) start h

end Map

end Ledger

/-- A writer has stored the blocks of the ledger in a store that the ledger has opened, and all of
them but the last one are acknowledged. -/
structure Shelved (log : List LedgerEntry) (fields : ReceiverFields) (w : Writer) : Prop where
  writer : fields.writer = some w
  opened : ∃ header store, .opened header store ∈ log ∧ w.totalSize = header.totalSize ∧
    w.blockSize.bytes = header.blockSize ∧ w.Filled store (storedBlocks log)
  receipts : receiptsOf log ++ fields.lastBlock.toList.map Block.index = (storedBlocks log).map Block.index
  unfinished : .wrote .dataReceived ∉ log

/-- The stages of a receiver. -/
inductive ReceiverStage (log : List LedgerEntry) : ReceiverPhase → ReceiverFields → Prop
  /-- Nothing has happened. -/
  | initialized {fields : ReceiverFields} :
      log = [] → fields.writer = none → fields.lastBlock = none →
      fields.redoBlocks = none → ReceiverStage log .initialized fields
  /-- The header was refused, but the receiver goes on. -/
  | unopened {phase : ReceiverPhase} {fields : ReceiverFields} :
      phase = .sendAcknowledge ∨ phase = .needBlock →
      fields.writer = none → .wrote .dataReceived ∉ log → ReceiverStage log phase fields
  /-- The next block is awaited. -/
  | waiting {phase : ReceiverPhase} {fields : ReceiverFields} {w : Writer} :
      phase = .sendAcknowledge ∨ phase = .needBlock → Shelved log fields w → fields.lastBlock = none →
      fields.redoBlocks = none → ReceiverStage log phase fields
  /-- There is an answer to a block. -/
  | answering {fields : ReceiverFields} {w : Writer} : Shelved log fields w →
      fields.lastBlock.isSome = true ∨ fields.redoBlocks.isSome = true → ReceiverStage log .handleBlock fields
  /-- A block was refused, and there is no answer to it. -/
  | stuck {fields : ReceiverFields} : fields.lastBlock = none → fields.redoBlocks = none →
      .wrote .dataReceived ∉ log → ReceiverStage log .handleBlock fields
  /-- All blocks are stored and acknowledged. -/
  | complete {phase : ReceiverPhase} {fields : ReceiverFields} {w : Writer} :
      phase = .needDataSent ∨ phase = .sendDataReceived → Shelved log fields w → fields.lastBlock = none →
      w.isDone = true → ReceiverStage log phase fields
  /-- The end of the data was acknowledged. -/
  | finished {before : List LedgerEntry} {fields : ReceiverFields} {w : Writer} :
      log = before ++ [.wrote .dataReceived] → Shelved before fields w → fields.lastBlock = none →
      w.isDone = true → ReceiverStage log .done fields

/-- A receipt has a stored block before it, and is the first one for its block. -/
def Receipted (before : List LedgerEntry) (entry : LedgerEntry) : Prop :=
  ∀ i, entry.receipt = some i → (∃ b, .stored b ∈ before ∧ b.index = i) ∧ i ∉ receiptsOf before

section Lists

variable {log : List LedgerEntry}

/-- The stored blocks are those that the ledger says. -/
theorem mem_storedBlocks {b : Block} : b ∈ storedBlocks log ↔ .stored b ∈ log := by
  simp only [storedBlocks, List.mem_filterMap]
  constructor
  · rintro ⟨entry, hentry, hb⟩
    cases entry with
    | stored block =>
      obtain rfl := Option.some.inj hb
      exact hentry
    | opened => cases hb
    | wrote => cases hb
  · intro hb
    exact ⟨_, hb, rfl⟩

/-- The receipts are those that the ledger says. -/
theorem mem_receiptsOf {i : ℕ} : i ∈ receiptsOf log ↔ .wrote (.blockReceived i) ∈ log := by
  simp only [receiptsOf, List.mem_filterMap]
  constructor
  · rintro ⟨entry, hentry, hi⟩
    unfold LedgerEntry.receipt at hi
    split at hi
    · obtain rfl := Option.some.inj hi
      exact hentry
    · cases hi
  · intro hi
    exact ⟨_, hi, rfl⟩

/-- An entry that is no receipt needs no reason. -/
theorem receipted_of_none {entry : LedgerEntry} (h : entry.receipt = none) :
    Receipted log entry := by
  intro i hi
  rw [h] at hi
  cases hi

end Lists

section Shelved

variable {sha256 : Bytes → Bytes} {log : List LedgerEntry} {fields fields' : ReceiverFields} {w w' : Writer}
  {phase : ReceiverPhase} {b : Block}

/-- Writing a message that is no receipt and does not end the transfer. -/
theorem Shelved.wrote (h : Shelved log fields w) {message : Message}
    (hreceipt : (LedgerEntry.wrote message).receipt = none) (hmessage : message ≠ .dataReceived)
    (hwriter : fields'.writer = fields.writer) (hlast : fields'.lastBlock = fields.lastBlock) :
    Shelved (log ++ [.wrote message]) fields' w := by
  have hstored : storedBlocks (log ++ [.wrote message]) = storedBlocks log := by
    simp [storedBlocks, LedgerEntry.block]
  have hreceipts : receiptsOf (log ++ [.wrote message]) = receiptsOf log := by
    simp [receiptsOf, hreceipt]
  refine ⟨hwriter.trans h.writer, ?_, ?_, ?_⟩
  · obtain ⟨header, store, hopened, hsize, hblock, hfilled⟩ := h.opened
    exact ⟨header, store, List.mem_append_left _ hopened, hsize, hblock, hstored ▸ hfilled⟩
  · rw [hreceipts, hstored, hlast]
    exact h.receipts
  · rw [List.mem_append, List.mem_singleton, LedgerEntry.wrote.injEq]
    exact not_or.mpr ⟨h.unfinished, Ne.symm hmessage⟩

/-- The receipt of the last block. -/
theorem Shelved.received (h : Shelved log fields w) (hlast : fields.lastBlock = some b) :
    Shelved (log ++ [.wrote (.blockReceived b.index)]) { fields with lastBlock := none } w := by
  have hstored : storedBlocks (log ++ [.wrote (.blockReceived b.index)]) = storedBlocks log := by
    simp [storedBlocks, LedgerEntry.block]
  have hreceipts : receiptsOf (log ++ [.wrote (.blockReceived b.index)]) = receiptsOf log ++ [b.index] := by
    simp [receiptsOf, LedgerEntry.receipt]
  refine ⟨h.writer, ?_, ?_, ?_⟩
  · obtain ⟨header, store, hopened, hsize, hblock, hfilled⟩ := h.opened
    exact ⟨header, store, List.mem_append_left _ hopened, hsize, hblock, hstored ▸ hfilled⟩
  · rw [hreceipts, hstored, ← h.receipts, hlast]
    simp
  · simpa using h.unfinished

/-- The receipt of the last block is the first one for its block, which is stored. -/
theorem Shelved.receipted (h : Shelved log fields w) (hlast : fields.lastBlock = some b) :
    Receipted log (.wrote (.blockReceived b.index)) := by
  intro i hi
  obtain rfl := Option.some.inj hi
  have hreceipts := h.receipts
  rw [hlast, Option.toList_some, List.map_singleton] at hreceipts
  constructor
  · have hmem : b.index ∈ (storedBlocks log).map Block.index := by simp [← hreceipts]
    obtain ⟨other, hother, hindex⟩ := List.mem_map.mp hmem
    exact ⟨other, mem_storedBlocks.mp hother, hindex⟩
  · obtain ⟨header, store, -, -, -, hfilled⟩ := h.opened
    have hnodup := hfilled.nodup
    rw [← hreceipts, List.nodup_append] at hnodup
    intro hmem
    exact hnodup.2.2 _ hmem _ (List.mem_singleton_self _) rfl

/-- Where an answer leads. -/
theorem Shelved.answered (h : Shelved log fields w) (hlast : fields.lastBlock = none)
    (hnext : fields.afterAnswer ReceiverPhase.handleBlock .needDataSent .needBlock = .ok phase) :
    ReceiverStage log phase fields := by
  rcases ReceiverFields.afterAnswer_cases hnext with ⟨hredo, rfl⟩ | ⟨hredo, w', hw', hdone⟩
  · exact .answering h (.inr hredo)
  · obtain rfl := Option.some.inj (h.writer.symm.trans hw')
    rcases hdone with ⟨hdone, rfl⟩ | ⟨-, rfl⟩
    · exact .complete (.inl rfl) h hlast hdone
    · exact .waiting (.inr rfl) h hlast hredo

/-- A block is stored. -/
theorem Shelved.stored (h : Shelved log fields w) (hlast : fields.lastBlock = none)
    (hwrite : w.writeBlock sha256 b = .ok (w', none)) (hwriter : fields'.writer = some w')
    (hlast' : fields'.lastBlock = some b) : Shelved (log ++ [.stored b]) fields' w' := by
  have hstored : storedBlocks (log ++ [.stored b]) = storedBlocks log ++ [b] := by
    simp [storedBlocks, LedgerEntry.block]
  have hreceipts : receiptsOf (log ++ [.stored b]) = receiptsOf log := by
    simp [receiptsOf, LedgerEntry.receipt]
  refine ⟨hwriter, ?_, ?_, ?_⟩
  · obtain ⟨header, store, hopened, hsize, hblock, hfilled⟩ := h.opened
    have hsizes : w'.totalSize = w.totalSize ∧ w'.blockSize = w.blockSize := by
      cases Writer.writeBlock_outcome hwrite
      exact ⟨rfl, rfl⟩
    refine ⟨header, store, List.mem_append_left _ hopened, hsizes.1.trans hsize, ?_, ?_⟩
    · rw [hsizes.2]
      exact hblock
    · rw [hstored]
      exact hfilled.write hwrite
  · have hall := h.receipts
    rw [hlast, Option.toList_none, List.map_nil, List.append_nil] at hall
    rw [hreceipts, hstored, hlast', hall]
    simp
  · simpa using h.unfinished

end Shelved

section Entries

variable {sha256 : Bytes → Bytes} {fields fields' : ReceiverFields} {w w' : Writer} {b : Block}

/-- A block that was written is entered. -/
theorem ReceiverFields.entries_stored (hwriter : fields.writer = some w)
    (hwrite : w.writeBlock sha256 b = .ok (w', none)) (hwriter' : fields'.writer = some w') :
    fields.entries sha256 fields' (.block (some b)) = [.stored b] := by
  have hcheck : w.checkBlock sha256 b = .ok none := by
    cases Writer.writeBlock_outcome hwrite with
    | written hcheck => exact hcheck
  simp [entries, stores, hwriter, hcheck, hwrite, hwriter']

/-- A block that was not written is not entered. -/
theorem ReceiverFields.entries_refused (hwriter : fields.writer = some w) {err : Err}
    (hwrite : w.writeBlock sha256 b = .ok (w', some err)) :
    fields.entries sha256 fields' (.block (some b)) = [] := by
  simp only [entries, stores, hwriter, hwrite, ite_eq_right_iff]
  intro h
  split at h
  · rename_i heq
    cases heq
  · cases h

/-- A receiver that stays as it is enters nothing. -/
theorem ReceiverFields.entries_same (fields : ReceiverFields) (message : Message) :
    fields.entries sha256 fields message = [] := by
  cases message with
  | header header =>
    have hopens : fields.opens fields header = none := by
      unfold opens
      split
      · rfl
      · split
        · rfl
        · cases fields.writer <;> rfl
    simp [entries, hopens]
  | block block =>
    cases block with
    | none => rfl
    | some b =>
      cases hwriter : fields.writer with
      | none => simp [entries, stores, hwriter]
      | some w =>
        simp only [entries, stores, hwriter, ite_eq_right_iff]
        intro h
        split at h
        · rename_i w' _ hwrite
          -- a writer counts the block that it has written
          cases Writer.writeBlock_outcome hwrite
          simp only [Option.some.injEq, decide_eq_true_eq] at h
          have hcount := congrArg Writer.writtenCount h
          simp at hcount
        · cases h
  | _ => rfl

end Entries

section Stages

variable {log : List LedgerEntry} {fields : ReceiverFields} {w : Writer}

/-- A receiver that has not read a header. -/
theorem ReceiverStage.of_initialized (h : ReceiverStage log .initialized fields) :
    log = [] ∧ fields.writer = none ∧ fields.lastBlock = none ∧ fields.redoBlocks = none := by
  cases h with
  | initialized hlog hwriter hlast hredo => exact ⟨hlog, hwriter, hlast, hredo⟩
  | unopened hphase => simp at hphase
  | waiting hphase => simp at hphase
  | complete hphase => simp at hphase

/-- A receiver with a writer that awaits a block has answered all blocks. -/
theorem ReceiverStage.of_needBlock (h : ReceiverStage log .needBlock fields)
    (hwriter : fields.writer = some w) :
    Shelved log fields w ∧ fields.lastBlock = none ∧ fields.redoBlocks = none := by
  cases h with
  | unopened _ hnone => simp [hwriter] at hnone
  | waiting _ hshelved hlast hredo =>
    obtain rfl := Option.some.inj (hshelved.writer.symm.trans hwriter)
    exact ⟨hshelved, hlast, hredo⟩
  | complete hphase => simp at hphase

/-- A receiver that has to answer a block has an answer, or it cannot go on. -/
theorem ReceiverStage.of_handleBlock (h : ReceiverStage log .handleBlock fields) :
    (∃ w, Shelved log fields w) ∨ fields.lastBlock = none ∧ fields.redoBlocks = none := by
  cases h with
  | unopened hphase => simp at hphase
  | waiting hphase => simp at hphase
  | answering hshelved => exact .inl ⟨_, hshelved⟩
  | stuck hlast hredo => exact .inr ⟨hlast, hredo⟩
  | complete hphase => simp at hphase

/-- A receiver that awaits or acknowledges the end of the data has stored all blocks. -/
theorem ReceiverStage.of_complete {phase : ReceiverPhase} (h : ReceiverStage log phase fields)
    (hphase : phase = .needDataSent ∨ phase = .sendDataReceived) :
    ∃ w, Shelved log fields w ∧ fields.lastBlock = none ∧ w.isDone = true := by
  cases h with
  | complete _ hshelved hlast hdone => exact ⟨_, hshelved, hlast, hdone⟩
  | unopened hother => rcases hphase with rfl | rfl <;> simp at hother
  | waiting hother => rcases hphase with rfl | rfl <;> simp at hother
  | _ => simp at hphase

end Stages

/-- What holds of a receiver and its ledger. -/
structure Accounted (log : List LedgerEntry) (phase : ReceiverPhase) (fields : ReceiverFields) :
    Prop where
  stage : ReceiverStage log phase fields
  justified : Justified Receipted log

section Accounted

variable {sha256 : Bytes → Bytes} {log : List LedgerEntry} {phase phase' : ReceiverPhase}
  {fields fields' : ReceiverFields}

/-- An entry is added that is no receipt. -/
theorem Accounted.concat (h : Accounted log phase fields) {entry : LedgerEntry}
    (hentry : entry.receipt = none) (hstage : ReceiverStage (log ++ [entry]) phase' fields') :
    Accounted (log ++ [entry]) phase' fields' :=
  ⟨hstage, justified_concat.mpr ⟨h.justified, receipted_of_none hentry⟩⟩

/-- Nothing is added. -/
theorem Accounted.keep (h : Accounted log phase fields)
    (hstage : ReceiverStage log phase' fields') :
    Accounted (log ++ []) phase' fields' := by
  rw [List.append_nil]
  exact ⟨hstage, h.justified⟩

/-- The ledger after a write. -/
theorem Accounted.write (h : Accounted log phase fields) {message : Any Message} {err : Option Err}
    (hwrite : ReceiverWrite phase fields phase' fields' message err) :
    Accounted (log ++ if err.isNone then message.toList.map .wrote else []) phase' fields' := by
  cases hwrite with
  | acknowledge =>
    refine h.concat rfl ?_
    cases h.stage with
    | unopened _ hwriter hunfinished => exact .unopened (.inr rfl) hwriter (by simpa using hunfinished)
    | waiting _ hshelved hlast hredo =>
      exact .waiting (.inr rfl) (hshelved.wrote rfl (by simp) rfl rfl) hlast hredo
    | complete hphase => simp at hphase
  | @received _ b _ hlast hnext =>
    rcases h.stage.of_handleBlock with ⟨w, hshelved⟩ | ⟨hnone, -⟩
    · exact ⟨(hshelved.received hlast).answered rfl hnext,
        justified_concat.mpr ⟨h.justified, hshelved.receipted hlast⟩⟩
    · simp [hlast] at hnone
  | @redo _ index rest _ hlast hredo hnext =>
    refine h.concat rfl ?_
    rcases h.stage.of_handleBlock with ⟨w, hshelved⟩ | ⟨-, hnone⟩
    · have hwrote : Shelved (log ++ [.wrote (.redoBlock index)])
          { fields with redoBlocks := if rest.length = 0 then none else some rest } w :=
        hshelved.wrote rfl (by simp) rfl rfl
      exact hwrote.answered hlast hnext
    · simp [hredo] at hnone
  | dataReceived =>
    obtain ⟨w, hshelved, hlast, hdone⟩ := h.stage.of_complete (.inr rfl)
    exact h.concat rfl (.finished rfl hshelved hlast hdone)
  | abort =>
    cases h.stage with
    | unopened hphase => simp at hphase
    | waiting hphase => simp at hphase
    | complete hphase => simp at hphase
  | nothing => exact h.keep h.stage

/-- The ledger after a read. -/
theorem Accounted.read (h : Accounted log phase fields) {message : Message} {err : Option Err}
    (hfits : totalSizeBelow (2 ^ 64) (.read message) = true)
    (hread : ReceiverRead sha256 phase fields message phase' fields' err) :
    Accounted (log ++ fields.entries sha256 fields' message) phase' fields' := by
  cases hread with
  | @header _ header metadata store blockSize hmetadata hsize hcreated =>
    obtain ⟨rfl, hwriter, hlast, hredo⟩ := h.stage.of_initialized
    have hentries : fields.entries sha256 { fields with
        writer := some (newWriter store header.totalSize blockSize), header := some header } (.header header) =
        [.opened header store] := by
      simp [ReceiverFields.entries, ReceiverFields.opens, hmetadata, hcreated, hwriter]
    rw [hentries]
    refine h.concat rfl (.waiting (.inl rfl) ⟨rfl, ?_, ?_, by simp⟩ hlast hredo)
    · exact ⟨header, store, by simp, rfl, hsize, Writer.filled_newWriter store (of_decide_eq_true hfits) blockSize⟩
    · rw [hlast]
      rfl
  | badHeader =>
    obtain ⟨rfl, hwriter, -, -⟩ := h.stage.of_initialized
    rw [ReceiverFields.entries_same]
    exact h.keep (.unopened (.inl rfl) hwriter (by simp))
  | stored hwriter hwrite =>
    obtain ⟨hshelved, hlast, -⟩ := h.stage.of_needBlock hwriter
    rw [ReceiverFields.entries_stored hwriter hwrite rfl]
    exact h.concat rfl (.answering (hshelved.stored hlast hwrite rfl rfl) (.inl rfl))
  | @again _ b w w' hwriter hrefused =>
    obtain ⟨hshelved, -, -⟩ := h.stage.of_needBlock hwriter
    -- the checksum is checked before the store is touched
    have hsame : w' = w := by
      cases Writer.writeBlock_outcome hrefused with
      | refused => rfl
      | failed herr => cases herr
    rw [ReceiverFields.entries_refused hwriter hrefused]
    refine h.keep (.answering (w := w) ?_ (.inr rfl))
    exact ⟨by rw [hsame], hshelved.opened, hshelved.receipts, hshelved.unfinished⟩
  | refused hwriter hrefused =>
    obtain ⟨hshelved, hlast, hredo⟩ := h.stage.of_needBlock hwriter
    rw [ReceiverFields.entries_refused hwriter hrefused]
    exact h.keep (.stuck hlast hredo hshelved.unfinished)
  | dataSent =>
    obtain ⟨w, hshelved, hlast, hdone⟩ := h.stage.of_complete (.inl rfl)
    rw [ReceiverFields.entries_same]
    exact h.keep (.complete (.inr rfl) hshelved hlast hdone)
  | unexpected =>
    rw [ReceiverFields.entries_same]
    exact h.keep h.stage

end Accounted

/-- A receiver, by its phase and its fields, with its ledger. -/
abbrev ReceiverLedger := Ledger (ReceiverPhase × ReceiverFields)

/-- What holds of a receiver and its ledger in every state of every run. -/
theorem accounted_of_reached {sha256 : Bytes → Bytes} {writerFactory : WriterFactory} {g : ReceiverLedger}
    (h : Reached (Ledger.step sha256 (receiverMachine sha256).side Prod.snd)
      (fun _ call => totalSizeBelow (2 ^ 64) call)
      ⟨(.initialized, .new writerFactory), []⟩ g) : Accounted g.log g.side.1 g.side.2 := by
  refine h.invariant (fun g => Accounted g.log g.side.1 g.side.2) ⟨.initialized rfl rfl rfl rfl, justified_nil⟩ ?_
  intro g call g' hg hfits hstep
  cases call with
  | write =>
    rcases hwrite : g.side.1.write g.side.2 with value | ⟨phase, fields, message, err⟩
    · simp [Ledger.step, Solo.step, Solo.call, Machine.side, receiverMachine, hwrite] at hstep
    · simp only [Ledger.step, Solo.step, Solo.call, Machine.side, receiverMachine, hwrite,
        Call.ok_bind, Call.pure_eq_ok, Option.map_some, Option.some.injEq] at hstep
      obtain rfl := hstep
      have hwritten := hg.write (ReceiverPhase.write_cases hwrite)
      cases err <;> cases message <;> exact hwritten
  | read message =>
    rcases hread : g.side.1.read sha256 g.side.2 message with value | ⟨phase, fields, err⟩
    · simp [Ledger.step, Solo.step, Solo.call, Machine.side, receiverMachine, hread] at hstep
    · simp only [Ledger.step, Solo.step, Solo.call, Machine.side, receiverMachine, hread,
        Call.ok_bind, Call.pure_eq_ok, Option.map_some, Option.some.injEq] at hstep
      obtain rfl := hstep
      exact hg.read hfits (ReceiverPhase.read_cases hread)

/-- A ledger with the end of the data belongs to a receiver that is finished. -/
theorem ReceiverStage.of_dataReceived {log before after : List LedgerEntry} {phase : ReceiverPhase}
    {fields : ReceiverFields} (h : ReceiverStage log phase fields)
    (hlog : log = before ++ .wrote .dataReceived :: after) :
    ∃ w, Shelved before fields w ∧ fields.lastBlock = none ∧ w.isDone = true := by
  have hmem : .wrote .dataReceived ∈ log := by simp [hlog]
  cases h with
  | initialized hnil => simp [hnil] at hmem
  | unopened _ _ hunfinished => exact absurd hmem hunfinished
  | waiting _ hshelved => exact absurd hmem hshelved.unfinished
  | answering hshelved => exact absurd hmem hshelved.unfinished
  | stuck _ _ hunfinished => exact absurd hmem hunfinished
  | complete _ hshelved => exact absurd hmem hshelved.unfinished
  | @finished early _ w hearly hshelved hlast hdone =>
    rw [hlog] at hearly
    -- the entry is the last one, since there is none before it
    rcases List.eq_nil_or_concat after with rfl | ⟨rest, last, rfl⟩
    · obtain ⟨rfl, -⟩ := List.append_inj' hearly rfl
      exact ⟨w, hshelved, hlast, hdone⟩
    · rw [List.concat_eq_append, ← List.cons_append, ← List.append_assoc] at hearly
      obtain ⟨rfl, -⟩ := List.append_inj' hearly rfl
      exact absurd (by simp) hshelved.unfinished

/-- In every run of a receiver that has not panicked, whatever its peer sends: a receipt is written
after its block has passed the checks and was stored, and only once for each block. If the end of
the data is acknowledged, every block was acknowledged before, there is one stored block for each
index, and the store has exactly the data of the stored blocks at their offsets; behind the total
size it is as the factory has created it. -/
theorem receipts_mean_stored (sha256 : Bytes → Bytes) (writerFactory : WriterFactory) :
    ∃ receiver, newReceiver sha256 writerFactory = .ok receiver ∧
      ∀ g, Reached (Ledger.step sha256 Peer.side Peer.world)
        (fun _ call => totalSizeBelow (2 ^ 64) call) ⟨receiver, []⟩ g →
        (∀ (before : List LedgerEntry) (i : ℕ) (after : List LedgerEntry),
          g.log = before ++ .wrote (.blockReceived i) :: after →
          (∃ b : Block, .stored b ∈ before ∧ b.index = i) ∧ .wrote (.blockReceived i) ∉ before) ∧
        ∀ before after : List LedgerEntry, g.log = before ++ .wrote .dataReceived :: after →
          ∃ (header : Header) (store : Store) (w : Writer), .opened header store ∈ before ∧
            g.side.world.writer = some w ∧ w.totalSize = header.totalSize ∧ w.blockSize.bytes = header.blockSize ∧
            (∀ i < w.blockCount, .wrote (.blockReceived i) ∈ before) ∧
            (∀ i < w.blockCount, ∃ b : Block, .stored b ∈ before ∧ b.index = i) ∧
            (∀ b b' : Block, .stored b ∈ before → .stored b' ∈ before → b.index = b'.index → b = b') ∧
            (∀ b : Block, .stored b ∈ before →
              ∀ j < b.data.length, w.writer.data[w.offset b.index + j]? = b.data[j]?) ∧
            (∀ p < w.totalSize, ∃ b : Block, .stored b ∈ before ∧ w.offset b.index ≤ p ∧
              p < w.offset b.index + b.data.length) ∧
            w.writer.data.length = store.data.length ∧
            ∀ p, w.totalSize ≤ p → w.writer.data[p]? = store.data[p]? := by
  obtain ⟨client, hreceiver, hclient⟩ := newReceiver_ok sha256 writerFactory
  have ha := (receiver_implements sha256).embeds hclient
  refine ⟨_, hreceiver, ?_⟩
  intro q hq
  obtain ⟨g, rfl, hg⟩ := Ledger.reached_of_map ha (fun _ => rfl) ⟨(.initialized, .new writerFactory), []⟩ hq
  obtain ⟨hstage, hjustified⟩ := accounted_of_reached hg
  refine ⟨?_, ?_⟩
  · intro before i after hlog
    obtain ⟨hstored, hfirst⟩ := hjustified before _ after hlog i rfl
    exact ⟨hstored, fun hmem => hfirst (mem_receiptsOf.mpr hmem)⟩
  · intro before after hlog
    obtain ⟨w, hshelved, hlast, hdone⟩ := hstage.of_dataReceived hlog
    obtain ⟨header, store, hopened, hsize, hblock, hfilled⟩ := hshelved.opened
    have hreceipts := hshelved.receipts
    rw [hlast, Option.toList_none, List.map_nil, List.append_nil] at hreceipts
    have hall {i : ℕ} (hi : i < w.blockCount) : ∃ b, .stored b ∈ before ∧ b.index = i := by
      obtain ⟨b, hb, hindex⟩ := hfilled.all_written hdone hi
      exact ⟨b, mem_storedBlocks.mp hb, hindex⟩
    have hoffset {b : Block} (hb : .stored b ∈ before) : w.offset b.index = b.index * w.blockSize.bytes :=
      (hfilled.offset_eq ((hfilled.marked b.index).mpr ⟨b, mem_storedBlocks.mpr hb, rfl⟩)).2.2
    refine ⟨header, store, w, hopened, hshelved.writer, hsize, hblock, ?_, fun i => hall, ?_, ?_, ?_, hfilled.length,
      hfilled.rest⟩
    · intro i hi
      obtain ⟨b, hb, rfl⟩ := hall hi
      rw [← mem_receiptsOf, hreceipts]
      exact List.mem_map_of_mem (mem_storedBlocks.mpr hb)
    · intro b b' hb hb' hindex
      exact hfilled.eq_of_index (mem_storedBlocks.mpr hb) (mem_storedBlocks.mpr hb') hindex
    · intro b hb j hj
      rw [hoffset hb]
      exact hfilled.content b (mem_storedBlocks.mpr hb) j hj
    · intro p hp
      obtain ⟨b, hb, hle, hlt⟩ := hfilled.exists_block hdone hp
      have hb' := mem_storedBlocks.mp hb
      rw [← hoffset hb'] at hle hlt
      exact ⟨b, hb', hle, hlt⟩

/-- A receiver is sent a damaged block, its two blocks in the wrong order and the end of the data;
all checksums are empty. -/
def disorderedCalls : List (SideCall Message) :=
  [.read (.header ⟨some ⟨[100]⟩, 2, 1⟩), .write, .read (.block (some ⟨0, [7], [1]⟩)), .write,
    .read (.block (some ⟨1, [8], []⟩)), .write, .write, .read (.block (some ⟨0, [7], []⟩)), .write, .read .dataSent,
    .write]

/-- The receiver of these calls acknowledges both blocks and the end of the data. -/
theorem receipts_mean_stored_disordered :
    ∃ receiver, newReceiver (fun _ => []) (fun _ size => .ok (.make size)) = .ok receiver ∧
      ∃ g, Reached (Ledger.step (fun _ => []) Peer.side Peer.world)
        (fun _ call => totalSizeBelow (2 ^ 64) call) ⟨receiver, []⟩ g ∧
        receiptsOf g.log = [1, 0] ∧ ∃ before w, g.log = before ++ [.wrote .dataReceived] ∧
          g.side.world.writer = some w ∧ ∀ i < w.blockCount, .wrote (.blockReceived i) ∈ before := by
  obtain ⟨receiver, hreceiver, hall⟩ := receipts_mean_stored (fun _ => []) (fun _ size => .ok (.make size))
  have hrun : (do
      let receiver ← newReceiver (fun _ => []) (fun _ size => .ok (.make size))
      return (execute (Ledger.step (fun _ => []) Peer.side Peer.world)
        (fun _ call => totalSizeBelow (2 ^ 64) call) disorderedCalls ⟨receiver, []⟩).map Ledger.log) = (.ok (some
      [.opened ⟨some ⟨[100]⟩, 2, 1⟩ (.make 2), .wrote .acknowledge, .wrote (.redoBlock 0), .stored ⟨1, [8], []⟩,
        .wrote (.blockReceived 1), .wrote (.redoBlock 0), .stored ⟨0, [7], []⟩, .wrote (.blockReceived 0),
        .wrote .dataReceived]) : Go _) := rfl
  simp only [hreceiver, Call.ok_bind, Call.pure_eq_ok, Except.ok.injEq,
    Option.map_eq_some_iff] at hrun
  obtain ⟨g, hg, hlog⟩ := hrun
  have hreached := reached_of_execute disorderedCalls hg
  obtain ⟨header, store, w, -, hwriter, -, -, hacknowledged, -⟩ :=
    (hall g hreached).2 (g.log.take 8) [] (by rw [hlog]; rfl)
  refine ⟨receiver, hreceiver, g, hreached, ?_, g.log.take 8, w, ?_, hwriter, hacknowledged⟩
  · rw [hlog]
    rfl
  · rw [hlog]
    rfl

end ProjektCore.Transfer
