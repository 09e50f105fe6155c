import Mathlib.Data.List.Count
import ProjektCore.Transfer.SenderCalls

/-!
# A sender and an arbitrary peer

A sender over any store is called in any order with any messages of the protocol. Its record of
receipts stays consistent throughout, and a read panics exactly on an answer about a block that does
not exist. In runs without refused messages a block is due only if the reader has one, except that a
sender without any data owes a block after its header.
-/

namespace ProjektCore.Transfer

open Foundation Protocol

/-- A sender, by its phase and its fields, and what it did so far. -/
abbrev SoloSender := Solo (SenderPhase × SenderFields) Message

/-- What every call keeps: the sizes, and a count that fits the receipts. -/
structure Kept (size : ℕ) (s : Size) (fields : SenderFields) : Prop where
  totalSize : fields.reader.totalSize = size
  blockSize : fields.reader.blockSize = s
  bitmap : fields.received.length = s.blockCount size
  count : fields.receivedCount = fields.received.count true

section Kept

variable {sha256 : Bytes → Bytes} {size : ℕ} {s : Size} {phase phase' : SenderPhase}
  {fields fields' : SenderFields}

/-- A new sender has recorded no receipt. -/
theorem kept_new (metadata : Option Metadata) (store : Store) (size : ℕ) (s : Size) :
    Kept size s (.new metadata (newBlockReader store size s)) :=
  ⟨rfl, rfl, by simp [SenderFields.new, newBlockReader, Reader.blockCount],
    by simp [SenderFields.new, List.count_replicate]⟩

/-- The blocks of the reader. -/
theorem Kept.blockCount_eq (h : Kept size s fields) :
    fields.reader.blockCount = s.blockCount size := by
  rw [Reader.blockCount, h.blockSize, h.totalSize]

/-- No more receipts are counted than there are blocks. -/
theorem Kept.count_le (h : Kept size s fields) : fields.receivedCount ≤ s.blockCount size := by
  rw [h.count, ← h.bitmap]
  exact List.count_le_length

/-- A missing receipt leaves room in the count. -/
theorem Kept.room (h : Kept size s fields) (hmissing : false ∈ fields.received) :
    fields.receivedCount + 1 ≤ fields.reader.blockCount := by
  rw [h.blockCount_eq, h.count, ← h.bitmap]
  exact List.count_lt_length_iff.mpr ⟨false, hmissing, by decide⟩

/-- All receipts are recorded once their count is the number of blocks. -/
theorem Kept.all_received (h : Kept size s fields)
    (hcount : fields.reader.blockCount ≤ fields.receivedCount) {i : ℕ}
    (hi : i < s.blockCount size) : fields.received[i]? = some true := by
  have hall : ∀ b ∈ fields.received, true = b := by
    rw [← List.count_eq_length, h.bitmap, ← h.count]
    exact le_antisymm h.count_le (h.blockCount_eq ▸ hcount)
  have hlt : i < fields.received.length := by rwa [h.bitmap]
  rw [List.getElem?_eq_getElem hlt, ← hall _ (List.getElem_mem hlt)]

/-- Another reader of the same sizes changes nothing that is kept. -/
theorem Kept.withReader (h : Kept size s fields) {reader : Reader} (hsize : reader.totalSize = size)
    (hblock : reader.blockSize = s) : Kept size s (fields.withReader reader) :=
  ⟨hsize, hblock, h.bitmap, h.count⟩

/-- A recorded receipt is counted. -/
theorem Kept.acknowledged (h : Kept size s fields) {index : ℕ}
    (hmissing : fields.received[index]? = some false) :
    Kept size s (fields.acknowledged index) := by
  obtain ⟨hlt, hbit⟩ := List.getElem?_eq_some_iff.mp hmissing
  refine ⟨h.totalSize, h.blockSize, ?_, ?_⟩
  · simp only [SenderFields.acknowledged, List.length_set]
    exact h.bitmap
  · simp only [SenderFields.acknowledged, h.count]
    rw [List.count_set hlt, hbit]
    simp

/-- The sizes of a reader do not change when it advances. -/
theorem Reader.advanced_sizes (r : Reader) :
    r.advanced.totalSize = r.totalSize ∧ r.advanced.blockSize = r.blockSize := by
  unfold Reader.advanced
  split
  · exact ⟨rfl, rfl⟩
  · exact ⟨rfl, rfl⟩

/-- Every write keeps the record. -/
theorem Kept.write (h : Kept size s fields) {message : Any Message} {err : Option Err}
    (hwrite : SenderWrite sha256 phase fields phase' fields' message err) :
    Kept size s fields' := by
  cases hwrite with
  | header => exact h
  | block hsends hdata hinside hused hblock =>
    obtain ⟨hsize, hbytes⟩ := fields.reader.advanced_sizes
    exact h.withReader (hsize.trans h.totalSize) (hbytes.trans h.blockSize)
  | failed err hsends hused => exact h.withReader h.totalSize h.blockSize
  | dataSent => exact h
  | abort => exact h
  | nothing hsilent => exact h

/-- Every accepted read keeps the record. -/
theorem Kept.read (h : Kept size s fields) {message : Message}
    (hread : SenderRead phase fields message phase' fields') : Kept size s fields' := by
  cases hread with
  | prologueEnds => exact h
  | allSent => exact h
  | received htakes hmissing => exact h.acknowledged hmissing
  | redo htakes hmissing hinside hwritten hsingle => exact h.withReader h.totalSize h.blockSize
  | dataReceived hcomplete => exact h
  | abort hrunning => exact h

/-- Every call keeps the record, whether or not it returns an error. -/
theorem Kept.step {r q : SoloSender} (h : Kept size s r.side.2) {call : SideCall Message}
    (hstep : r.step (senderMachine sha256).side call = some q) : Kept size s q.side.2 := by
  cases call with
  | write =>
    obtain ⟨phase, fields, message, err, hwrite, rfl⟩ := Solo.step_write.mp hstep
    exact h.write (SenderPhase.write_cases hwrite)
  | read message =>
    obtain ⟨phase, fields, err, hread, rfl⟩ := Solo.step_read.mp hstep
    cases err with
    | none => exact h.read (SenderPhase.read_cases hread)
    | some err =>
      have hsame : fields = r.side.2 := SenderPhase.read_refused hread
      rw [hsame]
      exact h

end Kept

/-- The start of a sender. -/
def soloStart (metadata : Option Metadata) (store : Store) (size : ℕ) (s : Size) : SoloSender :=
  ⟨(.initialized, .new metadata (newBlockReader store size s)), []⟩

/-- A phase takes answers exactly in three states. -/
theorem takesAnswers_iff_state (phase : SenderPhase) :
    phase.takesAnswers = true ↔ phase.state ∈ [inProgress, transferred, needDataReceived] := by
  cases phase <;> decide

/-- A read panics exactly on an answer about a block that does not exist, in a state that takes
answers. -/
theorem sender_read_panics_iff (sha256 : Bytes → Bytes) (metadata : Option Metadata) (store : Store)
    (size : ℕ) (s : Size) :
    ∃ sender, newSender sha256 metadata (newBlockReader store size s) = .ok sender ∧
      ∀ r, Reached (Solo.step Peer.side) anyStep ⟨sender, []⟩ r → ∀ message, message ≠ .other →
        ((∃ value, Peer.side.read r.side message = .error value) ↔
          r.side.client.state ∈ [inProgress, transferred, needDataReceived] ∧
            message.pointsBehind (s.blockCount size) = true) := by
  obtain ⟨client, hsender, hclient⟩ := newSender_ok sha256 metadata (newBlockReader store size s)
  have ha := (sender_implements sha256).embeds hclient
  refine ⟨_, hsender, ?_⟩
  intro q hq message hother
  obtain ⟨r, rfl, hr⟩ := Solo.reached_of_map ha (soloStart metadata store size s) hq
  have hkept : Kept size s r.side.2 :=
    hr.invariant (fun r => Kept size s r.side.2) (kept_new metadata store size s)
      fun _ _ _ h _ hstep => h.step hstep
  have hpanics (value : Panic Err) : r.side.1.read r.side.2 message = .error value ↔ _ :=
    SenderPhase.read_panics_iff hother hkept.room
  have hsome : (∃ value, r.side.1.read r.side.2 message = .error value) ↔ _ := exists_congr hpanics
  rw [hkept.bitmap, takesAnswers_iff_state, exists_and_left,
    and_iff_left ⟨indexPanic, rfl⟩] at hsome
  exact (exists_congr fun _ => ha.read_panics.trans Machine.side_read_panics).trans hsome

/-- The receipt of a block that does not exist crashes a sender of one block. -/
theorem foreign_receipt_panics :
    ∃ sender r, newSender id (some ⟨[100]⟩) (newBlockReader (.ofBytes [7]) 1 ⟨1, by decide⟩) = .ok sender ∧
      Reached (Solo.step Peer.side) anyStep ⟨sender, []⟩ r ∧
      Peer.side.read r.side (.blockReceived 1) = panicRuntime "index out of range" := by
  obtain ⟨client, hsender, -⟩ :=
    newSender_ok id (some ⟨[100]⟩) (newBlockReader (.ofBytes [7]) 1 ⟨1, by decide⟩)
  obtain ⟨r, hr, hpanic⟩ := Solo.exists_reached Peer.side anyStep hsender [.write, .read .acknowledge]
    (fun r => Peer.side.read r.side (.blockReceived 1)) (panicRuntime "index out of range") rfl
  exact ⟨_, r, hsender, hr, hpanic⟩

/-- The receipt of the only block does not crash a sender that has just sent it. -/
theorem sender_read_panics_iff_one_block :
    ∃ sender r, newSender id (some ⟨[100]⟩) (newBlockReader (.ofBytes [7]) 1 ⟨1, by decide⟩) = .ok sender ∧
      Reached (Solo.step Peer.side) anyStep ⟨sender, []⟩ r ∧ r.side.client.state = transferred ∧
      ¬ ∃ value, Peer.side.read r.side (.blockReceived 0) = .error value := by
  obtain ⟨sender, hsender, hall⟩ :=
    sender_read_panics_iff id (some ⟨[100]⟩) (.ofBytes [7]) 1 ⟨1, by decide⟩
  obtain ⟨r, hr, hstate⟩ := Solo.exists_reached Peer.side anyStep hsender [.write, .write, .read .acknowledge]
    (fun r => r.side.client.state) transferred rfl
  refine ⟨sender, r, hsender, hr, hstate, ?_⟩
  rw [hall r hr (.blockReceived 0) (by decide)]
  rintro ⟨-, hbehind⟩
  exact absurd hbehind (by decide)

/-- In runs without refused messages: what is queued again starts inside the file, and a block is
due only if the reader has one, provided that there is any data. -/
structure Ready (size : ℕ) (r : SoloSender) : Prop where
  fresh : r.side.1 = .initialized → r.side.2.reader.nextIndex = 0 ∧ r.side.2.reader.redoBlocks = []
  inside : ∀ i ∈ r.side.2.reader.redoBlocks, r.side.2.reader.offset i < r.side.2.reader.totalSize
  hasData : 0 < size → r.side.1.sendsBlocks = true → r.side.2.reader.isDone = false

section Ready

variable {sha256 : Bytes → Bytes} {size : ℕ} {s : Size} {phase phase' : SenderPhase}
  {fields fields' : SenderFields} {history history' : List (Deed Message)}

/-- A new sender is ready. -/
theorem ready_start (metadata : Option Metadata) (store : Store) (size : ℕ) (s : Size) :
    Ready size (soloStart metadata store size s) :=
  ⟨fun _ => ⟨rfl, rfl⟩, by simp [soloStart, SenderFields.new, newBlockReader],
    by simp [soloStart, SenderPhase.sendsBlocks]⟩

/-- A reader that reads no block again is done exactly if its next block starts behind the end. -/
theorem Reader.isDone_of_redoBlocks_nil {r : Reader} (h : r.redoBlocks = []) :
    r.isDone = decide (r.totalSize ≤ r.offset r.nextIndex) := by
  simp [Reader.isDone, h]

/-- A reader that has to read a block again is not done. -/
theorem Reader.isDone_of_mem_redoBlocks {r : Reader} {i : ℕ} (h : i ∈ r.redoBlocks) :
    r.isDone = false := by
  have hpos : r.redoBlocks.length ≠ 0 := (List.length_pos_of_mem h).ne'
  simp [Reader.isDone, hpos]

/-- What is queued again after a block was read was queued before. -/
theorem Reader.mem_of_mem_advanced {r : Reader} {i : ℕ} (h : i ∈ r.advanced.redoBlocks) :
    i ∈ r.redoBlocks := by
  unfold Reader.advanced at h
  split at h
  · rename_i hredo
    rw [hredo]
    exact List.mem_cons_of_mem _ h
  · exact h

/-- The offsets of a reader do not change when it advances. -/
theorem Reader.advanced_offset (r : Reader) (i : ℕ) : r.advanced.offset i = r.offset i := by
  rw [Reader.offset, Reader.offset, r.advanced_sizes.2]

/-- Every write keeps a sender ready. -/
theorem Ready.write (hkept : Kept size s fields) (h : Ready size ⟨(phase, fields), history⟩)
    {message : Any Message} {err : Option Err}
    (hwrite : SenderWrite sha256 phase fields phase' fields' message err) :
    Ready size ⟨(phase', fields'), history'⟩ := by
  cases hwrite with
  | header =>
    refine ⟨by simp, h.inside, ?_⟩
    intro hpos _
    obtain ⟨hnext, hredo⟩ := h.fresh rfl
    change fields.reader.nextIndex = 0 at hnext
    rw [Reader.isDone_of_redoBlocks_nil hredo, hkept.totalSize, hnext, Reader.offset, Size.offset]
    simpa using hpos.ne'
  | block hsends hdata hinside hused hblock =>
    refine ⟨?_, ?_, ?_⟩
    · cases phase <;> simp [SenderPhase.sendsBlocks] at hsends <;> split <;> simp [SenderPhase.afterLast]
    · intro i hi
      have hinside := h.inside i (Reader.mem_of_mem_advanced hi)
      rw [← Reader.advanced_offset, ← fields.reader.advanced_sizes.1] at hinside
      exact hinside
    · intro _ hsends'
      change fields.reader.advanced.isDone = false
      cases hdone : fields.reader.advanced.isDone with
      | false => rfl
      | true => cases phase <;> simp [hdone, SenderPhase.afterLast, SenderPhase.sendsBlocks] at hsends hsends'
  | failed err hsends hused => exact ⟨fun hphase => h.fresh hphase, h.inside, h.hasData⟩
  | dataSent => exact ⟨by simp, h.inside, by simp [SenderPhase.sendsBlocks]⟩
  | abort => exact ⟨by simp, h.inside, by simp [SenderPhase.sendsBlocks]⟩
  | nothing hsilent => exact ⟨h.fresh, h.inside, h.hasData⟩

/-- Every accepted read keeps a sender ready. -/
theorem Ready.read (h : Ready size ⟨(phase, fields), history⟩) {message : Message}
    (hread : SenderRead phase fields message phase' fields') :
    Ready size ⟨(phase', fields'), history'⟩ := by
  cases hread with
  | prologueEnds => exact ⟨by simp, h.inside, fun hpos _ => h.hasData hpos rfl⟩
  | allSent => exact ⟨by simp, h.inside, by simp [SenderPhase.sendsBlocks]⟩
  | received htakes hmissing => exact ⟨h.fresh, h.inside, h.hasData⟩
  | @redo _ _ index htakes hmissing hinside hwritten hsingle =>
    refine ⟨by simp, ?_, ?_⟩
    · intro i hi
      rcases List.mem_append.mp hi with hi | hi
      · exact h.inside i hi
      · rw [List.mem_singleton.mp hi]
        exact hinside
    · intro _ _
      exact Reader.isDone_of_mem_redoBlocks (List.mem_append_right _ (List.mem_singleton.mpr rfl))
  | dataReceived hcomplete => exact ⟨by simp, h.inside, by simp [SenderPhase.sendsBlocks]⟩
  | abort hrunning => exact ⟨by simp, h.inside, by simp [SenderPhase.sendsBlocks]⟩

/-- Every call that is not refused keeps a sender ready. -/
theorem Ready.step {r q : SoloSender} (hkept : Kept size s r.side.2) (h : Ready size r)
    {call : SideCall Message} (haccepting : Solo.Accepting (senderMachine sha256).side r call)
    (hstep : r.step (senderMachine sha256).side call = some q) : Ready size q := by
  cases call with
  | write =>
    obtain ⟨phase, fields, message, err, hwrite, rfl⟩ := Solo.step_write.mp hstep
    exact Ready.write hkept h (SenderPhase.write_cases hwrite)
  | read message =>
    obtain ⟨phase, fields, hread, rfl⟩ := Solo.step_accepted haccepting hstep
    exact Ready.read h (SenderPhase.read_cases hread)

/-- Every state of a run without refused messages keeps the record and is ready. -/
theorem ready_of_reached {metadata : Option Metadata} {store : Store} {r : SoloSender}
    (h : Reached (Solo.step (senderMachine sha256).side) (Solo.Accepting (senderMachine sha256).side)
      (soloStart metadata store size s) r) : Kept size s r.side.2 ∧ Ready size r :=
  h.invariant (fun r => Kept size s r.side.2 ∧ Ready size r)
    ⟨kept_new metadata store size s, ready_start metadata store size s⟩
    fun _ _ _ hr haccepting hstep => ⟨hr.1.step hstep, hr.2.step hr.1 haccepting hstep⟩

end Ready

/-- Without refused messages a sender that can write does so without a panic, and has data in the
states in which it writes blocks, exactly if there is any data. -/
theorem sender_write_returns_iff (sha256 : Bytes → Bytes) (metadata : Option Metadata)
    (store : Store) (size : ℕ) (s : Size) :
    ∃ sender, newSender sha256 metadata (newBlockReader store size s) = .ok sender ∧
      ((∀ r, Reached (Solo.step Peer.side) (Solo.Accepting Peer.side) ⟨sender, []⟩ r →
        r.side.client.canWrite = true → ∃ result, Peer.side.write r.side = .ok result) ↔ 0 < size) ∧
      ((∀ r, Reached (Solo.step Peer.side) (Solo.Accepting Peer.side) ⟨sender, []⟩ r →
        r.side.client.state = inPrologue ∨ r.side.client.state = inProgress →
          r.side.world.reader.hasData = true) ↔ 0 < size) := by
  obtain ⟨client, hsender, hclient⟩ := newSender_ok sha256 metadata (newBlockReader store size s)
  have ha := (sender_implements sha256).embeds hclient
  refine ⟨_, hsender, ?_⟩
  -- Without data the state after the header is the one that goes wrong.
  have hheader : Reached (Solo.step Peer.side) (Solo.Accepting Peer.side)
      ((soloStart metadata store size s).map ((senderMachine sha256).peer client))
      (Solo.map ((senderMachine sha256).peer client) ⟨(.inPrologue, .new metadata (newBlockReader store size s)),
        [.wrote (.header (SenderFields.createHeader (.new metadata (newBlockReader store size s))))]⟩) := by
    have hwrite : Solo.Accepting Peer.side
        ((soloStart metadata store size s).map ((senderMachine sha256).peer client)) .write := rfl
    refine .next .start hwrite ?_
    rw [Solo.step_map ha]
    rfl
  have hempty (hsize : ¬ 0 < size) : (newBlockReader store size s).isDone = true := by
    rw [Reader.isDone_of_redoBlocks_nil rfl, Nat.eq_zero_of_not_pos hsize]
    rfl
  refine ⟨⟨?_, ?_⟩, ⟨?_, ?_⟩⟩
  · intro hall
    by_contra hsize
    obtain ⟨result, hresult⟩ :=
      Machine.side_write_returns.mp (ha.write_returns.mp (hall _ hheader (ha.canWrite _)))
    simp [senderMachine, SenderPhase.write, SenderPhase.writeBlock, SenderFields.nextBlock,
      Reader.hasData, SenderFields.new, hempty hsize, panicText] at hresult
  · intro hsize q hq _
    obtain ⟨r, rfl, hr⟩ := Solo.accepting_of_map ha (soloStart metadata store size s) hq
    obtain ⟨-, hready⟩ := ready_of_reached hr
    exact ha.write_returns.mpr (Machine.side_write_returns.mpr
      (SenderPhase.write_returns sha256 (hready.hasData hsize)
        fun hsends => Reader.upcoming_inside (hready.hasData hsize hsends) hready.inside))
  · intro hall
    by_contra hsize
    have hdata := hall _ hheader (.inl rfl)
    change (!(newBlockReader store size s).isDone) = true at hdata
    rw [hempty hsize] at hdata
    cases hdata
  · intro hsize q hq hstate
    obtain ⟨r, rfl, hr⟩ := Solo.accepting_of_map ha (soloStart metadata store size s) hq
    obtain ⟨-, hready⟩ := ready_of_reached hr
    have hsends : r.side.1.sendsBlocks = true := by
      have hphase : r.side.1.state = inPrologue ∨ r.side.1.state = inProgress := hstate
      revert hphase
      cases r.side.1 <;> decide
    change (!r.side.2.reader.isDone) = true
    rw [hready.hasData hsize hsends]
    rfl

/-- A sender without data panics after its header although it can write. -/
theorem empty_sender_panics :
    ∃ sender r, newSender id (some ⟨[100]⟩) (newBlockReader (.ofBytes []) 0 ⟨1, by decide⟩) = .ok sender ∧
      Reached (Solo.step Peer.side) (Solo.Accepting Peer.side) ⟨sender, []⟩ r ∧
      r.side.client.canWrite = true ∧
      Peer.side.write r.side = panicText "expected data but no data to write" := by
  obtain ⟨client, hsender, -⟩ :=
    newSender_ok id (some ⟨[100]⟩) (newBlockReader (.ofBytes []) 0 ⟨1, by decide⟩)
  obtain ⟨r, hr, hshown⟩ := Solo.exists_reached Peer.side (Solo.Accepting Peer.side) hsender [.write]
    (fun r => (r.side.client.canWrite, Peer.side.write r.side))
    (true, panicText "expected data but no data to write") rfl
  exact ⟨_, r, hsender, hr, congrArg Prod.fst hshown, congrArg Prod.snd hshown⟩

/-- A sender of one byte writes its block after the header. -/
theorem sender_write_returns_iff_one_byte :
    ∃ sender r, newSender id (some ⟨[100]⟩) (newBlockReader (.ofBytes [7]) 1 ⟨1, by decide⟩) = .ok sender ∧
      Reached (Solo.step Peer.side) (Solo.Accepting Peer.side) ⟨sender, []⟩ r ∧
      r.side.client.state = inPrologue ∧ r.side.world.reader.hasData = true ∧
      ∃ result, Peer.side.write r.side = .ok result := by
  obtain ⟨sender, hsender, hwrites, hdata⟩ :=
    sender_write_returns_iff id (some ⟨[100]⟩) (.ofBytes [7]) 1 ⟨1, by decide⟩
  obtain ⟨r, hr, hshown⟩ := Solo.exists_reached Peer.side (Solo.Accepting Peer.side) hsender [.write]
    (fun r => (r.side.client.canWrite, r.side.client.state)) (true, inPrologue) rfl
  have hstate := congrArg Prod.snd hshown
  exact ⟨sender, r, hsender, hr, hstate, hdata.mpr (by decide) r hr (.inl hstate),
    hwrites.mpr (by decide) r hr (congrArg Prod.fst hshown)⟩

end ProjektCore.Transfer
