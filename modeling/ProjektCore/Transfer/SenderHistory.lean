import ProjektCore.Foundation.Lists
import ProjektCore.Transfer.SenderRun

/-!
# What a finished sender has done

In a run without refused messages the history of a sender determines what it still owes: every block
before its position was written, a block that was requested again is queued or was written after the
request, and a block counts as received only if its receipt was accepted. A finished sender owes
nothing, whatever its peer did.
-/

namespace ProjektCore.Transfer

open Foundation Protocol

/-- A block was written later than an entry of the history. -/
def WrittenAfter (history : List (Deed Message)) (entry index : ℕ) : Prop :=
  ∃ later b, entry < later ∧ history[later]? = some (.wrote (.block (some b))) ∧ b.index = index

/-- A longer history has written what it had written. -/
theorem WrittenAfter.append {history : List (Deed Message)} {entry index : ℕ}
    (h : WrittenAfter history entry index) (more : List (Deed Message)) :
    WrittenAfter (history ++ more) entry index := by
  obtain ⟨later, b, hlater, hentry, hindex⟩ := h
  refine ⟨later, b, hlater, ?_, hindex⟩
  rw [List.getElem?_append_left (List.getElem?_eq_some_iff.mp hentry).1]
  exact hentry

/-- The end of a history is later than each of its entries. -/
theorem writtenAfter_concat {history : List (Deed Message)} {entry : ℕ} (h : entry < history.length)
    (b : Block) :
    WrittenAfter (history ++ [.wrote (.block (some b))]) entry b.index :=
  ⟨history.length, b, h, List.getElem?_concat_length, rfl⟩

/-- The phases in which every block was written and none has to be written again. -/
def SenderPhase.pastBlocks : SenderPhase → Bool
  | .needAcknowledge | .transferred | .needDataReceived | .done => true
  | _ => false

/-- The messages begin with the only header. -/
def Headed (messages : List Message) : Prop :=
  ∃ header rest, messages = .header header :: rest ∧ ∀ header, .header header ∉ rest

/-- Further messages that are no header leave the only header at the beginning. -/
theorem Headed.append {messages : List Message} (h : Headed messages) {message : Message}
    (hmessage : ∀ header, message ≠ .header header) : Headed (messages ++ [message]) := by
  obtain ⟨header, rest, rfl, hrest⟩ := h
  refine ⟨header, rest ++ [message], rfl, ?_⟩
  intro header' hmem
  rcases List.mem_append.mp hmem with hmem | hmem
  · exact hrest header' hmem
  · exact hmessage header' (List.mem_singleton.mp hmem).symm

/-- How the history of a sender relates to its phase and its fields. -/
structure Recorded (r : SoloSender) : Prop where
  fresh : r.side.1 = .initialized → r.history = []
  headed : r.side.1 ≠ .initialized → r.side.1 ≠ .aborted → Headed r.written
  blocks : ∀ i < r.side.2.reader.nextIndex, ∃ b, .block (some b) ∈ r.written ∧ b.index = i
  repeated : ∀ entry i, r.history[entry]? = some (.accepted (.redoBlock i)) →
    i ∈ r.side.2.reader.redoBlocks ∨ WrittenAfter r.history entry i
  exhausted : r.side.1.pastBlocks = true → r.side.2.reader.isDone = true
  announced : r.side.1 = .needDataReceived ∨ r.side.1 = .done → r.written.getLast? = some .dataSent
  acknowledged : ∀ i, r.side.2.received[i]? = some true → .accepted (.blockReceived i) ∈ r.history
  complete : r.side.1 = .done → r.side.2.reader.blockCount ≤ r.side.2.receivedCount

section Recorded

variable {sha256 : Bytes → Bytes} {phase phase' : SenderPhase} {fields fields' : SenderFields}
  {history : List (Deed Message)}

/-- A new sender has done nothing. -/
theorem recorded_start (metadata : Option Metadata) (store : Store) (size : ℕ) (s : Size) :
    Recorded (soloStart metadata store size s) where
  fresh _ := rfl
  headed h := absurd rfl h
  blocks := by simp [soloStart, SenderFields.new, newBlockReader]
  repeated := by simp [soloStart]
  exhausted := by simp [soloStart, SenderPhase.pastBlocks]
  announced := by simp [soloStart]
  acknowledged := by simp [soloStart, SenderFields.new, List.getElem?_replicate]
  complete := by simp [soloStart]

/-- The messages written after one more deed. -/
theorem written_concat (side : SenderPhase × SenderFields) (history : List (Deed Message))
    (deed : Deed Message) :
    (⟨side, history ++ [deed]⟩ : SoloSender).written = (⟨side, history⟩ : SoloSender).written ++
      deed.written.toList := by
  cases deed <;> simp [Solo.written, Deed.written]

/-- The blocks before the position of a reader that advanced. -/
theorem Reader.lt_nextIndex_advanced {r : Reader} {i : ℕ} (h : i < r.advanced.nextIndex) :
    i < r.nextIndex ∨ i = r.upcoming := by
  unfold Reader.advanced at h
  split at h
  · exact .inl h
  · rename_i hredo
    have hle : (r.nextIndex + 1) % 2 ^ 64 ≤ r.nextIndex + 1 := Nat.mod_le _ _
    rw [Reader.upcoming, hredo, List.headD_nil]
    change i < (r.nextIndex + 1) % 2 ^ 64 at h
    omega

/-- What was queued again stays queued unless it is the upcoming block. -/
theorem Reader.mem_redoBlocks_advanced {r : Reader} {i : ℕ} (h : i ∈ r.redoBlocks) :
    i ∈ r.advanced.redoBlocks ∨ i = r.upcoming := by
  cases hredo : r.redoBlocks with
  | nil =>
    rw [hredo] at h
    cases h
  | cons j rest =>
    rw [hredo] at h
    rcases List.mem_cons.mp h with rfl | hrest
    · exact .inr (by simp [Reader.upcoming, hredo])
    · exact .inl (by simpa [Reader.advanced, hredo] using hrest)

/-- A written block fits the record. -/
theorem Recorded.block (h : Recorded ⟨(phase, fields), history⟩) {store : Store} {b : Block}
    (hsends : phase.sendsBlocks = true) (hblock : b.index = fields.reader.upcoming) :
    Recorded ⟨(if fields.reader.advanced.isDone then phase.afterLast else phase,
      fields.withReader (fields.reader.advanced.withStore store)), history ++ [.wrote (.block (some b))]⟩ where
  fresh hphase := by
    revert hphase
    cases phase <;> simp [SenderPhase.sendsBlocks] at hsends <;> split <;> simp [SenderPhase.afterLast]
  headed _ _ := by
    rw [written_concat]
    refine Headed.append (h.headed ?_ ?_) (by simp) <;> rintro rfl <;> cases hsends
  blocks i hi := by
    rw [written_concat]
    rcases Reader.lt_nextIndex_advanced hi with hold | hnew
    · obtain ⟨b', hmem, hindex⟩ := h.blocks i hold
      exact ⟨b', List.mem_append_left _ hmem, hindex⟩
    · exact ⟨b, List.mem_append_right _ (List.mem_singleton.mpr rfl), hblock.trans hnew.symm⟩
  repeated entry i hentry := by
    rcases getElem?_concat_eq_some hentry with hold | hnew
    · rcases h.repeated entry i hold with hqueued | hwritten
      · rcases Reader.mem_redoBlocks_advanced hqueued with hstill | hnow
        · exact .inl hstill
        · refine .inr ?_
          rw [hnow, ← hblock]
          exact writtenAfter_concat (List.getElem?_eq_some_iff.mp hold).1 b
      · exact .inr (hwritten.append _)
    · cases hnew
  exhausted hpast := by
    change fields.reader.advanced.isDone = true
    by_contra hdone
    rw [if_neg hdone] at hpast
    cases phase <;> simp [SenderPhase.sendsBlocks, SenderPhase.pastBlocks] at hsends hpast
  announced hphase := by
    revert hphase
    cases phase <;> simp [SenderPhase.sendsBlocks] at hsends <;> split <;> simp [SenderPhase.afterLast]
  acknowledged i hi := List.mem_append_left _ (h.acknowledged i hi)
  complete hphase := by
    revert hphase
    cases phase <;> simp [SenderPhase.sendsBlocks] at hsends <;> split <;> simp [SenderPhase.afterLast]

/-- A deed that requests no block fits the record, as far as the phase it leads to does. -/
theorem Recorded.concat (h : Recorded ⟨(phase, fields), history⟩) (deed : Deed Message)
    (hdeed : ∀ i, deed ≠ .accepted (.redoBlock i)) (hinitialized : phase' ≠ .initialized)
    (hheaded : phase' ≠ .aborted → Headed (⟨(phase', fields), history ++ [deed]⟩ : SoloSender).written)
    (hpast : phase'.pastBlocks = true → phase.pastBlocks = true)
    (hannounced : phase' = .needDataReceived ∨ phase' = .done →
      (⟨(phase', fields), history ++ [deed]⟩ : SoloSender).written.getLast? = some .dataSent)
    (hcomplete : phase' = .done → fields.reader.blockCount ≤ fields.receivedCount) :
    Recorded ⟨(phase', fields), history ++ [deed]⟩ where
  fresh hphase := absurd hphase hinitialized
  headed _ := hheaded
  blocks i hi := by
    obtain ⟨b, hmem, hindex⟩ := h.blocks i hi
    rw [written_concat]
    exact ⟨b, List.mem_append_left _ hmem, hindex⟩
  repeated entry i hentry := by
    rcases getElem?_concat_eq_some hentry with hold | hnew
    · exact (h.repeated entry i hold).imp_right fun hwritten => hwritten.append _
    · exact absurd hnew.symm (hdeed i)
  exhausted hphase := h.exhausted (hpast hphase)
  announced := hannounced
  acknowledged i hi := List.mem_append_left _ (h.acknowledged i hi)
  complete := hcomplete

/-- The receipt of a block fits the record. -/
theorem Recorded.received (h : Recorded ⟨(phase, fields), history⟩)
    (htakes : phase.takesAnswers = true) (index : ℕ) :
    Recorded ⟨(phase, fields.acknowledged index), history ++ [.accepted (.blockReceived index)]⟩ := by
  have hrunning : phase ≠ .initialized ∧ phase ≠ .aborted ∧ phase ≠ .done := by
    cases phase <;> simp [SenderPhase.takesAnswers] at htakes ⊢
  have hwritten : (⟨(phase, fields), history ++ [.accepted (.blockReceived index)]⟩ : SoloSender).written =
      (⟨(phase, fields), history⟩ : SoloSender).written := by
    rw [written_concat]
    exact List.append_nil _
  have hsame : Recorded ⟨(phase, fields), history ++ [.accepted (.blockReceived index)]⟩ :=
    h.concat (.accepted (.blockReceived index)) (by simp) hrunning.1
      (fun _ => hwritten ▸ h.headed hrunning.1 hrunning.2.1) id (fun hphase => hwritten ▸ h.announced hphase)
      (fun hphase => absurd hphase hrunning.2.2)
  refine { hsame with
    complete := fun hphase => absurd hphase hrunning.2.2
    acknowledged := ?_ }
  intro i hi
  by_cases hindex : index = i
  · rw [hindex]
    exact List.mem_append_right _ (List.mem_singleton.mpr rfl)
  · change (fields.received.set index true)[i]? = some true at hi
    rw [List.getElem?_set_ne hindex] at hi
    exact List.mem_append_left _ (h.acknowledged i hi)

/-- The request of a block fits the record. -/
theorem Recorded.redo (h : Recorded ⟨(phase, fields), history⟩) (htakes : phase.takesAnswers = true)
    (index : ℕ) :
    Recorded ⟨(.inProgress, fields.requested index), history ++ [.accepted (.redoBlock index)]⟩ where
  fresh hphase := nomatch hphase
  headed _ _ := by
    rw [written_concat]
    refine (List.append_nil _).symm ▸ h.headed ?_ ?_ <;> rintro rfl <;> cases htakes
  blocks i hi := by
    obtain ⟨b, hmem, hindex⟩ := h.blocks i hi
    rw [written_concat]
    exact ⟨b, List.mem_append_left _ hmem, hindex⟩
  repeated entry i hentry := by
    rcases getElem?_concat_eq_some hentry with hold | hnew
    · exact (h.repeated entry i hold).imp (List.mem_append_left _) fun hwritten => hwritten.append _
    · obtain rfl : i = index := by simpa using hnew
      exact .inl (List.mem_append_right _ (List.mem_singleton.mpr rfl))
  exhausted hphase := nomatch hphase
  announced hphase := by simp at hphase
  acknowledged i hi := List.mem_append_left _ (h.acknowledged i hi)
  complete hphase := nomatch hphase

/-- Every write fits the record. -/
theorem Recorded.write (h : Recorded ⟨(phase, fields), history⟩) {message : Any Message}
    {err : Option Err} (hwrite : SenderWrite sha256 phase fields phase' fields' message err) :
    Recorded ⟨(phase', fields'), history ++ if err.isNone then message.toList.map Deed.wrote else []⟩ := by
  cases hwrite with
  | header =>
    obtain rfl : history = [] := h.fresh rfl
    exact h.concat (.wrote (.header fields.createHeader)) (by simp) (by decide)
      (fun _ => ⟨_, [], rfl, by simp⟩) (by simp [SenderPhase.pastBlocks]) (by simp) (by simp)
  | block hsends hdata hinside hused hblock => exact h.block hsends (Reader.blockOf_index hblock)
  | failed err hsends hused =>
    refine (List.append_nil history).symm ▸ ?_
    exact ⟨h.fresh, h.headed, h.blocks, h.repeated, h.exhausted, h.announced, h.acknowledged, h.complete⟩
  | dataSent =>
    refine h.concat (.wrote .dataSent) (by simp) (by decide) ?_ (fun _ => rfl) ?_ (by simp)
    · intro _
      rw [written_concat]
      exact (h.headed (by simp) (by simp)).append (by simp)
    · intro _
      rw [written_concat]
      exact List.getLast?_concat
  | abort =>
    exact h.concat (.wrote .abort) (by simp) (by decide) (fun hphase => absurd rfl hphase)
      (by simp [SenderPhase.pastBlocks]) (by simp) (by simp)
  | nothing hsilent => exact (List.append_nil history).symm ▸ h

/-- Every accepted read fits the record. -/
theorem Recorded.read (h : Recorded ⟨(phase, fields), history⟩) {message : Message}
    (hread : SenderRead phase fields message phase' fields') :
    Recorded ⟨(phase', fields'), history ++ [.accepted message]⟩ := by
  have hwritten (phase' : SenderPhase) : (⟨(phase', fields), history ++ [.accepted message]⟩ : SoloSender).written =
      (⟨(phase, fields), history⟩ : SoloSender).written := by
    rw [written_concat]
    exact List.append_nil _
  cases hread with
  | prologueEnds =>
    exact h.concat (.accepted .acknowledge) (by simp) (by decide)
      (fun _ => hwritten _ ▸ h.headed (by simp) (by simp)) (by simp [SenderPhase.pastBlocks]) (by simp) (by simp)
  | allSent =>
    exact h.concat (.accepted .acknowledge) (by simp) (by decide)
      (fun _ => hwritten _ ▸ h.headed (by simp) (by simp)) (fun _ => rfl) (by simp) (by simp)
  | received htakes hmissing => exact h.received htakes _
  | redo htakes hmissing hinside hwritten hsingle => exact h.redo htakes _
  | dataReceived hcomplete =>
    exact h.concat (.accepted .dataReceived) (by simp) (by decide)
      (fun _ => hwritten _ ▸ h.headed (by simp) (by simp)) (fun _ => rfl)
      (fun _ => hwritten _ ▸ h.announced (.inl rfl)) (fun _ => hcomplete)
  | abort hrunning =>
    exact h.concat (.accepted .abort) (by simp) (by decide) (fun hphase => absurd rfl hphase)
      (by simp [SenderPhase.pastBlocks]) (by simp) (by simp)

/-- Every call that is not refused fits the record. -/
theorem Recorded.step {r q : SoloSender} (h : Recorded r) {call : SideCall Message}
    (haccepting : Solo.Accepting (senderMachine sha256).side r call)
    (hstep : r.step (senderMachine sha256).side call = some q) : Recorded q := by
  cases call with
  | write =>
    obtain ⟨phase, fields, message, err, hwrite, rfl⟩ := Solo.step_write.mp hstep
    exact Recorded.write h (SenderPhase.write_cases hwrite)
  | read message =>
    obtain ⟨phase, fields, hread, rfl⟩ := Solo.step_accepted haccepting hstep
    exact Recorded.read h (SenderPhase.read_cases hread)

end Recorded

/-- A reader that is done has passed every block, also where offsets behind the file wrap. -/
theorem Reader.blockCount_le_of_isDone {r : Reader} (hsize : r.totalSize < 2 ^ 64)
    (h : r.isDone = true) :
    r.blockCount ≤ r.nextIndex ∧ r.redoBlocks = [] := by
  simp only [Reader.isDone, Bool.and_eq_true, decide_eq_true_eq, List.length_eq_zero_iff] at h
  refine ⟨?_, h.1⟩
  by_contra hlt
  have hstart := (r.blockSize.lt_blockCount_iff r.totalSize r.nextIndex).mp (Nat.not_le.mp hlt)
  have hoffset : r.offset r.nextIndex = r.nextIndex * r.blockSize.bytes := Nat.mod_eq_of_lt (hstart.trans hsize)
  omega

/-- The count of receipts never exceeds the number of blocks, so its check never fails. -/
theorem Kept.read_not_overcounted {size : ℕ} {s : Size} {phase : SenderPhase}
    {fields : SenderFields} (h : Kept size s fields) (message : Message) :
    phase.read fields message ≠ panicText "sent more blocks than there should be available" := by
  intro hread
  by_cases hother : message = .other
  · subst hother
    cases phase <;> simp [SenderPhase.read, panicError, panicText] at hread
  · have hvalue := ((SenderPhase.read_panics_iff hother h.room).mp hread).2
    simp [indexPanic] at hvalue

/-- What a sender guarantees against an arbitrary peer: consistent receipts at any time, and once it
is done, that it wrote everything it had to and that everything is acknowledged. -/
theorem finished_sender_guarantee (sha256 : Bytes → Bytes) (metadata : Option Metadata)
    (store : Store) (size : ℕ) (hsize : size < 2 ^ 64) (s : Size) :
    ∃ sender, newSender sha256 metadata (newBlockReader store size s) = .ok sender ∧
      ∀ r, Reached (Solo.step Peer.side) (Solo.Accepting Peer.side) ⟨sender, []⟩ r →
        r.side.world.receivedCount = r.side.world.received.count true ∧
        r.side.world.receivedCount ≤ s.blockCount size ∧
        (∀ message, Peer.side.read r.side message ≠
          panicText "sent more blocks than there should be available") ∧
        (r.side.client.state = done →
          Headed r.written ∧
          (∀ i < s.blockCount size, ∃ b, .block (some b) ∈ r.written ∧ b.index = i) ∧
          (∀ entry i, r.history[entry]? = some (.accepted (.redoBlock i)) → WrittenAfter r.history entry i) ∧
          r.written.getLast? = some .dataSent ∧
          ∀ i < s.blockCount size,
            r.side.world.received[i]? = some true ∧ .accepted (.blockReceived i) ∈ r.history) := by
  obtain ⟨client, hsender, hclient⟩ := newSender_ok sha256 metadata (newBlockReader store size s)
  have ha := (sender_implements sha256).embeds hclient
  refine ⟨_, hsender, ?_⟩
  intro q hq
  obtain ⟨r, rfl, hr⟩ := Solo.accepting_of_map ha (soloStart metadata store size s) hq
  obtain ⟨hkept, -⟩ := ready_of_reached hr
  have hrecorded : Recorded r := hr.invariant Recorded (recorded_start metadata store size s)
    fun _ _ _ h haccepting hstep => h.step haccepting hstep
  refine ⟨hkept.count, hkept.count_le, ?_, ?_⟩
  · intro message hread
    exact hkept.read_not_overcounted message (Machine.side_read_panics.mp (ha.read_panics.mp hread))
  · intro hstate
    have hdone : r.side.1 = .done := by
      have hphase : r.side.1.state = done := hstate
      revert hphase
      cases r.side.1 <;> decide
    have hexhausted := hrecorded.exhausted (by rw [hdone]; rfl)
    obtain ⟨hpassed, hqueue⟩ := Reader.blockCount_le_of_isDone (hkept.totalSize ▸ hsize) hexhausted
    rw [hkept.blockCount_eq] at hpassed
    have hreceived {i : ℕ} (hi : i < s.blockCount size) : r.side.2.received[i]? = some true :=
      hkept.all_received (hrecorded.complete hdone) hi
    refine ⟨hrecorded.headed (by rw [hdone]; decide) (by rw [hdone]; decide), ?_, ?_,
      hrecorded.announced (.inr hdone), ?_⟩
    · intro i hi
      exact hrecorded.blocks i (hi.trans_le hpassed)
    · intro entry i hentry
      rcases hrecorded.repeated entry i hentry with hqueued | hwritten
      · rw [hqueue] at hqueued
        cases hqueued
      · exact hwritten
    · intro i hi
      exact ⟨hreceived hi, hrecorded.acknowledged i (hreceived hi)⟩

/-- A sender of one block that is asked to repeat it: the run ends, and the block is written
again. -/
theorem finished_sender_guarantee_one_block :
    ∃ sender r, newSender id (some ⟨[100]⟩) (newBlockReader (.ofBytes [7]) 1 ⟨1, by decide⟩) = .ok sender ∧
      Reached (Solo.step Peer.side) (Solo.Accepting Peer.side) ⟨sender, []⟩ r ∧
      r.side.client.state = done ∧ r.history[3]? = some (.accepted (.redoBlock 0)) ∧
      WrittenAfter r.history 3 0 ∧ r.written.getLast? = some .dataSent := by
  obtain ⟨sender, hsender, hall⟩ :=
    finished_sender_guarantee id (some ⟨[100]⟩) (.ofBytes [7]) 1 (by decide) ⟨1, by decide⟩
  obtain ⟨r, hr, hshown⟩ := Solo.exists_reached Peer.side (Solo.Accepting Peer.side) hsender
    [.write, .write, .read .acknowledge, .read (.redoBlock 0), .write, .write, .read (.blockReceived 0),
      .read .dataReceived]
    (fun r => (r.side.client.state, r.history[3]?)) (done, some (.accepted (.redoBlock 0))) rfl
  have hstate := congrArg Prod.fst hshown
  have hentry := congrArg Prod.snd hshown
  obtain ⟨-, -, hrepeated, hlast, -⟩ := (hall r hr).2.2.2 hstate
  exact ⟨sender, r, hsender, hr, hstate, hentry, hrepeated 3 0 hentry, hlast⟩

end ProjektCore.Transfer
