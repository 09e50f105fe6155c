import ProjektCore.Foundation.Lists
import ProjektCore.Transfer.Sides

/-!
# An honest transfer runs to its end

Without alterations the two sides exchange a fixed sequence of messages: the sender writes a header,
the blocks in order and the end of the data, and the receiver answers each of them once. Four
counters say how far each side is, and everything else in a reachable state is determined by them.
The sender may be ahead of the receiver by any number of messages, and its answers may be collected
late; the receiver answers each message before it reads the next one.
-/

namespace ProjektCore.Transfer

open Foundation Protocol

section Pipeline

variable (sha256 : Bytes → Bytes) (data : Bytes) (s : Size) (metadata : Metadata) (factory : WriterFactory)

/-- A state of an honest transfer, described by its counters. -/
structure InStep (k : Counters (blocks data s)) (p : MachinePair) : Prop where
  senderPhase : p.left.1 = senderPhaseAt (blocks data s) k.sent k.collected
  senderFields : SenderFieldsAt data s metadata k.sent k.collected p.left.2
  receiverPhase : p.right.1 = receiverPhaseAt (blocks data s) k.delivered k.answered
  receiverFields : ReceiverFieldsAt sha256 data s factory k.delivered k.answered p.right.2
  toRight : p.toRight =
    (List.range' k.delivered (k.sent - k.delivered)).map (senderMessage sha256 data s metadata)
  toLeft : p.toLeft = (List.range' k.collected (k.answered - k.collected)).map (receiverMessage data s)

variable {sha256 data s metadata factory}

section Joint

variable {k : Counters (blocks data s)} {p : MachinePair}

/-- A turn of the sender to write succeeds. -/
theorem InStep.leftWrites (hfits : s.Fits data.length) (hblocks : 0 < blocks data s)
    (h : InStep sha256 data s metadata factory k p)
    (hturn : p.loopTakes (senderMachine sha256).side (receiverMachine sha256).side .leftWrites = true) :
    ∃ k' q, p.step (senderMachine sha256).side (receiverMachine sha256).side .leftWrites = some q ∧
      InStep sha256 data s metadata factory k' q ∧ k'.Are (k.sent + 1) k.delivered k.answered k.collected := by
  have hcan : p.left.1.canWrite = true := by
    simp only [Pair.loopTakes, Machine.side, senderMachine, Bool.and_eq_true,
      Bool.false_or] at hturn
    exact hturn.2
  rw [h.senderPhase, canWrite_senderPhaseAt k.sent_le] at hcan
  have hcollected : k.collected ≤ k.sent := k.collected_le.trans (k.answered_le.trans k.delivered_le)
  obtain ⟨fields', hwrite, hfields⟩ := h.senderFields.write hfits hblocks hcollected hcan
  rw [← h.senderPhase] at hwrite
  refine ⟨⟨k.sent + 1, k.delivered, k.answered, k.collected, k.collected_le, k.answered_le,
    k.delivered_le.trans (Nat.le_succ _), by omega, k.one_open, by omega⟩, _,
    Pair.step_leftWrites.mpr ⟨(_, fields'), _, Machine.side_write_eq_ok.mpr hwrite, rfl⟩,
    ⟨rfl, hfields, h.receiverPhase, h.receiverFields, ?_, h.toLeft⟩, ⟨rfl, rfl, rfl, rfl⟩⟩
  rw [range'_map_concat _ k.delivered_le, ← h.toRight]
  rfl

/-- A turn of the sender to read succeeds. -/
theorem InStep.leftReads (h : InStep sha256 data s metadata factory k p)
    (hturn : p.loopTakes (senderMachine sha256).side (receiverMachine sha256).side .leftReads = true) :
    ∃ k' q, p.step (senderMachine sha256).side (receiverMachine sha256).side .leftReads = some q ∧
      InStep sha256 data s metadata factory k' q ∧ k'.Are k.sent k.delivered k.answered (k.collected + 1) := by
  have hsome : k.collected < k.answered := by
    by_contra hge
    have hempty : k.answered - k.collected = 0 := by omega
    simp [Pair.loopTakes, h.toLeft, hempty] at hturn
  have hqueue := h.toLeft
  rw [range'_map_cons _ hsome] at hqueue
  have hsent : k.collected < k.sent := hsome.trans_le (k.answered_le.trans k.delivered_le)
  obtain ⟨fields', hread, hfields⟩ := h.senderFields.read hsent k.sent_le k.acknowledged
  rw [← h.senderPhase] at hread
  refine ⟨⟨k.sent, k.delivered, k.answered, k.collected + 1, hsome, k.answered_le, k.delivered_le, k.sent_le,
    k.one_open, by omega⟩, _,
    Pair.step_leftReads.mpr ⟨_, _, (_, fields'), hqueue, Machine.side_read_eq_ok.mpr hread, rfl⟩,
    ⟨rfl, hfields, h.receiverPhase, h.receiverFields, h.toRight, rfl⟩, ⟨rfl, rfl, rfl, rfl⟩⟩

/-- A turn of the receiver to write succeeds. -/
theorem InStep.rightWrites (hblocks : 0 < blocks data s)
    (h : InStep sha256 data s metadata factory k p)
    (hturn : p.loopTakes (senderMachine sha256).side (receiverMachine sha256).side .rightWrites = true) :
    ∃ k' q, p.step (senderMachine sha256).side (receiverMachine sha256).side .rightWrites = some q ∧
      InStep sha256 data s metadata factory k' q ∧ k'.Are k.sent k.delivered (k.answered + 1) k.collected := by
  have hcan : p.right.1.canWrite = true := by
    simp only [Pair.loopTakes, Machine.side, receiverMachine, Bool.and_eq_true,
      Bool.or_self] at hturn
    exact hturn.2
  rw [h.receiverPhase, canWrite_receiverPhaseAt] at hcan
  have hone : k.delivered = k.answered + 1 := le_antisymm k.one_open hcan
  have hphase := h.receiverPhase
  have hstate := h.receiverFields
  have hsent := k.delivered_le.trans k.sent_le
  have hqueue := h.toRight
  rw [hone] at hphase hstate hsent hqueue
  obtain ⟨fields', hwrite, hfields⟩ := hstate.write hblocks (by omega)
  rw [← hphase] at hwrite
  refine ⟨⟨k.sent, k.answered + 1, k.answered + 1, k.collected, k.collected_le.trans (Nat.le_succ _), le_rfl,
    hone ▸ k.delivered_le, k.sent_le, Nat.le_succ _, k.acknowledged⟩, _,
    Pair.step_rightWrites.mpr ⟨(_, fields'), _, Machine.side_write_eq_ok.mpr hwrite, rfl⟩,
    ⟨h.senderPhase, h.senderFields, rfl, hfields, hqueue, ?_⟩, ⟨rfl, hone.symm, rfl, rfl⟩⟩
  rw [range'_map_concat _ k.collected_le, ← h.toLeft]
  rfl

/-- A receiver that is about to read has answered everything it has read. -/
theorem InStep.answered_eq (h : InStep sha256 data s metadata factory k p)
    (hturn : p.loopTakes (senderMachine sha256).side (receiverMachine sha256).side .rightReads = true) :
    k.answered = k.delivered := by
  by_contra hne
  have hopen : k.answered < k.delivered := lt_of_le_of_ne k.answered_le hne
  rw [← canWrite_receiverPhaseAt, ← h.receiverPhase] at hopen
  simp [Pair.loopTakes, Machine.side, receiverMachine, hopen] at hturn

/-- A turn of the receiver to read succeeds. -/
theorem InStep.rightReads (hfits : s.Fits data.length) (hfresh : Fresh factory)
    (h : InStep sha256 data s metadata factory k p)
    (hturn : p.loopTakes (senderMachine sha256).side (receiverMachine sha256).side .rightReads = true) :
    ∃ k' q, p.step (senderMachine sha256).side (receiverMachine sha256).side .rightReads = some q ∧
      InStep sha256 data s metadata factory k' q ∧ k'.Are k.sent (k.delivered + 1) k.answered k.collected := by
  have hsome : k.delivered < k.sent := by
    by_contra hge
    have hempty : k.sent - k.delivered = 0 := by omega
    simp [Pair.loopTakes, h.toRight, hempty] at hturn
  have hidle := h.answered_eq hturn
  have hqueue := h.toRight
  rw [range'_map_cons _ hsome] at hqueue
  have hphase := h.receiverPhase
  have hstate := h.receiverFields
  have hanswers := h.toLeft
  rw [hidle] at hphase hstate hanswers
  have hsent := k.sent_le
  obtain ⟨fields', hread, hfields⟩ := hstate.read hfits hfresh (by omega)
  rw [← hphase] at hread
  refine ⟨⟨k.sent, k.delivered + 1, k.delivered, k.collected, hidle ▸ k.collected_le, Nat.le_succ _, hsome,
    k.sent_le, le_rfl, k.acknowledged⟩, _,
    Pair.step_rightReads.mpr ⟨_, _, (_, fields'), hqueue, Machine.side_read_eq_ok.mpr hread, rfl⟩,
    ⟨h.senderPhase, h.senderFields, rfl, hfields, rfl, hanswers⟩, ⟨rfl, rfl, hidle.symm, rfl⟩⟩

/-- In a state of an honest transfer every turn of the loops succeeds and leads to such a state. -/
theorem InStep.turn (hfits : s.Fits data.length) (hblocks : 0 < blocks data s)
    (hfresh : Fresh factory) (h : InStep sha256 data s metadata factory k p) {turn : Turn}
    (hturn : p.loopTakes (senderMachine sha256).side (receiverMachine sha256).side turn = true) :
    ∃ k' q, p.step (senderMachine sha256).side (receiverMachine sha256).side turn = some q ∧
      InStep sha256 data s metadata factory k' q := by
  cases turn with
  | leftWrites =>
    obtain ⟨k', q, hstep, hin, -⟩ := h.leftWrites hfits hblocks hturn
    exact ⟨k', q, hstep, hin⟩
  | leftReads =>
    obtain ⟨k', q, hstep, hin, -⟩ := h.leftReads hturn
    exact ⟨k', q, hstep, hin⟩
  | rightWrites =>
    obtain ⟨k', q, hstep, hin, -⟩ := h.rightWrites hblocks hturn
    exact ⟨k', q, hstep, hin⟩
  | rightReads =>
    obtain ⟨k', q, hstep, hin, -⟩ := h.rightReads hfits hfresh hturn
    exact ⟨k', q, hstep, hin⟩

/-- As long as not both sides are done, some side has a turn. -/
theorem InStep.enabled (h : InStep sha256 data s metadata factory k p)
    (hopen : ¬ (p.left.1 = .done ∧ p.right.1 = .done)) :
    ∃ turn, p.loopTakes (senderMachine sha256).side (receiverMachine sha256).side turn = true := by
  have hsender := senderPhaseAt_eq_done_iff k
  have hreceiver := receiverPhaseAt_eq_done_iff k
  rw [← h.senderPhase] at hsender
  rw [← h.receiverPhase] at hreceiver
  obtain ⟨hca, had, hds, hs⟩ := And.intro k.collected_le (And.intro k.answered_le (And.intro k.delivered_le k.sent_le))
  by_cases hanswers : k.collected < k.answered
  · refine ⟨.leftReads, ?_⟩
    have hleft : p.left.1 ≠ .done := mt hsender.mp (by omega)
    simp [Pair.loopTakes, Machine.side, senderMachine, hleft, h.toLeft, range'_map_cons _ hanswers]
  · by_cases hunanswered : k.answered < k.delivered
    · refine ⟨.rightWrites, ?_⟩
      have hright : p.right.1 ≠ .done := mt hreceiver.mp (by omega)
      have hcan : p.right.1.canWrite = true := by
        rw [h.receiverPhase]
        exact canWrite_receiverPhaseAt.mpr hunanswered
      simp [Pair.loopTakes, Machine.side, receiverMachine, hright, hcan]
    · by_cases hmessages : k.delivered < k.sent
      · refine ⟨.rightReads, ?_⟩
        have hright : p.right.1 ≠ .done := mt hreceiver.mp (by omega)
        have hcan : p.right.1.canWrite = false := by
          rw [h.receiverPhase, Bool.eq_false_iff, ne_eq, canWrite_receiverPhaseAt]
          exact hunanswered
        simp [Pair.loopTakes, Machine.side, receiverMachine, hright, hcan, h.toRight,
          range'_map_cons _ hmessages]
      · by_cases hend : k.sent = blocks data s + 2
        · exact absurd ⟨hsender.mpr (by omega), hreceiver.mpr (by omega)⟩ hopen
        · refine ⟨.leftWrites, ?_⟩
          have hleft : p.left.1 ≠ .done := mt hsender.mp (by omega)
          have hcan : p.left.1.canWrite = true := by
            rw [h.senderPhase]
            exact (canWrite_senderPhaseAt hs).mpr (by omega)
          simp [Pair.loopTakes, Machine.side, senderMachine, hleft, hcan]

end Joint

/-- A transfer starts in step. -/
theorem inStep_start : InStep sha256 data s metadata factory
    ⟨0, 0, 0, 0, le_rfl, le_rfl, le_rfl, Nat.zero_le _, Nat.zero_le _, by omega⟩
    (transferStart (some metadata) factory data s) where
  senderPhase := rfl
  senderFields := ⟨Reader.over_newBlockReader data s, rfl, by simp [transferStart, SenderFields.new, newBlockReader],
    by simp [transferStart, SenderFields.new, newBlockReader, Reader.blockCount, marks],
    by simp [transferStart, SenderFields.new], rfl⟩
  receiverPhase := rfl
  receiverFields := ⟨rfl, by simp, by simp [transferStart, ReceiverFields.new],
    by simp [transferStart, ReceiverFields.new], rfl⟩
  toRight := rfl
  toLeft := rfl

/-- Every state that the loops reach is in step. -/
theorem inStep_of_reached (hfits : s.Fits data.length) (hblocks : 0 < blocks data s) (hfresh : Fresh factory)
    {p : MachinePair}
    (h : Reached (Pair.step (senderMachine sha256).side (receiverMachine sha256).side)
      (Pair.Driven (senderMachine sha256).side (receiverMachine sha256).side)
      (transferStart (some metadata) factory data s) p) :
    ∃ k, InStep sha256 data s metadata factory k p := by
  refine h.invariant (fun p => ∃ k, InStep sha256 data s metadata factory k p) ⟨_, inStep_start⟩ ?_
  intro p turn q hp hdriven hstep
  obtain ⟨k, hk⟩ := hp
  obtain ⟨k', q', hq', hin⟩ := hk.turn hfits hblocks hfresh hdriven
  obtain rfl := Option.some.inj (hq'.symm.trans hstep)
  exact ⟨k', hin⟩

end Pipeline

/-- In an honest transfer no call that the loops make fails, and the loops only stop together. -/
theorem honest_transfer_progress (sha256 : Bytes → Bytes) (data : Bytes) (hdata : data ≠ [])
    (s : Size) (hfits : s.Fits data.length) (metadata : Metadata) (factory : WriterFactory)
    (hfresh : Fresh factory) :
    ∃ sender receiver,
      newSender sha256 (some metadata) (newBlockReader (.ofBytes data) data.length s) = .ok sender ∧
      newReceiver sha256 factory = .ok receiver ∧
      ∀ p, Reached (Pair.step Peer.side Peer.side) (Pair.Driven Peer.side Peer.side) ⟨sender, receiver, [], []⟩ p →
        (∀ turn, p.loopTakes Peer.side Peer.side turn = true →
          ∃ q, p.call Peer.side Peer.side turn = some (.ok (q, none))) ∧
        (¬ (p.left.client.isDone = true ∧ p.right.client.isDone = true) →
          ∃ turn, p.loopTakes Peer.side Peer.side turn = true) := by
  have hblocks : 0 < blocks data s := s.blockCount_pos _ (List.length_pos_of_ne_nil hdata)
  obtain ⟨client, client', hsender, hreceiver, ha, hb⟩ := transferStart_embeds sha256 (some metadata) factory data s
  refine ⟨_, _, hsender, hreceiver, ?_⟩
  intro q hq
  obtain ⟨p, rfl, hp⟩ := Pair.driven_of_map ha hb (transferStart (some metadata) factory data s) hq
  obtain ⟨k, hk⟩ := inStep_of_reached hfits hblocks hfresh hp
  constructor
  · intro turn hturn
    rw [Pair.loopTakes_map ha hb] at hturn
    obtain ⟨-, p', hstep, -⟩ := hk.turn hfits hblocks hfresh hturn
    exact ⟨_, Pair.call_map_of_step ha hb hstep⟩
  · intro hopen
    have hdone := hk.enabled (by
      rintro ⟨hleft, hright⟩
      refine hopen ⟨?_, ?_⟩
      · exact (ha.isDone p.left).trans (decide_eq_true hleft)
      · exact (hb.isDone p.right).trans (decide_eq_true hright))
    obtain ⟨turn, hturn⟩ := hdone
    exact ⟨turn, (Pair.loopTakes_map ha hb p turn).trans hturn⟩

/-- An honest transfer of three bytes in blocks of two. -/
theorem honest_transfer_progress_three_bytes :
    ∃ sender receiver,
      newSender id (some ⟨[100]⟩) (newBlockReader (.ofBytes [1, 2, 3]) 3 ⟨2, by decide⟩) = .ok sender ∧
      newReceiver id (fun _ size => .ok (.make size)) = .ok receiver ∧
      ∀ p, Reached (Pair.step Peer.side Peer.side) (Pair.Driven Peer.side Peer.side) ⟨sender, receiver, [], []⟩ p →
        (∀ turn, p.loopTakes Peer.side Peer.side turn = true →
          ∃ q, p.call Peer.side Peer.side turn = some (.ok (q, none))) ∧
        (¬ (p.left.client.isDone = true ∧ p.right.client.isDone = true) →
          ∃ turn, p.loopTakes Peer.side Peer.side turn = true) :=
  honest_transfer_progress id [1, 2, 3] (by decide) ⟨2, by decide⟩ ⟨by decide, by decide⟩ ⟨[100]⟩
    (fun _ size => .ok (.make size)) (fun _ size => ⟨.make size, rfl, by simp [Store.make, Store.ofBytes], rfl⟩)

end ProjektCore.Transfer
