import ProjektCore.Transfer.Agreement

/-!
# How far an honest transfer is

Four counters say how many messages of the fixed sequence of an honest transfer were sent,
delivered, answered and collected. They determine the phases of both sides and which blocks are
marked.
-/

namespace ProjektCore.Transfer

open Foundation Protocol

/-- How many messages were sent, delivered, answered, and how many answers were collected, in a
transfer of `blocks` blocks. The end of the data is only sent after the acknowledge is collected. -/
structure Counters (blocks : ℕ) where
  sent : ℕ
  delivered : ℕ
  answered : ℕ
  collected : ℕ
  collected_le : collected ≤ answered
  answered_le : answered ≤ delivered
  delivered_le : delivered ≤ sent
  sent_le : sent ≤ blocks + 2
  one_open : delivered ≤ answered + 1
  acknowledged : sent = blocks + 2 → 1 ≤ collected

/-- The values of the counters. -/
structure Counters.Are {blocks : ℕ} (k : Counters blocks) (sent delivered answered collected : ℕ) :
    Prop where
  sent : k.sent = sent
  delivered : k.delivered = delivered
  answered : k.answered = answered
  collected : k.collected = collected

/-- The phase of the sender after it sent and collected some messages. -/
def senderPhaseAt (blocks sent collected : ℕ) : SenderPhase :=
  if sent = 0 then .initialized
  else if collected = 0 then (if sent ≤ blocks then .inPrologue else .needAcknowledge)
  else if sent ≤ blocks then .inProgress
  else if sent = blocks + 1 then .transferred
  else if collected < blocks + 2 then .needDataReceived
  else .done

/-- The phase of the receiver after it read and answered some messages. -/
def receiverPhaseAt (blocks delivered answered : ℕ) : ReceiverPhase :=
  if delivered = 0 then .initialized
  else if answered < delivered then
    (if delivered = 1 then .sendAcknowledge else if delivered ≤ blocks + 1 then .handleBlock else .sendDataReceived)
  else if delivered ≤ blocks then .needBlock
  else if delivered = blocks + 1 then .needDataSent
  else .done

section Phases

variable {blocks sent collected delivered answered : ℕ}

/-- A sender that is not acknowledged and still has blocks. -/
theorem senderPhaseAt_inPrologue (h : 0 < sent) (h' : sent ≤ blocks) :
    senderPhaseAt blocks sent 0 = .inPrologue := by
  unfold senderPhaseAt
  split_ifs <;> first | rfl | omega

/-- A sender that is not acknowledged and has sent all blocks. -/
theorem senderPhaseAt_needAcknowledge (h : blocks < sent) :
    senderPhaseAt blocks sent 0 = .needAcknowledge := by
  unfold senderPhaseAt
  split_ifs <;> first | rfl | omega

/-- An acknowledged sender that still has blocks. -/
theorem senderPhaseAt_inProgress (h : 0 < sent) (h' : sent ≤ blocks) (hc : 0 < collected) :
    senderPhaseAt blocks sent collected = .inProgress := by
  unfold senderPhaseAt
  split_ifs <;> first | rfl | omega

/-- An acknowledged sender that has sent all blocks. -/
theorem senderPhaseAt_transferred (hc : 0 < collected) :
    senderPhaseAt blocks (blocks + 1) collected = .transferred := by
  unfold senderPhaseAt
  split_ifs <;> first | rfl | omega

/-- A sender that has sent everything and awaits answers. -/
theorem senderPhaseAt_needDataReceived (hc : 0 < collected) (hc' : collected < blocks + 2) :
    senderPhaseAt blocks (blocks + 2) collected = .needDataReceived := by
  unfold senderPhaseAt
  split_ifs <;> first | rfl | omega

/-- A sender that has collected all answers. -/
theorem senderPhaseAt_done : senderPhaseAt blocks (blocks + 2) (blocks + 2) = .done := by
  unfold senderPhaseAt
  split_ifs <;> first | rfl | omega

/-- A receiver that has read a block and not answered it. -/
theorem receiverPhaseAt_handleBlock (h : 1 < delivered) (h' : delivered ≤ blocks + 1)
    (ha : answered < delivered) :
    receiverPhaseAt blocks delivered answered = .handleBlock := by
  unfold receiverPhaseAt
  split_ifs <;> first | rfl | omega

/-- A receiver that has answered everything and awaits more blocks. -/
theorem receiverPhaseAt_needBlock (h : 0 < delivered) (h' : delivered ≤ blocks) :
    receiverPhaseAt blocks delivered delivered = .needBlock := by
  unfold receiverPhaseAt
  split_ifs <;> first | rfl | omega

/-- A receiver that has answered all blocks. -/
theorem receiverPhaseAt_needDataSent :
    receiverPhaseAt blocks (blocks + 1) (blocks + 1) = .needDataSent := by
  unfold receiverPhaseAt
  split_ifs <;> first | rfl | omega

/-- A receiver that has read the end of the data. -/
theorem receiverPhaseAt_sendDataReceived :
    receiverPhaseAt blocks (blocks + 2) (blocks + 1) = .sendDataReceived := by
  unfold receiverPhaseAt
  split_ifs <;> first | rfl | omega

/-- A receiver that has answered the end of the data. -/
theorem receiverPhaseAt_done : receiverPhaseAt blocks (blocks + 2) (blocks + 2) = .done := by
  unfold receiverPhaseAt
  split_ifs <;> first | rfl | omega

/-- The sender is done exactly if it has collected all answers. -/
theorem senderPhaseAt_eq_done_iff (k : Counters blocks) :
    senderPhaseAt blocks k.sent k.collected = .done ↔ k.collected = blocks + 2 := by
  have hcollected := k.collected_le.trans (k.answered_le.trans k.delivered_le)
  have hsent := k.sent_le
  unfold senderPhaseAt
  split_ifs <;> simp only [false_iff, true_iff] <;> omega

/-- The receiver is done exactly if it has answered everything. -/
theorem receiverPhaseAt_eq_done_iff (k : Counters blocks) :
    receiverPhaseAt blocks k.delivered k.answered = .done ↔ k.answered = blocks + 2 := by
  have hanswered := k.answered_le
  have hdelivered := k.delivered_le.trans k.sent_le
  unfold receiverPhaseAt
  split_ifs <;> simp only [false_iff, true_iff] <;> omega

end Phases

/-- A bitmap of which the first entries are set. -/
def marks (blocks n : ℕ) : List Bool := List.replicate n true ++ List.replicate (blocks - n) false

/-- The first entry that is not set. -/
theorem marks_getElem? {blocks n : ℕ} (h : n < blocks) : (marks blocks n)[n]? = some false := by
  rw [marks, List.getElem?_append_right (by simp), List.length_replicate, Nat.sub_self,
    List.getElem?_replicate_of_lt (by omega)]

/-- Setting the first entry that is not set. -/
theorem marks_set {blocks n : ℕ} (h : n < blocks) :
    (marks blocks n).set n true = marks blocks (n + 1) := by
  obtain ⟨rest, hrest⟩ : ∃ rest, blocks - n = rest + 1 := ⟨blocks - n - 1, by omega⟩
  have hlast : blocks - (n + 1) = rest := by omega
  rw [marks, marks, hrest, hlast, List.set_append_right _ _ (by simp), List.length_replicate,
    Nat.sub_self, List.replicate_succ, List.set_cons_zero, List.replicate_succ', List.append_assoc]
  rfl

/-- All entries are set exactly if as many are set as there are. -/
theorem forall_mem_marks {blocks n : ℕ} (h : n ≤ blocks) :
    (∀ b ∈ marks blocks n, b = true) ↔ n = blocks := by
  constructor
  · intro hall
    by_contra hne
    have hfalse : false ∈ marks blocks n := by
      rw [marks, List.mem_append, List.mem_replicate, List.mem_replicate]
      exact .inr ⟨by omega, rfl⟩
    exact absurd (hall false hfalse) (by decide)
  · intro hn b hb
    rw [marks, hn, Nat.sub_self, List.replicate_zero, List.append_nil] at hb
    exact List.eq_of_mem_replicate hb

end ProjektCore.Transfer
