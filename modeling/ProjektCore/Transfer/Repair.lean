import ProjektCore.Transfer.Corruption

/-!
# Repairing a damaged block

While one block is repaired and the sender does not run ahead, a transfer is in one of three stages:
the damaged block is the last message on its way, the request for it is due or on its way, or the
request has arrived. In each stage every call that the loops make succeeds, and when the block is
written again the transfer is in step as if nothing had happened.
-/

namespace ProjektCore.Transfer

open Foundation Protocol

section Queue

variable {S T M : Type} {a : Side S M} {b : Side T M}

/-- The pair with another queue of messages to the right. -/
def withQueue (p : Pair S T M) (queue : List M) : Pair S T M := { p with toRight := queue }

/-- The left side reads without looking at the other queue. -/
theorem step_leftReads_withQueue {p q : Pair S T M} (queue : List M)
    (h : p.step a b .leftReads = some q) :
    (withQueue p queue).step a b .leftReads = some (withQueue q queue) := by
  obtain ⟨message, rest, left, hqueue, hread, rfl⟩ := Pair.step_leftReads.mp h
  exact Pair.step_leftReads.mpr ⟨message, rest, left, hqueue, hread, rfl⟩

/-- The right side writes without looking at the other queue. -/
theorem step_rightWrites_withQueue {p q : Pair S T M} (queue : List M)
    (h : p.step a b .rightWrites = some q) :
    (withQueue p queue).step a b .rightWrites = some (withQueue q queue) := by
  obtain ⟨right, message, hwrite, rfl⟩ := Pair.step_rightWrites.mp h
  exact Pair.step_rightWrites.mpr ⟨right, message, hwrite, rfl⟩

end Queue

section Stages

variable (sha256 : Bytes → Bytes) (data : Bytes) (s : Size) (metadata : Metadata) (factory : WriterFactory)

/-- The messages on their way to the receiver if none is damaged. -/
def inFlight (k : Counters (blocks data s)) : List Message :=
  (List.range' k.delivered (k.sent - k.delivered)).map (senderMessage sha256 data s metadata)

/-- The last message on its way is a damaged block; everything else is in step. -/
structure Damaged (k : Counters (blocks data s)) (b : Block) (p : MachinePair) : Prop where
  two_le : 2 ≤ k.sent
  sent_le : k.sent ≤ blocks data s + 1
  undelivered : k.delivered < k.sent
  damage : Damage sha256 data s (k.sent - 2) b
  toRight : p.toRight =
    (List.range' k.delivered (k.sent - 1 - k.delivered)).map (senderMessage sha256 data s metadata) ++
      [.block (some b)]
  intact : InStep sha256 data s metadata factory k (withQueue p (inFlight sha256 data s metadata k))

/-- The receiver has read a damaged block; `asked` says whether it has written its request. -/
structure Repairing (i collected : ℕ) (asked : Bool) (p : MachinePair) : Prop where
  block : i < blocks data s
  collected_le : collected ≤ i + 1
  senderPhase : p.left.1 = senderPhaseAt (blocks data s) (i + 2) collected
  senderFields : SenderFieldsAt data s metadata (i + 2) collected p.left.2
  receiver : ∃ fields, ReceiverFieldsAt sha256 data s factory (i + 1) (i + 1) fields ∧
    p.right = if asked then (.needBlock, fields) else (.handleBlock, fields.requesting i)
  toRight : p.toRight = []
  toLeft : p.toLeft = (List.range' collected (i + 1 - collected)).map (receiverMessage data s) ++
    if asked then [.redoBlock i] else []

/-- The sender has read the request; nothing is on its way. -/
structure Pending (i : ℕ) (p : MachinePair) : Prop where
  block : i < blocks data s
  sender : ∃ fields, SenderFieldsAt data s metadata (i + 2) (i + 1) fields ∧
    p.left = (.inProgress, fields.requested i)
  receiverPhase : p.right.1 = .needBlock
  receiverFields : ReceiverFieldsAt sha256 data s factory (i + 1) (i + 1) p.right.2
  toRight : p.toRight = []
  toLeft : p.toLeft = []

end Stages

variable {sha256 : Bytes → Bytes} {data : Bytes} {s : Size} {metadata : Metadata} {factory : WriterFactory}

section Damaged

variable {k : Counters (blocks data s)} {b : Block} {p : MachinePair}

/-- A pair in step has the messages of its counters on their way. -/
theorem InStep.withQueue_inFlight (h : InStep sha256 data s metadata factory k p) :
    withQueue p (inFlight sha256 data s metadata k) = p := by
  rw [inFlight, ← h.toRight]
  rfl

/-- Damage on the way does not change which turns the loops take. -/
theorem Damaged.loopTakes_intact (h : Damaged sha256 data s metadata factory k b p) (turn : Turn) :
    (withQueue p (inFlight sha256 data s metadata k)).loopTakes (senderMachine sha256).side
        (receiverMachine sha256).side turn =
      p.loopTakes (senderMachine sha256).side (receiverMachine sha256).side turn := by
  have hfull : (inFlight sha256 data s metadata k).isEmpty = p.toRight.isEmpty := by
    rw [inFlight, range'_map_cons _ h.undelivered, h.toRight]
    simp
  cases turn with
  | rightReads => simp only [Pair.loopTakes, withQueue, hfull]
  | _ => rfl

/-- A step of the other turns keeps the damaged block on its way. -/
theorem Damaged.of_intact (h : Damaged sha256 data s metadata factory k b p)
    {k' : Counters (blocks data s)} {q : MachinePair}
    (hin : InStep sha256 data s metadata factory k' q) (hsent : k'.sent = k.sent)
    (hdelivered : k'.delivered = k.delivered) :
    Damaged sha256 data s metadata factory k' b (withQueue q p.toRight) where
  two_le := hsent ▸ h.two_le
  sent_le := hsent ▸ h.sent_le
  undelivered := hsent ▸ hdelivered ▸ h.undelivered
  damage := hsent ▸ h.damage
  toRight := by
    rw [hsent, hdelivered]
    exact h.toRight
  intact := by
    have hsame := hin.withQueue_inFlight
    change InStep sha256 data s metadata factory k' (withQueue q (inFlight sha256 data s metadata k'))
    rw [hsame]
    exact hin

/-- The sender reads the answers to the messages before the damaged block. -/
theorem Damaged.leftReads (h : Damaged sha256 data s metadata factory k b p)
    (hturn : p.loopTakes (senderMachine sha256).side (receiverMachine sha256).side .leftReads = true) :
    ∃ k' q, p.step (senderMachine sha256).side (receiverMachine sha256).side .leftReads = some q ∧
      Damaged sha256 data s metadata factory k' b q := by
  rw [← h.loopTakes_intact] at hturn
  obtain ⟨k', q, hstep, hin, hare⟩ := h.intact.leftReads hturn
  have hstep' := step_leftReads_withQueue p.toRight hstep
  exact ⟨k', _, hstep', h.of_intact hin hare.sent hare.delivered⟩

/-- The receiver answers the messages before the damaged block. -/
theorem Damaged.rightWrites (hblocks : 0 < blocks data s)
    (h : Damaged sha256 data s metadata factory k b p)
    (hturn : p.loopTakes (senderMachine sha256).side (receiverMachine sha256).side .rightWrites = true) :
    ∃ k' q, p.step (senderMachine sha256).side (receiverMachine sha256).side .rightWrites = some q ∧
      Damaged sha256 data s metadata factory k' b q := by
  rw [← h.loopTakes_intact] at hturn
  obtain ⟨k', q, hstep, hin, hare⟩ := h.intact.rightWrites hblocks hturn
  have hstep' := step_rightWrites_withQueue p.toRight hstep
  exact ⟨k', _, hstep', h.of_intact hin hare.sent hare.delivered⟩

/-- The receiver reads a message before the damaged block. -/
theorem Damaged.rightReads_before (hfits : s.Fits data.length) (hfresh : Fresh factory)
    (h : Damaged sha256 data s metadata factory k b p) (hbefore : k.delivered + 1 < k.sent)
    (hturn : p.loopTakes (senderMachine sha256).side (receiverMachine sha256).side .rightReads = true) :
    ∃ k' q, p.step (senderMachine sha256).side (receiverMachine sha256).side .rightReads = some q ∧
      Damaged sha256 data s metadata factory k' b q := by
  rw [← h.loopTakes_intact] at hturn
  obtain ⟨k', q, hstep, hin, hare⟩ := h.intact.rightReads hfits hfresh hturn
  obtain ⟨message, rest, right, hqueue, hread, rfl⟩ := Pair.step_rightReads.mp hstep
  have hhead : senderMessage sha256 data s metadata k.delivered = message := by
    change inFlight sha256 data s metadata k = message :: rest at hqueue
    rw [inFlight, range'_map_cons _ h.undelivered] at hqueue
    exact (List.cons.inj hqueue).1
  have hdamaged := h.toRight
  rw [range'_map_cons _ (by omega), hhead, List.cons_append] at hdamaged
  have hsent : k'.sent = k.sent := hare.sent
  have hdelivered : k'.delivered = k.delivered + 1 := hare.delivered
  refine ⟨k', _, Pair.step_rightReads.mpr ⟨message, _, right, hdamaged, hread, rfl⟩,
    ⟨hsent ▸ h.two_le, hsent ▸ h.sent_le, by omega, hsent ▸ h.damage, ?_, ?_⟩⟩
  · rw [hsent, hdelivered]
  · have hsame := hin.withQueue_inFlight
    exact hsame ▸ hin

/-- The receiver reads the damaged block in its turn. -/
theorem Damaged.rightReads_damaged (hfits : s.Fits data.length)
    (h : Damaged sha256 data s metadata factory k b p) {i : ℕ} (hsent : k.sent = i + 2)
    (hdelivered : k.delivered = i + 1)
    (hturn : p.loopTakes (senderMachine sha256).side (receiverMachine sha256).side .rightReads = true) :
    ∃ q, p.step (senderMachine sha256).side (receiverMachine sha256).side .rightReads = some q ∧
      Repairing sha256 data s metadata factory i k.collected false q := by
  rw [← h.loopTakes_intact] at hturn
  have hanswered := h.intact.answered_eq hturn
  have hcollected := k.collected_le
  have hle := h.sent_le
  have hdamage := h.damage
  have hqueue := h.toRight
  have hphase := h.intact.receiverPhase
  have hfields := h.intact.receiverFields
  have hsenderPhase := h.intact.senderPhase
  have hsenderFields := h.intact.senderFields
  have htoLeft := h.intact.toLeft
  rw [hanswered, hdelivered] at hcollected hphase hfields htoLeft
  rw [hsent] at hdamage hle hqueue hsenderPhase hsenderFields
  rw [hdelivered, show i + 2 - 1 - (i + 1) = 0 by omega] at hqueue
  have hneed : p.right.1 = .needBlock := hphase.trans (receiverPhaseAt_needBlock (by omega) (by omega))
  have hread := ReceiverFieldsAt.read_damaged hfits hfields (by omega) hdamage
  refine ⟨_, Pair.step_rightReads.mpr ⟨.block (some b), [], (.handleBlock, ReceiverFields.requesting p.right.2 i),
    hqueue, Machine.side_read_eq_ok.mpr ?_, rfl⟩, ⟨by omega, hcollected, hsenderPhase, hsenderFields,
    ⟨p.right.2, hfields, rfl⟩, rfl, ?_⟩⟩
  · rw [hneed]
    exact hread
  · exact htoLeft.trans (List.append_nil _).symm

/-- The sender can still write during a repair, although it should not. -/
theorem Damaged.leftWrites (hfits : s.Fits data.length) (hblocks : 0 < blocks data s)
    (h : Damaged sha256 data s metadata factory k b p)
    (hturn : p.loopTakes (senderMachine sha256).side (receiverMachine sha256).side .leftWrites = true) :
    ∃ q, p.step (senderMachine sha256).side (receiverMachine sha256).side .leftWrites = some q := by
  rw [← h.loopTakes_intact] at hturn
  obtain ⟨k', q, hstep, -, -⟩ := h.intact.leftWrites hfits hblocks hturn
  obtain ⟨left, message, hwrite, -⟩ := Pair.step_leftWrites.mp hstep
  exact ⟨_, Pair.step_leftWrites.mpr ⟨left, message, hwrite, rfl⟩⟩

end Damaged

section Repairing

variable {i collected : ℕ} {asked : Bool} {p : MachinePair}

/-- The receiver requests the damaged block. -/
theorem Repairing.rightWrites (h : Repairing sha256 data s metadata factory i collected false p) :
    ∃ q, p.step (senderMachine sha256).side (receiverMachine sha256).side .rightWrites = some q ∧
      Repairing sha256 data s metadata factory i collected true q := by
  obtain ⟨fields, hfields, hright⟩ := h.receiver
  have hright' : p.right = (.handleBlock, fields.requesting i) := hright
  have hwrite := hfields.write_request h.block
  refine ⟨_, Pair.step_rightWrites.mpr ⟨(.needBlock, fields), some (.redoBlock i),
    Machine.side_write_eq_ok.mpr ?_, rfl⟩, ⟨h.block, h.collected_le, h.senderPhase, h.senderFields,
    ⟨fields, hfields, rfl⟩, h.toRight, ?_⟩⟩
  · rw [hright']
    exact hwrite
  · rw [h.toLeft]
    simp

/-- The sender reads an answer to a message before the damaged block. -/
theorem Repairing.leftReads_before
    (h : Repairing sha256 data s metadata factory i collected asked p)
    (hbefore : collected < i + 1) :
    ∃ q, p.step (senderMachine sha256).side (receiverMachine sha256).side .leftReads = some q ∧
      Repairing sha256 data s metadata factory i (collected + 1) asked q := by
  have hblock := h.block
  obtain ⟨fields, hread, hfields⟩ := h.senderFields.read (by omega) (by omega) (by omega)
  rw [← h.senderPhase] at hread
  have hqueue := h.toLeft
  rw [range'_map_cons _ hbefore, List.cons_append] at hqueue
  exact ⟨_, Pair.step_leftReads.mpr ⟨_, _, (_, fields), hqueue, Machine.side_read_eq_ok.mpr hread, rfl⟩,
    ⟨h.block, by omega, rfl, hfields, h.receiver, h.toRight, rfl⟩⟩

/-- The sender reads the request. -/
theorem Repairing.leftReads_request (hfits : s.Fits data.length)
    (h : Repairing sha256 data s metadata factory i (i + 1) true p) :
    ∃ q, p.step (senderMachine sha256).side (receiverMachine sha256).side .leftReads = some q ∧
      Pending sha256 data s metadata factory i q := by
  obtain ⟨fields, hfields, hright⟩ := h.receiver
  have hright' : p.right = (.needBlock, fields) := hright
  have hqueue := h.toLeft
  rw [Nat.sub_self] at hqueue
  have hread := h.senderFields.read_request hfits h.block
  rw [← h.senderPhase] at hread
  refine ⟨_, Pair.step_leftReads.mpr ⟨.redoBlock i, [], (.inProgress, p.left.2.requested i), hqueue,
    Machine.side_read_eq_ok.mpr hread, rfl⟩, ⟨h.block, ⟨p.left.2, h.senderFields, rfl⟩, ?_, ?_, h.toRight, rfl⟩⟩
  · exact congrArg Prod.fst hright'
  · exact (congrArg Prod.snd hright') ▸ hfields

/-- The sender can still write during a repair, although it should not. -/
theorem Repairing.leftWrites (hfits : s.Fits data.length) (hblocks : 0 < blocks data s)
    (h : Repairing sha256 data s metadata factory i collected asked p)
    (hturn : p.loopTakes (senderMachine sha256).side (receiverMachine sha256).side .leftWrites = true) :
    ∃ q, p.step (senderMachine sha256).side (receiverMachine sha256).side .leftWrites = some q := by
  have hblock := h.block
  have hcollected := h.collected_le
  have hcan : p.left.1.canWrite = true := by
    simp only [Pair.loopTakes, Machine.side, senderMachine, Bool.and_eq_true,
      Bool.false_or] at hturn
    exact hturn.2
  rw [h.senderPhase, canWrite_senderPhaseAt (by omega)] at hcan
  obtain ⟨fields, hwrite, -⟩ := h.senderFields.write hfits hblocks (by omega) hcan
  rw [← h.senderPhase] at hwrite
  exact ⟨_, Pair.step_leftWrites.mpr ⟨(_, fields), _, Machine.side_write_eq_ok.mpr hwrite, rfl⟩⟩

/-- The sender writes the requested block, and the transfer is in step again. -/
theorem Pending.leftWrites (hfits : s.Fits data.length)
    (h : Pending sha256 data s metadata factory i p) :
    ∃ k q, p.step (senderMachine sha256).side (receiverMachine sha256).side .leftWrites = some q ∧
      InStep sha256 data s metadata factory k q ∧ k.Are (i + 2) (i + 1) (i + 1) (i + 1) := by
  have hblock := h.block
  obtain ⟨fields, hfields, hleft⟩ := h.sender
  obtain ⟨fields', hwrite, hfields'⟩ := hfields.write_requested sha256 hfits h.block
  have hwrite' : (senderMachine sha256).side.write p.left =
      .ok ((senderPhaseAt (blocks data s) (i + 2) (i + 1), fields'),
        some (senderMessage sha256 data s metadata (i + 1)), none) := by
    rw [hleft]
    exact Machine.side_write_eq_ok.mpr hwrite
  have hneed : receiverPhaseAt (blocks data s) (i + 1) (i + 1) = .needBlock :=
    receiverPhaseAt_needBlock (by omega) (by omega)
  refine ⟨⟨i + 2, i + 1, i + 1, i + 1, le_rfl, le_rfl, by omega, by omega, by omega, by omega⟩, _,
    Pair.step_leftWrites.mpr ⟨_, _, hwrite', rfl⟩, ⟨rfl, hfields', ?_, h.receiverFields, ?_, ?_⟩,
    ⟨rfl, rfl, rfl, rfl⟩⟩
  · exact h.receiverPhase.trans hneed.symm
  · rw [h.toRight, show i + 2 - (i + 1) = 1 by omega]
    rfl
  · rw [h.toLeft, Nat.sub_self]
    rfl

end Repairing

end ProjektCore.Transfer
