import ProjektCore.Transfer.Repair

/-!
# Transfers in which the sender does not run ahead of a repair

A link damages blocks: any block, any number of times, but only while nothing is queued behind it,
and the sender writes nothing between the damage and the receipt of the request. Such a transfer is
always in step or in a stage of one repair, so no call of the loops fails. A sender that does run
ahead can be sent the same request twice, and refuses the second one.
-/

namespace ProjektCore.Transfer

open Foundation Protocol

/-- A block that does not fit its checksum. -/
def Message.isCorrupted (sha256 : Bytes → Bytes) : Message → Bool
  | .block (some b) => computeChecksum sha256 b.index b.data ≠ b.checksum
  | _ => false

/-- A request to write a block again. -/
def Message.isRedo : Message → Bool
  | .redoBlock _ => true
  | _ => false

/-- A damaged block is on its way, its request is due, or the request is on its way. -/
def underRepair (sha256 : Bytes → Bytes) (toRight toLeft : List Message) (due : Option (List ℕ)) :
    Bool :=
  toRight.any (Message.isCorrupted sha256) || due.isSome || toLeft.any Message.isRedo

/-- The sender does not run ahead of a repair: only the last queued message is damaged, and nothing
is written during a repair. -/
def keepsPace {S T : Type} (sha256 : Bytes → Bytes) (due : T → Option (List ℕ))
    (p : Pair S T Message) :
    LinkEvent → Bool
  | .turn .leftWrites => !underRepair sha256 p.toRight p.toLeft (due p.right)
  | .turn _ => true
  | .corrupt position _ => position + 1 = p.toRight.length

/-- The runs of the loops in which the sender does not run ahead of a repair. -/
def Paced {S T : Type} (sha256 : Bytes → Bytes) (due : T → Option (List ℕ)) (a : Side S Message)
    (b : Side T Message) (p : Pair S T Message) (event : LinkEvent) : Prop :=
  loopEvent a b p event = true ∧ keepsPace sha256 due p event = true

instance {S T : Type} (sha256 : Bytes → Bytes) (due : T → Option (List ℕ)) (a : Side S Message)
    (b : Side T Message) (p : Pair S T Message) (event : LinkEvent) :
    Decidable (Paced sha256 due a b p event) :=
  inferInstanceAs (Decidable (_ ∧ _))

/-- A run between mapped sides in which the sender keeps pace maps back. -/
theorem paced_of_map {S T S' T' : Type} {sha256 : Bytes → Bytes} {due : T → Option (List ℕ)}
    {due' : T' → Option (List ℕ)} {a : Side S Message} {b : Side T Message} {a' : Side S' Message}
    {b' : Side T' Message} {f : S → S'} {g : T → T'} (ha : a.Embeds a' f) (hb : b.Embeds b' g)
    (hdue : ∀ t, due' (g t) = due t) (start : Pair S T Message) {q : Pair S' T' Message}
    (h : Reached (linkStep sha256 a' b') (Paced sha256 due' a' b') (start.map f g) q) :
    ∃ p, q = p.map f g ∧ Reached (linkStep sha256 a b) (Paced sha256 due a b) start p := by
  refine Reached.of_map (Pair.map f g) (linkStep_map sha256 ha hb) ?_ start h
  rintro p event ⟨hloop, hpace⟩
  refine ⟨(loopEvent_map ha hb p event).symm.trans hloop, ?_⟩
  rw [← hpace]
  cases event with
  | turn turn => cases turn <;> simp [keepsPace, Pair.map, hdue]
  | corrupt position altered => rfl

variable {sha256 : Bytes → Bytes} {data : Bytes} {s : Size} {metadata : Metadata} {factory : WriterFactory}

/-- Damaging the last queued message. -/
theorem corruptBlock_concat {init : List Message} {last : Message} {position : ℕ} {altered : Bytes}
    {queue : List Message} (hposition : position + 1 = (init ++ [last]).length)
    (h : corruptBlock sha256 (init ++ [last]) position altered = some queue) :
    ∃ b, last = .block (some b) ∧ altered.length = b.data.length ∧
      computeChecksum sha256 b.index altered ≠ b.checksum ∧
      queue = init ++ [.block (some { b with data := altered })] := by
  obtain rfl : position = init.length := by simpa using hposition
  simp only [corruptBlock, Option.bind_eq_bind, Option.bind_eq_some_iff, queuedBlock_eq_some,
    List.getElem?_concat_length, Option.some.injEq, Option.ite_none_right_eq_some,
    alterBlock_eq_some] at h
  obtain ⟨b, hb, hlength, -, -, -, hbad, rfl⟩ := h
  exact ⟨b, hb, hlength, hbad, by simp⟩

section Course

variable (sha256 data s metadata factory) in
/-- A transfer whose sender does not run ahead of a repair. -/
inductive Course (p : MachinePair) : Prop
  | inStep (k : Counters (blocks data s)) (h : InStep sha256 data s metadata factory k p) : Course p
  | damaged (k : Counters (blocks data s)) (b : Block)
      (h : Damaged sha256 data s metadata factory k b p) : Course p
  | repairing (i collected : ℕ) (asked : Bool)
      (h : Repairing sha256 data s metadata factory i collected asked p) : Course p
  | pending (i : ℕ) (h : Pending sha256 data s metadata factory i p) : Course p

/-- The requests that are due at a receiver. -/
def dueAt (right : ReceiverPhase × ReceiverFields) : Option (List ℕ) := right.2.redoBlocks

variable {k : Counters (blocks data s)} {b : Block} {p : MachinePair} {t : Turn}

/-- A block on its way that is damaged is under repair. -/
theorem Damaged.underRepair (h : Damaged sha256 data s metadata factory k b p) :
    underRepair sha256 p.toRight p.toLeft (dueAt p.right) = true := by
  have hbad : Message.isCorrupted sha256 (.block (some b)) = true := by
    simp only [Message.isCorrupted, h.damage.index, decide_eq_true_eq]
    exact h.damage.bad
  simp [Transfer.underRepair, h.toRight, hbad]

/-- A block that is requested is under repair. -/
theorem Repairing.underRepair {i collected : ℕ} {asked : Bool}
    (h : Repairing sha256 data s metadata factory i collected asked p) :
    underRepair sha256 p.toRight p.toLeft (dueAt p.right) = true := by
  obtain ⟨fields, -, hright⟩ := h.receiver
  cases asked with
  | false => simp [Transfer.underRepair, dueAt, hright, ReceiverFields.requesting]
  | true => simp [Transfer.underRepair, h.toLeft, Message.isRedo]

/-- With a damaged block on its way every turn of the loops succeeds. -/
theorem Damaged.turn (hfits : s.Fits data.length) (hblocks : 0 < blocks data s)
    (hfresh : Fresh factory) (h : Damaged sha256 data s metadata factory k b p)
    (hturn : p.loopTakes (senderMachine sha256).side (receiverMachine sha256).side t = true) :
    ∃ q, p.step (senderMachine sha256).side (receiverMachine sha256).side t = some q ∧
      (keepsPace sha256 dueAt p (.turn t) = true → Course sha256 data s metadata factory q) := by
  cases t with
  | leftWrites =>
    obtain ⟨q, hstep⟩ := h.leftWrites hfits hblocks hturn
    refine ⟨q, hstep, ?_⟩
    simp [keepsPace, h.underRepair]
  | leftReads =>
    obtain ⟨k', q, hstep, hq⟩ := h.leftReads hturn
    exact ⟨q, hstep, fun _ => .damaged k' b hq⟩
  | rightWrites =>
    obtain ⟨k', q, hstep, hq⟩ := h.rightWrites hblocks hturn
    exact ⟨q, hstep, fun _ => .damaged k' b hq⟩
  | rightReads =>
    by_cases hbefore : k.delivered + 1 < k.sent
    · obtain ⟨k', q, hstep, hq⟩ := h.rightReads_before hfits hfresh hbefore hturn
      exact ⟨q, hstep, fun _ => .damaged k' b hq⟩
    · have htwo := h.two_le
      have hundelivered := h.undelivered
      obtain ⟨q, hstep, hq⟩ := h.rightReads_damaged hfits (i := k.sent - 2) (by omega) (by omega) hturn
      exact ⟨q, hstep, fun _ => .repairing _ _ _ hq⟩

/-- While a block is requested every turn of the loops succeeds. -/
theorem Repairing.turn (hfits : s.Fits data.length) (hblocks : 0 < blocks data s) {i collected : ℕ}
    {asked : Bool} (h : Repairing sha256 data s metadata factory i collected asked p)
    (hturn : p.loopTakes (senderMachine sha256).side (receiverMachine sha256).side t = true) :
    ∃ q, p.step (senderMachine sha256).side (receiverMachine sha256).side t = some q ∧
      (keepsPace sha256 dueAt p (.turn t) = true → Course sha256 data s metadata factory q) := by
  cases t with
  | leftWrites =>
    obtain ⟨q, hstep⟩ := h.leftWrites hfits hblocks hturn
    refine ⟨q, hstep, ?_⟩
    simp [keepsPace, h.underRepair]
  | leftReads =>
    by_cases hbefore : collected < i + 1
    · obtain ⟨q, hstep, hq⟩ := h.leftReads_before hbefore
      exact ⟨q, hstep, fun _ => .repairing _ _ _ hq⟩
    · obtain rfl : collected = i + 1 := le_antisymm h.collected_le (Nat.not_lt.mp hbefore)
      cases asked with
      | false => simp [Pair.loopTakes, h.toLeft] at hturn
      | true =>
        obtain ⟨q, hstep, hq⟩ := h.leftReads_request hfits
        exact ⟨q, hstep, fun _ => .pending _ hq⟩
  | rightWrites =>
    cases asked with
    | false =>
      obtain ⟨q, hstep, hq⟩ := h.rightWrites
      exact ⟨q, hstep, fun _ => .repairing _ _ _ hq⟩
    | true =>
      obtain ⟨fields, -, hright⟩ := h.receiver
      simp [Pair.loopTakes, Machine.side, receiverMachine, hright, ReceiverPhase.canWrite] at hturn
  | rightReads => simp [Pair.loopTakes, h.toRight] at hturn

/-- Once the request is read the only turn is to write the block. -/
theorem Pending.turn (hfits : s.Fits data.length) {i : ℕ}
    (h : Pending sha256 data s metadata factory i p)
    (hturn : p.loopTakes (senderMachine sha256).side (receiverMachine sha256).side t = true) :
    ∃ q, p.step (senderMachine sha256).side (receiverMachine sha256).side t = some q ∧
      (keepsPace sha256 dueAt p (.turn t) = true → Course sha256 data s metadata factory q) := by
  cases t with
  | leftWrites =>
    obtain ⟨k, q, hstep, hq, -⟩ := h.leftWrites hfits
    exact ⟨q, hstep, fun _ => .inStep k hq⟩
  | leftReads => simp [Pair.loopTakes, h.toLeft] at hturn
  | rightWrites => simp [Pair.loopTakes, Machine.side, receiverMachine, h.receiverPhase,
                     ReceiverPhase.canWrite] at hturn
  | rightReads => simp [Pair.loopTakes, h.toRight] at hturn

/-- Every turn of the loops succeeds, and stays on course if the sender does not run ahead. -/
theorem Course.turn (hfits : s.Fits data.length) (hblocks : 0 < blocks data s)
    (hfresh : Fresh factory) (h : Course sha256 data s metadata factory p)
    (hturn : p.loopTakes (senderMachine sha256).side (receiverMachine sha256).side t = true) :
    ∃ q, p.step (senderMachine sha256).side (receiverMachine sha256).side t = some q ∧
      (keepsPace sha256 dueAt p (.turn t) = true → Course sha256 data s metadata factory q) := by
  cases h with
  | inStep k h =>
    obtain ⟨k', q, hstep, hq⟩ := h.turn hfits hblocks hfresh hturn
    exact ⟨q, hstep, fun _ => .inStep k' hq⟩
  | damaged k b h => exact h.turn hfits hblocks hfresh hturn
  | repairing i collected asked h => exact h.turn hfits hblocks hturn
  | pending i h => exact h.turn hfits hturn

/-- The last message on its way, if it can be damaged, is the last block that was sent. -/
theorem InStep.corrupt (h : InStep sha256 data s metadata factory k p) {position : ℕ}
    {altered : Bytes} {queue : List Message} (hposition : position + 1 = p.toRight.length)
    (hqueue : corruptBlock sha256 p.toRight position altered = some queue) :
    ∃ b, Damaged sha256 data s metadata factory k b (withQueue p queue) := by
  have hsome : k.delivered < k.sent := by
    by_contra hge
    have hempty : k.sent - k.delivered = 0 := by omega
    simp [h.toRight, hempty] at hposition
  obtain ⟨n, hn⟩ : ∃ n, k.sent = n + 1 := ⟨k.sent - 1, by omega⟩
  have htoRight := h.toRight
  rw [hn, range'_map_concat _ (by omega)] at htoRight
  rw [htoRight] at hposition hqueue
  obtain ⟨b, hb, hlength, hbad, rfl⟩ := corruptBlock_concat hposition hqueue
  obtain ⟨hpos, hle, rfl⟩ : 0 < n ∧ n ≤ blocks data s ∧ b = blockAt sha256 data s (n - 1) := by
    unfold senderMessage at hb
    split_ifs at hb with hzero hblock
    exact ⟨by omega, hblock, by simpa using hb.symm⟩
  have hindex : k.sent - 2 = n - 1 := by omega
  refine ⟨{ blockAt sha256 data s (n - 1) with data := altered }, ⟨by omega, by omega, hsome,
    ⟨hindex.symm, hindex ▸ hlength, hindex ▸ hbad⟩, ?_, ?_⟩⟩
  · rw [hn]
    rfl
  · exact h.withQueue_inFlight.symm ▸ h

/-- A damaged block can be damaged again. -/
theorem Damaged.corrupt (h : Damaged sha256 data s metadata factory k b p) {position : ℕ}
    {altered : Bytes} {queue : List Message} (hposition : position + 1 = p.toRight.length)
    (hqueue : corruptBlock sha256 p.toRight position altered = some queue) :
    ∃ b', Damaged sha256 data s metadata factory k b' (withQueue p queue) := by
  rw [h.toRight] at hposition hqueue
  obtain ⟨b', hb', hlength, hbad, rfl⟩ := corruptBlock_concat hposition hqueue
  obtain rfl : b = b' := by simpa using hb'
  refine ⟨{ b with data := altered }, ⟨h.two_le, h.sent_le, h.undelivered,
    ⟨h.damage.index, hlength.trans h.damage.length, ?_⟩, rfl, h.intact⟩⟩
  rw [← h.damage.index]
  exact hbad

/-- Damaging the last queued message stays on course. -/
theorem Course.corrupt (h : Course sha256 data s metadata factory p) {position : ℕ}
    {altered : Bytes} {queue : List Message} (hposition : position + 1 = p.toRight.length)
    (hqueue : corruptBlock sha256 p.toRight position altered = some queue) :
    Course sha256 data s metadata factory (withQueue p queue) := by
  cases h with
  | inStep k h =>
    obtain ⟨b, hb⟩ := h.corrupt hposition hqueue
    exact .damaged k b hb
  | damaged k b h =>
    obtain ⟨b', hb'⟩ := h.corrupt hposition hqueue
    exact .damaged k b' hb'
  | repairing i collected asked h => simp [h.toRight] at hposition
  | pending i h => simp [h.toRight] at hposition

/-- A step on course leads to a state on course. -/
theorem Course.step (hfits : s.Fits data.length) (hblocks : 0 < blocks data s)
    (hfresh : Fresh factory) (h : Course sha256 data s metadata factory p) {event : LinkEvent}
    {q : MachinePair}
    (hpaced : Paced sha256 dueAt (senderMachine sha256).side (receiverMachine sha256).side p event)
    (hstep : linkStep sha256 (senderMachine sha256).side (receiverMachine sha256).side p event = some q) :
    Course sha256 data s metadata factory q := by
  obtain ⟨hloop, hpace⟩ := hpaced
  cases event with
  | turn turn =>
    obtain ⟨q', hq', hcourse⟩ := h.turn hfits hblocks hfresh hloop
    obtain rfl := Option.some.inj (hq'.symm.trans hstep)
    exact hcourse hpace
  | corrupt position altered =>
    obtain ⟨queue, hqueue, rfl⟩ := Option.map_eq_some_iff.mp hstep
    exact h.corrupt (of_decide_eq_true hpace) hqueue

end Course

/-- Every state of a transfer whose sender does not run ahead of a repair is on course. -/
theorem course_of_reached (hfits : s.Fits data.length) (hblocks : 0 < blocks data s) (hfresh : Fresh factory)
    {p : MachinePair}
    (h : Reached (linkStep sha256 (senderMachine sha256).side (receiverMachine sha256).side)
      (Paced sha256 dueAt (senderMachine sha256).side (receiverMachine sha256).side)
      (transferStart (some metadata) factory data s) p) :
    Course sha256 data s metadata factory p :=
  h.invariant _ (.inStep _ inStep_start) fun _ _ _ hp hpaced hstep => hp.step hfits hblocks hfresh hpaced hstep

/-- As long as the sender does not run ahead of a repair, no call that the loops make fails,
whichever blocks the link damages. -/
theorem paced_transfer_repairs (sha256 : Bytes → Bytes) (data : Bytes) (hdata : data ≠ [])
    (s : Size) (hfits : s.Fits data.length) (metadata : Metadata) (factory : WriterFactory)
    (hfresh : Fresh factory) :
    ∃ sender receiver,
      newSender sha256 (some metadata) (newBlockReader (.ofBytes data) data.length s) = .ok sender ∧
      newReceiver sha256 factory = .ok receiver ∧
      ∀ p, Reached (linkStep sha256 Peer.side Peer.side)
          (Paced sha256 (fun receiver => receiver.world.redoBlocks) Peer.side Peer.side)
          ⟨sender, receiver, [], []⟩ p →
        ∀ turn, p.loopTakes Peer.side Peer.side turn = true →
          ∃ q, p.call Peer.side Peer.side turn = some (.ok (q, none)) := by
  have hblocks : 0 < blocks data s := s.blockCount_pos _ (List.length_pos_of_ne_nil hdata)
  obtain ⟨client, client', hsender, hreceiver, ha, hb⟩ := transferStart_embeds sha256 (some metadata) factory data s
  refine ⟨_, _, hsender, hreceiver, ?_⟩
  intro q hq turn hturn
  obtain ⟨p, rfl, hp⟩ := paced_of_map ha hb (fun _ => rfl) (transferStart (some metadata) factory data s) hq
  have hcourse := course_of_reached hfits hblocks hfresh hp
  rw [Pair.loopTakes_map ha hb] at hturn
  obtain ⟨p', hstep, -⟩ := hcourse.turn hfits hblocks hfresh hturn
  exact ⟨_, Pair.call_map_of_step ha hb hstep⟩

/-- Two blocks of one byte: the first is damaged, and after its repair the transfer goes on. -/
theorem paced_transfer_repairs_two_bytes :
    ∃ sender receiver p,
      newSender id (some ⟨[100]⟩) (newBlockReader (.ofBytes [1, 2]) 2 ⟨1, by decide⟩) = .ok sender ∧
      newReceiver id (fun _ size => .ok (.make size)) = .ok receiver ∧
      Reached (linkStep id Peer.side Peer.side)
        (Paced id (fun receiver => receiver.world.redoBlocks) Peer.side Peer.side) ⟨sender, receiver, [], []⟩ p ∧
      p.toLeft = [.redoBlock 0] ∧ ∃ q, p.call Peer.side Peer.side .leftReads = some (.ok (q, none)) := by
  obtain ⟨sender, receiver, hsender, hreceiver, hall⟩ :=
    paced_transfer_repairs id [1, 2] (by decide) ⟨1, by decide⟩ ⟨by decide, by decide⟩ ⟨[100]⟩
      (fun _ size => .ok (.make size))
      (fun _ size => ⟨.make size, rfl, by simp [Store.make, Store.ofBytes], rfl⟩)
  change newSender id (some ⟨[100]⟩) (newBlockReader (.ofBytes [1, 2]) 2 ⟨1, by decide⟩) = .ok sender at hsender
  have hrun : (do
      let sender ← newSender id (some ⟨[100]⟩) (newBlockReader (.ofBytes [1, 2]) 2 ⟨1, by decide⟩)
      let receiver ← newReceiver id (fun _ size => .ok (.make size))
      return (execute (linkStep id Peer.side Peer.side)
        (Paced id (fun receiver => receiver.world.redoBlocks) Peer.side Peer.side)
        [.turn .leftWrites, .turn .leftWrites, .corrupt 1 [9], .turn .rightReads, .turn .rightWrites,
          .turn .rightReads, .turn .rightWrites, .turn .leftReads]
        ⟨sender, receiver, [], []⟩).map fun p => (p.toLeft, p.loopTakes Peer.side Peer.side .leftReads)) =
      (.ok (some ([.redoBlock 0], true)) : Go _) := rfl
  simp only [hsender, hreceiver, Call.ok_bind, Call.pure_eq_ok, Except.ok.injEq,
    Option.map_eq_some_iff, Prod.mk.injEq] at hrun
  obtain ⟨p, hp, hqueue, hturn⟩ := hrun
  have hreached := reached_of_execute _ hp
  exact ⟨sender, receiver, p, hsender, hreceiver, hreached, hqueue, hall p hreached .leftReads hturn⟩

/-- If the sender runs ahead, the second request for a block meets the first one in the sender's
queue. -/
theorem second_request_refused :
    ∃ sender receiver p q,
      newSender id (some ⟨[100]⟩) (newBlockReader (.ofBytes [1, 2]) 2 ⟨1, by decide⟩) = .ok sender ∧
      newReceiver id (fun _ size => .ok (.make size)) = .ok receiver ∧
      Reached (linkStep id Peer.side Peer.side) (LinkDriven Peer.side Peer.side) ⟨sender, receiver, [], []⟩ p ∧
      p.loopTakes Peer.side Peer.side .leftReads = true ∧
      p.call Peer.side Peer.side .leftReads = some (.ok (q, some .duplicateRedoBlock)) := by
  obtain ⟨client, hsender, -⟩ :=
    newSender_ok id (some ⟨[100]⟩) (newBlockReader (.ofBytes [1, 2]) 2 ⟨1, by decide⟩)
  obtain ⟨client', hreceiver, -⟩ := newReceiver_ok id (fun _ size => .ok (.make size))
  have hrun : (do
      let sender ← newSender id (some ⟨[100]⟩) (newBlockReader (.ofBytes [1, 2]) 2 ⟨1, by decide⟩)
      let receiver ← newReceiver id (fun _ size => .ok (.make size))
      return (execute (linkStep id Peer.side Peer.side) (LinkDriven Peer.side Peer.side)
        [.turn .leftWrites, .turn .leftWrites, .corrupt 1 [9], .turn .leftWrites, .turn .rightReads,
          .turn .rightWrites, .turn .rightReads, .turn .rightWrites, .turn .rightReads, .turn .rightWrites,
          .turn .rightWrites, .turn .leftReads, .turn .leftReads, .turn .leftReads]
        ⟨sender, receiver, [], []⟩).map fun p =>
          (p.loopTakes Peer.side Peer.side .leftReads,
            (p.call Peer.side Peer.side .leftReads).map fun r => r.toOption.map Prod.snd)) =
      (.ok (some (true, some (some (some .duplicateRedoBlock)))) : Go _) := rfl
  simp only [hsender, hreceiver, Call.ok_bind, Call.pure_eq_ok, Except.ok.injEq,
    Option.map_eq_some_iff, Prod.mk.injEq] at hrun
  obtain ⟨p, hp, hturn, result, hcall, ⟨q, err⟩, hresult, rfl⟩ := hrun
  cases result with
  | error value => cases hresult
  | ok returned =>
    obtain rfl : returned = (q, some .duplicateRedoBlock) := Option.some.inj hresult
    exact ⟨_, _, p, q, hsender, hreceiver, reached_of_execute _ hp, hturn, hcall⟩

end ProjektCore.Transfer
