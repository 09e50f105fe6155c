import ProjektCore.Transfer.Course

/-!
# The lockstep schedule

The sender writes one message, the receiver reads it, and every message that the receiver can then
write is read by the sender, until the sender is done. A pattern says which of the sender's messages
the link damages, and with which data. Between two rounds a transfer is in step with all counters
equal, or a request has just been read; an undamaged round completes one more message of the fixed
sequence, and a damaged round repeats its message.
-/

namespace ProjektCore.Transfer

open Foundation Protocol

section Schedule

variable {S T S' T' : Type}

/-- Let the sender read all messages that the receiver can write. -/
def collectAnswers (a : Side S Message) (b : Side T Message) :
    ℕ → Pair S T Message → Option (Pair S T Message)
  | 0, _ => none
  | fuel + 1, p =>
    if b.canWrite p.right then
      (p.step a b .rightWrites).bind fun p => (p.step a b .leftReads).bind (collectAnswers a b fuel)
    else some p

/-- Damage the next message if it is a block and the data is another one of its length. -/
def damageNext (sha256 : Bytes → Bytes) (altered : Option Bytes) (p : Pair S T Message) :
    Pair S T Message × Bool :=
  match altered.bind (corruptBlock sha256 p.toRight 0) with
  | some queue => ({ p with toRight := queue }, true)
  | none => (p, false)

/-- One message of the sender with everything that follows from it, and whether it was damaged. -/
def lockstepRound (sha256 : Bytes → Bytes) (a : Side S Message) (b : Side T Message) (fuel : ℕ)
    (altered : Option Bytes) (p : Pair S T Message) : Option (Pair S T Message × Bool) :=
  (p.step a b .leftWrites).bind fun p =>
    ((damageNext sha256 altered p).1.step a b .rightReads).bind fun q =>
      (collectAnswers a b fuel q).map fun q => (q, (damageNext sha256 altered p).2)

/-- Rounds until the sender is done, with the number of messages it wrote and of those damaged. -/
def lockstep (sha256 : Bytes → Bytes) (a : Side S Message) (b : Side T Message) :
    ℕ → List (Option Bytes) → Pair S T Message → Option (Pair S T Message × ℕ × ℕ)
  | 0, _, _ => none
  | fuel + 1, pattern, p =>
    if a.isDone p.left then some (p, 0, 0)
    else
      (lockstepRound sha256 a b fuel pattern.head?.join p).bind fun round =>
        (lockstep sha256 a b fuel pattern.tail round.1).map fun rest =>
          (rest.1, rest.2.1 + 1, rest.2.2 + round.2.toNat)

variable {a : Side S Message} {b : Side T Message} {a' : Side S' Message} {b' : Side T' Message} {f : S → S'}
  {g : T → T'}

/-- A round and then the rest of the schedule. -/
theorem lockstep_succ {sha256 : Bytes → Bytes} {fuel sent corrupted : ℕ}
    {pattern : List (Option Bytes)} {p q last : Pair S T Message} {damaged : Bool}
    (hopen : a.isDone p.left = false)
    (hround : lockstepRound sha256 a b fuel pattern.head?.join p = some (q, damaged))
    (hrest : lockstep sha256 a b fuel pattern.tail q = some (last, sent, corrupted)) :
    lockstep sha256 a b (fuel + 1) pattern p = some (last, sent + 1, corrupted + damaged.toNat) := by
  rw [lockstep, hopen, hround]
  simp only [Bool.false_eq_true, if_false, Option.bind_some, hrest, Option.map_some]

/-- Collecting the answers commutes with maps of the sides. -/
theorem collectAnswers_map (ha : a.Embeds a' f) (hb : b.Embeds b' g) (fuel : ℕ)
    (p : Pair S T Message) :
    collectAnswers a' b' fuel (p.map f g) = (collectAnswers a b fuel p).map (Pair.map f g) := by
  induction fuel generalizing p with
  | zero => rfl
  | succ fuel ih =>
    have hcan : b'.canWrite (p.map f g).right = b.canWrite p.right := hb.canWrite p.right
    simp only [collectAnswers, hcan, Pair.step_map ha hb]
    cases b.canWrite p.right with
    | false => rfl
    | true =>
      cases p.step a b .rightWrites with
      | none => rfl
      | some answered =>
        simp only [if_true, Option.map_some, Option.bind_some, Pair.step_map ha hb]
        cases answered.step a b .leftReads with
        | none => rfl
        | some collected => exact ih collected

/-- The damage does not look at the sides. -/
theorem damageNext_map (sha256 : Bytes → Bytes) (altered : Option Bytes) (f : S → S') (g : T → T')
    (p : Pair S T Message) :
    damageNext sha256 altered (p.map f g) =
      ((damageNext sha256 altered p).1.map f g, (damageNext sha256 altered p).2) := by
  simp only [damageNext, Pair.map]
  cases altered.bind (corruptBlock sha256 p.toRight 0) <;> rfl

/-- A round commutes with maps of the sides. -/
theorem lockstepRound_map (sha256 : Bytes → Bytes) (ha : a.Embeds a' f) (hb : b.Embeds b' g)
    (fuel : ℕ) (altered : Option Bytes) (p : Pair S T Message) :
    lockstepRound sha256 a' b' fuel altered (p.map f g) =
      (lockstepRound sha256 a b fuel altered p).map fun round => (round.1.map f g, round.2) := by
  simp only [lockstepRound, Pair.step_map ha hb]
  cases p.step a b .leftWrites with
  | none => rfl
  | some written =>
    simp only [Option.map_some, Option.bind_some, damageNext_map, Pair.step_map ha hb]
    cases (damageNext sha256 altered written).1.step a b .rightReads with
    | none => rfl
    | some read =>
      simp only [Option.map_some, Option.bind_some, collectAnswers_map ha hb, Option.map_map]
      rfl

/-- The schedule commutes with maps of the sides. -/
theorem lockstep_map (sha256 : Bytes → Bytes) (ha : a.Embeds a' f) (hb : b.Embeds b' g) (fuel : ℕ)
    (pattern : List (Option Bytes)) (p : Pair S T Message) :
    lockstep sha256 a' b' fuel pattern (p.map f g) =
      (lockstep sha256 a b fuel pattern p).map fun result => (result.1.map f g, result.2) := by
  induction fuel generalizing pattern p with
  | zero => rfl
  | succ fuel ih =>
    have hdone : a'.isDone (p.map f g).left = a.isDone p.left := ha.isDone p.left
    simp only [lockstep, hdone, lockstepRound_map sha256 ha hb]
    cases a.isDone p.left with
    | true => rfl
    | false =>
      cases lockstepRound sha256 a b fuel pattern.head?.join p with
      | none => rfl
      | some round =>
        simp only [Bool.false_eq_true, if_false, Option.map_some, Option.bind_some, ih,
          Option.map_map]
        rfl

end Schedule

variable {sha256 : Bytes → Bytes} {data : Bytes} {s : Size} {metadata : Metadata} {factory : WriterFactory}

variable (sha256 data s metadata factory) in
/-- Between two rounds, after `n` messages of the fixed sequence. -/
inductive Settled (n : ℕ) (p : MachinePair) : Prop
  | inStep (k : Counters (blocks data s)) (h : InStep sha256 data s metadata factory k p)
      (hk : k.Are n n n n) :
      Settled n p
  | pending (i : ℕ) (h : Pending sha256 data s metadata factory i p) (hn : n = i + 1) : Settled n p

section Round

variable {n : ℕ} {p : MachinePair} {k : Counters (blocks data s)}

/-- The sender is done exactly after the last message. -/
theorem Settled.isDone_iff (h : Settled sha256 data s metadata factory n p) :
    (senderMachine sha256).side.isDone p.left = true ↔ n = blocks data s + 2 := by
  cases h with
  | inStep k h hk =>
    have hdone := senderPhaseAt_eq_done_iff k
    rw [← h.senderPhase, hk.collected] at hdone
    exact decide_eq_true_iff.trans hdone
  | pending i h hn =>
    obtain ⟨fields, -, hleft⟩ := h.sender
    have hblock := h.block
    have hopen : (senderMachine sha256).side.isDone p.left = false := by
      rw [hleft]
      rfl
    rw [hopen]
    constructor
    · intro hfalse
      cases hfalse
    · intro heq
      omega

/-- Before the last message the sender writes the next one. -/
theorem Settled.leftWrites (hfits : s.Fits data.length) (hblocks : 0 < blocks data s)
    (h : Settled sha256 data s metadata factory n p) (hn : n < blocks data s + 2) :
    ∃ k q, p.step (senderMachine sha256).side (receiverMachine sha256).side .leftWrites = some q ∧
      InStep sha256 data s metadata factory k q ∧ k.Are (n + 1) n n n := by
  have hopen : (senderMachine sha256).side.isDone p.left = false := by
    rw [Bool.eq_false_iff, ne_eq, h.isDone_iff]
    omega
  cases h with
  | inStep k h hk =>
    have hcan : (senderMachine sha256).side.canWrite p.left = true := by
      change p.left.1.canWrite = true
      rw [h.senderPhase, hk.sent, hk.collected, canWrite_senderPhaseAt (by omega)]
      omega
    obtain ⟨k', q, hstep, hin, hare⟩ := h.leftWrites hfits hblocks (by simp [Pair.loopTakes, hopen, hcan])
    rw [hk.sent, hk.delivered, hk.answered, hk.collected] at hare
    exact ⟨k', q, hstep, hin, hare⟩
  | pending i h hi =>
    subst hi
    exact h.leftWrites hfits

/-- The receiver can write exactly if a message is not answered. -/
theorem InStep.canWrite_iff (h : InStep sha256 data s metadata factory k p) :
    (receiverMachine sha256).side.canWrite p.right = true ↔ k.answered < k.delivered := by
  change p.right.1.canWrite = true ↔ _
  rw [h.receiverPhase, canWrite_receiverPhaseAt]

/-- With a message on its way and nothing to answer the receiver's loop reads. -/
theorem InStep.takes_rightReads (h : InStep sha256 data s metadata factory k p)
    (hidle : k.answered = k.delivered) (hsome : k.delivered < k.sent) :
    p.loopTakes (senderMachine sha256).side (receiverMachine sha256).side .rightReads = true := by
  have hsent := k.sent_le
  have hdone := receiverPhaseAt_eq_done_iff k
  rw [← h.receiverPhase] at hdone
  have hopen : p.right.1 ≠ .done := mt hdone.mp (by omega)
  have hcan : p.right.1.canWrite = false := by
    rw [Bool.eq_false_iff, h.receiverPhase, ne_eq, canWrite_receiverPhaseAt]
    omega
  simp [Pair.loopTakes, Machine.side, receiverMachine, hopen, hcan, h.toRight,
    range'_map_cons _ hsome]

/-- With a message that is not answered the receiver's loop writes. -/
theorem InStep.takes_rightWrites (h : InStep sha256 data s metadata factory k p)
    (hopen : k.answered < k.delivered) :
    p.loopTakes (senderMachine sha256).side (receiverMachine sha256).side .rightWrites = true := by
  have hsent := k.delivered_le.trans k.sent_le
  have hdone := receiverPhaseAt_eq_done_iff k
  rw [← h.receiverPhase] at hdone
  have hright : p.right.1 ≠ .done := mt hdone.mp (by omega)
  have hcan : p.right.1.canWrite = true := h.canWrite_iff.mpr hopen
  simp [Pair.loopTakes, Machine.side, receiverMachine, hright, hcan]

/-- With an answer on its way the sender's loop reads. -/
theorem InStep.takes_leftReads (h : InStep sha256 data s metadata factory k p)
    (hsome : k.collected < k.answered) :
    p.loopTakes (senderMachine sha256).side (receiverMachine sha256).side .leftReads = true := by
  have hanswered := k.answered_le.trans (k.delivered_le.trans k.sent_le)
  have hdone := senderPhaseAt_eq_done_iff k
  rw [← h.senderPhase] at hdone
  have hleft : p.left.1 ≠ .done := mt hdone.mp (by omega)
  simp [Pair.loopTakes, Machine.side, senderMachine, hleft, h.toLeft, range'_map_cons _ hsome]

/-- One answer completes an undamaged round. -/
theorem InStep.collectAnswers (hblocks : 0 < blocks data s)
    (h : InStep sha256 data s metadata factory k p) (hk : k.Are (n + 1) (n + 1) n n) (fuel : ℕ) :
    ∃ q, collectAnswers (senderMachine sha256).side (receiverMachine sha256).side (fuel + 2) p = some q ∧
      Settled sha256 data s metadata factory (n + 1) q := by
  have hopen : k.answered < k.delivered := by
    rw [hk.answered, hk.delivered]
    exact Nat.lt_succ_self n
  obtain ⟨k', answered, hwrite, hin', hare'⟩ := h.rightWrites hblocks (h.takes_rightWrites hopen)
  rw [hk.sent, hk.delivered, hk.answered, hk.collected] at hare'
  have hsome : k'.collected < k'.answered := by
    rw [hare'.collected, hare'.answered]
    exact Nat.lt_succ_self n
  obtain ⟨k'', q, hread, hin, hare⟩ := hin'.leftReads (hin'.takes_leftReads hsome)
  rw [hare'.sent, hare'.delivered, hare'.answered, hare'.collected] at hare
  have hcan : (receiverMachine sha256).side.canWrite p.right = true := h.canWrite_iff.mpr hopen
  have hidle : (receiverMachine sha256).side.canWrite q.right = false := by
    rw [Bool.eq_false_iff, ne_eq, hin.canWrite_iff, hare.answered, hare.delivered]
    exact lt_irrefl _
  refine ⟨q, ?_, .inStep k'' hin hare⟩
  simp [Transfer.collectAnswers, hcan, hwrite, hread, hidle]

/-- The request completes a damaged round. -/
theorem Repairing.collectAnswers (hfits : s.Fits data.length) {i : ℕ}
    (h : Repairing sha256 data s metadata factory i (i + 1) false p) (fuel : ℕ) :
    ∃ q, collectAnswers (senderMachine sha256).side (receiverMachine sha256).side (fuel + 2) p = some q ∧
      Settled sha256 data s metadata factory (i + 1) q := by
  obtain ⟨asked, hwrite, hasked⟩ := h.rightWrites
  obtain ⟨q, hread, hpending⟩ := hasked.leftReads_request hfits
  have hcan : (receiverMachine sha256).side.canWrite p.right = true := by
    obtain ⟨fields, -, hright⟩ := h.receiver
    rw [hright]
    rfl
  have hidle : (receiverMachine sha256).side.canWrite q.right = false := by
    change q.right.1.canWrite = false
    rw [hpending.receiverPhase]
    rfl
  refine ⟨q, ?_, .pending i hpending rfl⟩
  simp [Transfer.collectAnswers, hcan, hwrite, hread, hidle]

/-- A round completes its message if it is not damaged, and otherwise repeats it. -/
theorem Settled.round (hfits : s.Fits data.length) (hblocks : 0 < blocks data s)
    (hfresh : Fresh factory) (h : Settled sha256 data s metadata factory n p)
    (hn : n < blocks data s + 2) (fuel : ℕ) (altered : Option Bytes) :
    ∃ q damaged, lockstepRound sha256 (senderMachine sha256).side (receiverMachine sha256).side (fuel + 2) altered p =
        some (q, damaged) ∧
      (damaged = false → Settled sha256 data s metadata factory (n + 1) q) ∧
      (damaged = true → Settled sha256 data s metadata factory n q ∧ altered.isSome = true) := by
  obtain ⟨k, written, hwrite, hin, hk⟩ := h.leftWrites hfits hblocks hn
  have hidle : k.answered = k.delivered := hk.answered.trans hk.delivered.symm
  have hsome : k.delivered < k.sent := by
    rw [hk.delivered, hk.sent]
    exact Nat.lt_succ_self n
  have htakes := hin.takes_rightReads hidle hsome
  cases hdamage : altered.bind (corruptBlock sha256 written.toRight 0) with
  | none =>
    obtain ⟨k', read, hread, hin', hare⟩ := hin.rightReads hfits hfresh htakes
    rw [hk.sent, hk.delivered, hk.answered, hk.collected] at hare
    obtain ⟨q, hcollect, hsettled⟩ := hin'.collectAnswers hblocks hare fuel
    refine ⟨q, false, ?_, fun _ => hsettled, ?_⟩
    · simp only [lockstepRound, hwrite, Option.bind_some, damageNext, hdamage, hread, hcollect,
        Option.map_some]
    · intro hfalse
      cases hfalse
  | some queue =>
    obtain ⟨bytes, rfl, hqueue⟩ := Option.bind_eq_some_iff.mp hdamage
    have hone : 0 + 1 = written.toRight.length := by
      rw [hin.toRight, hk.sent, hk.delivered]
      simp
    obtain ⟨b, hdamaged⟩ := hin.corrupt hone hqueue
    obtain ⟨i, rfl⟩ : ∃ i, n = i + 1 := by
      have htwo := hdamaged.two_le
      rw [hk.sent] at htwo
      exact ⟨n - 1, by omega⟩
    have htakes' : (withQueue written queue).loopTakes (senderMachine sha256).side (receiverMachine sha256).side
        .rightReads = true := by
      rw [← hdamaged.loopTakes_intact]
      change (withQueue written (inFlight sha256 data s metadata k)).loopTakes _ _ _ = true
      rw [hin.withQueue_inFlight]
      exact htakes
    obtain ⟨read, hread, hrepairing⟩ := hdamaged.rightReads_damaged hfits hk.sent hk.delivered htakes'
    change Pair.step _ _ { written with toRight := queue } .rightReads = some read at hread
    rw [hk.collected] at hrepairing
    obtain ⟨q, hcollect, hsettled⟩ := hrepairing.collectAnswers hfits fuel
    refine ⟨q, true, ?_, ?_, fun _ => ⟨hsettled, rfl⟩⟩
    · simp only [lockstepRound, hwrite, Option.bind_some, damageNext, hqueue, hread, hcollect,
        Option.map_some]
    · intro hfalse
      cases hfalse

/-- With enough fuel the schedule ends in step, after one message for each that was left and one for
each that was damaged. -/
theorem Settled.lockstep (hfits : s.Fits data.length) (hblocks : 0 < blocks data s)
    (hfresh : Fresh factory) (fuel : ℕ) (pattern : List (Option Bytes)) (hn : n ≤ blocks data s + 2)
    (hfuel : pattern.length + (blocks data s + 2 - n) + 2 ≤ fuel)
    (h : Settled sha256 data s metadata factory n p) :
    ∃ q corrupted, lockstep sha256 (senderMachine sha256).side (receiverMachine sha256).side fuel pattern p =
        some (q, blocks data s + 2 - n + corrupted, corrupted) ∧
      Settled sha256 data s metadata factory (blocks data s + 2) q := by
  induction fuel generalizing n p pattern with
  | zero => omega
  | succ fuel ih =>
    by_cases hend : n = blocks data s + 2
    · subst hend
      refine ⟨p, 0, ?_, h⟩
      simp [Transfer.lockstep, h.isDone_iff]
    · have hopen : (senderMachine sha256).side.isDone p.left = false := by
        rw [Bool.eq_false_iff, ne_eq, h.isDone_iff]
        exact hend
      obtain ⟨fuel, rfl⟩ : ∃ f, fuel = f + 2 := ⟨fuel - 2, by omega⟩
      obtain ⟨q, damaged, hround, hintact, hrepeat⟩ :=
        h.round hfits hblocks hfresh (lt_of_le_of_ne hn hend) fuel pattern.head?.join
      cases damaged with
      | false =>
        have htail : pattern.tail.length ≤ pattern.length := by simp
        obtain ⟨last, corrupted, hrest, hlast⟩ :=
          ih pattern.tail (by omega) (by omega) (hintact rfl)
        have hcount : blocks data s + 2 - (n + 1) + corrupted + 1 = blocks data s + 2 - n + corrupted := by omega
        have hrun := lockstep_succ hopen hround hrest
        rw [hcount] at hrun
        exact ⟨last, corrupted, hrun, hlast⟩
      | true =>
        obtain ⟨hsame, hentry⟩ := hrepeat rfl
        have htail : pattern.tail.length + 1 = pattern.length := by
          cases pattern with
          | nil => cases hentry
          | cons entry rest => rfl
        obtain ⟨last, corrupted, hrest, hlast⟩ := ih pattern.tail hn (by omega) hsame
        exact ⟨last, corrupted + 1, lockstep_succ hopen hround hrest, hlast⟩

/-- After the last message both sides are done and the receiver has the data. -/
theorem Settled.completed (h : Settled sha256 data s metadata factory (blocks data s + 2) p) :
    p.left.1 = .done ∧ p.right.1 = .done ∧ ∃ w, p.right.2.writer = some w ∧ w.writer.data = data := by
  cases h with
  | pending i h hn =>
    have hblock := h.block
    omega
  | inStep k h hk =>
    refine ⟨?_, ?_, ?_⟩
    · rw [h.senderPhase, senderPhaseAt_eq_done_iff, hk.collected]
    · rw [h.receiverPhase, receiverPhaseAt_eq_done_iff, hk.answered]
    · have hfields := h.receiverFields
      rw [hk.delivered] at hfields
      obtain ⟨w, hw, hcopies, hwritten⟩ := hfields.writer (by omega)
      have hall : min (blocks data s + 2 - 1) (blocks data s) = blocks data s := by omega
      rw [hall] at hwritten
      refine ⟨w, hw, hcopies.data_eq ?_⟩
      rw [hcopies.isDone_iff, hwritten, forall_mem_marks le_rfl]

end Round

/-- In lockstep every pattern of damaged blocks is repaired, at the cost of one message for each,
and the data arrives. -/
theorem lockstep_delivers (sha256 : Bytes → Bytes) (data : Bytes) (hdata : data ≠ []) (s : Size)
    (hfits : s.Fits data.length) (metadata : Metadata) (factory : WriterFactory)
    (hfresh : Fresh factory) (pattern : List (Option Bytes)) :
    ∃ sender receiver,
      newSender sha256 (some metadata) (newBlockReader (.ofBytes data) data.length s) = .ok sender ∧
      newReceiver sha256 factory = .ok receiver ∧
      ∀ fuel, pattern.length + (newBlockReader (.ofBytes data) data.length s).blockCount + 4 ≤ fuel →
        ∃ p corrupted, lockstep sha256 Peer.side Peer.side fuel pattern ⟨sender, receiver, [], []⟩ =
            some (p, (newBlockReader (.ofBytes data) data.length s).blockCount + 2 + corrupted, corrupted) ∧
          p.left.client.isDone = true ∧ p.right.client.isDone = true ∧
          ∃ w, p.right.world.writer = some w ∧ w.writer.data = data := by
  have hblocks : 0 < blocks data s := s.blockCount_pos _ (List.length_pos_of_ne_nil hdata)
  obtain ⟨client, client', hsender, hreceiver, ha, hb⟩ := transferStart_embeds sha256 (some metadata) factory data s
  refine ⟨_, _, hsender, hreceiver, ?_⟩
  intro fuel hfuel
  change pattern.length + blocks data s + 4 ≤ fuel at hfuel
  have hstart : Settled sha256 data s metadata factory 0 (transferStart (some metadata) factory data s) :=
    .inStep _ inStep_start ⟨rfl, rfl, rfl, rfl⟩
  obtain ⟨p, corrupted, hrun, hlast⟩ :=
    hstart.lockstep hfits hblocks hfresh fuel pattern (Nat.zero_le _) (by omega)
  obtain ⟨hleft, hright, hstore⟩ := hlast.completed
  have hmapped := lockstep_map sha256 ha hb fuel pattern (transferStart (some metadata) factory data s)
  rw [hrun] at hmapped
  exact ⟨_, corrupted, hmapped, (ha.isDone p.left).trans (decide_eq_true hleft),
    (hb.isDone p.right).trans (decide_eq_true hright), hstore⟩

/-- Two blocks of one byte, the second damaged on its first two deliveries: six messages. -/
theorem lockstep_delivers_two_bytes :
    ∃ sender receiver,
      newSender id (some ⟨[100]⟩) (newBlockReader (.ofBytes [1, 2]) 2 ⟨1, by decide⟩) = .ok sender ∧
      newReceiver id (fun _ size => .ok (.make size)) = .ok receiver ∧
      ∃ p, lockstep id Peer.side Peer.side 10 [none, none, some [7], some [8]] ⟨sender, receiver, [], []⟩ =
          some (p, 6, 2) ∧
        ∃ w, p.right.world.writer = some w ∧ w.writer.data = [1, 2] := by
  obtain ⟨sender, receiver, hsender, hreceiver, hall⟩ :=
    lockstep_delivers id [1, 2] (by decide) ⟨1, by decide⟩ ⟨by decide, by decide⟩ ⟨[100]⟩
      (fun _ size => .ok (.make size))
      (fun _ size => ⟨.make size, rfl, by simp [Store.make, Store.ofBytes], rfl⟩) [none, none, some [7], some [8]]
  change newSender id (some ⟨[100]⟩) (newBlockReader (.ofBytes [1, 2]) 2 ⟨1, by decide⟩) = .ok sender at hsender
  obtain ⟨p, corrupted, hrun, -, -, hstore⟩ := hall 10 (by decide)
  have hcount : (do
      let sender ← newSender id (some ⟨[100]⟩) (newBlockReader (.ofBytes [1, 2]) 2 ⟨1, by decide⟩)
      let receiver ← newReceiver id (fun _ size => .ok (.make size))
      return (lockstep id Peer.side Peer.side 10 [none, none, some [7], some [8]] ⟨sender, receiver, [], []⟩).map
        fun result => result.2) = (.ok (some (6, 2)) : Go _) := rfl
  simp only [hsender, hreceiver, Call.ok_bind, Call.pure_eq_ok, hrun, Option.map_some,
    Except.ok.injEq, Option.some.injEq] at hcount
  rw [hcount] at hrun
  exact ⟨sender, receiver, hsender, hreceiver, p, hrun, hstore⟩

end ProjektCore.Transfer
