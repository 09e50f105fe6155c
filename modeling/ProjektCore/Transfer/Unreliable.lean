import ProjektCore.Protocol.Network
import ProjektCore.Transfer.Agreement
import ProjektCore.Transfer.ReceiverRun
import ProjektCore.Transfer.SenderCalls

/-!
# Transfers over an unreliable network

A sender and a receiver are joined by a network that may lose, repeat and reorder messages and alter
blocks; an altered block has a wrong checksum. Whatever the network does, a receiver that is done
has the data and the header of the sender, and a sender that is done has a receiver that is done.
The invariant behind the agreement only says which messages are on their way, not how often and in
which order, so it is kept by every disturbance.

The answers of the receiver name blocks that exist, since it repeats the numbers of blocks that it
was sent.
-/

namespace ProjektCore.Transfer

open Foundation Protocol

/-- A step of the network, or the alteration of a queued block. -/
inductive UnreliableEvent where
  | network (event : NetworkEvent Message)
  | alter (position : ℕ) (block : Block)
deriving Repr, DecidableEq

/-- A step of a transfer over an unreliable network, in which no call fails. -/
def unreliableStep {S T : Type} (sha256 : Bytes → Bytes) (a : Side S Message) (b : Side T Message)
    (p : Pair S T Message) : UnreliableEvent → Option (Pair S T Message)
  | .network event => p.networkStep a b event
  | .alter position block => transferStep sha256 a b p (.alter position block)

/-- The steps of a transfer between clients are those between the machines they implement. -/
theorem unreliableStep_map (sha256 : Bytes → Bytes) {S T S' T' : Type} {a : Side S Message}
    {b : Side T Message} {a' : Side S' Message} {b' : Side T' Message} {f : S → S'} {g : T → T'}
    (ha : a.Embeds a' f) (hb : b.Embeds b' g) (p : Pair S T Message) (event : UnreliableEvent) :
    unreliableStep sha256 a' b' (p.map f g) event = (unreliableStep sha256 a b p event).map (Pair.map f g) := by
  cases event with
  | network event => exact Pair.networkStep_map ha hb p event
  | alter position block => exact transferStep_map sha256 ha hb p (.alter position block)

section Invariant

variable (data : Bytes) (s : Size) (metadata : Option Metadata)

/-- The header of the sender. -/
def headerOf : Header := ⟨metadata, data.length, s.bytes⟩

/-- A header of the sender, or a block with the number of one of its blocks. -/
def Genuine : Message → Prop
  | .header header => header = headerOf data s metadata
  | .block (some b) => b.index < s.blockCount data.length
  | _ => True

/-- The messages that a sender writes. -/
def Original (sha256 : Bytes → Bytes) : Message → Prop
  | .header header => header = headerOf data s metadata
  | .block block => ∃ i < s.blockCount data.length, block = some (blockAt sha256 data s i)
  | .dataSent | .abort => True
  | _ => False

/-- The answers that are due name blocks of the data. -/
structure Answerable (fields : ReceiverFields) : Prop where
  last : ∀ b ∈ fields.lastBlock, b.index < s.blockCount data.length
  redo : ∀ indices ∈ fields.redoBlocks, ∀ i ∈ indices, i < s.blockCount data.length

/-- What holds in every state of a transfer over an unreliable network. -/
structure Reliable (sha256 : Bytes → Bytes) (factory : WriterFactory) (p : MachinePair) : Prop where
  agrees : Agrees sha256 data s factory p
  announced : p.left.2.metadata = metadata
  genuine : ∀ m ∈ p.toRight, Genuine data s metadata m
  header : p.right.2.writer.isSome = true → p.right.2.header = some (headerOf data s metadata)
  answerable : Answerable data s p.right.2

end Invariant

variable {sha256 : Bytes → Bytes} {data : Bytes} {s : Size} {metadata : Option Metadata} {factory : WriterFactory}

section Sender

variable {phase phase' : SenderPhase} {fields fields' : SenderFields}

/-- What the sender writes is one of its messages, and its metadata stays. -/
theorem SenderPhase.write_original (hfits : s.Fits data.length)
    (hreader : Reader.Over data s fields.reader) (hmetadata : fields.metadata = metadata)
    {message : Any Message} (h : phase.write sha256 fields = .ok (phase', fields', message, none)) :
    fields'.metadata = metadata ∧ ∃ m, message = some m ∧ Original data s metadata sha256 m := by
  have hblock {more last : SenderPhase}
      (hw : phase.writeBlock sha256 fields more last = .ok (phase', fields', message, none)) :
      ∃ m, message = some m ∧ Original data s metadata sha256 m := by
    obtain ⟨block, hnext, rfl, -⟩ := SenderPhase.writeBlock_eq_ok hw
    exact ⟨.block block, rfl, (hreader.nextBlock hfits (SenderFields.nextBlock_eq_ok hnext)).2⟩
  cases SenderPhase.write_cases h with
  | header =>
    refine ⟨hmetadata, _, rfl, ?_⟩
    rw [Original, SenderFields.createHeader, headerOf, hmetadata, hreader.totalSize,
      hreader.blockSize]
  | block hsends =>
    refine ⟨hmetadata, ?_⟩
    cases phase with
    | inPrologue => exact hblock h
    | inProgress => exact hblock h
    | _ => cases hsends
  | dataSent | abort => exact ⟨hmetadata, _, rfl, trivial⟩

/-- A message of the sender is genuine. -/
theorem Original.genuine {m : Message} (h : Original data s metadata sha256 m) :
    Genuine data s metadata m := by
  cases m with
  | header header => exact h
  | block block =>
    obtain ⟨i, hi, rfl⟩ := h
    exact hi
  | _ => trivial

/-- Reading keeps the metadata of the sender. -/
theorem SenderPhase.read_metadata {message : Message}
    (h : phase.read fields message = .ok (phase', fields', none)) :
    fields'.metadata = fields.metadata := by
  cases SenderPhase.read_cases h with
  | _ => rfl

end Sender

section Receiver

variable {phase phase' : ReceiverPhase} {fields fields' : ReceiverFields}

/-- Reading genuine messages keeps the header of the sender, and the answers name its blocks. -/
theorem ReceiverPhase.read_genuine {message : Message} (hmessage : Genuine data s metadata message)
    (hheader : fields.writer.isSome = true → fields.header = some (headerOf data s metadata))
    (hanswerable : Answerable data s fields)
    (h : phase.read sha256 fields message = .ok (phase', fields', none)) :
    (fields'.writer.isSome = true → fields'.header = some (headerOf data s metadata)) ∧
      Answerable data s fields' := by
  cases (ReceiverPhase.read_cases h).accept rfl with
  | header => exact ⟨fun _ => congrArg some hmessage, hanswerable.last, hanswerable.redo⟩
  | @stored _ b w _ _ _ hwriter _ hadvance =>
    refine ⟨fun _ => hheader (by rw [hwriter]; rfl), ?_, ?_⟩
    · intro b' hb'
      obtain rfl := Option.some.inj hb'
      exact hmessage
    · cases hadvance with
      | awaited => exact hanswerable.redo
      | ahead hahead =>
        intro indices hindices i hi
        obtain rfl := Option.some.inj hindices
        rw [List.mem_range'_1] at hi
        have hb : b.index < s.blockCount data.length := hmessage
        omega
  | @again _ b w _ hwriter =>
    refine ⟨fun _ => hheader (by rw [hwriter]; rfl), hanswerable.last, ?_⟩
    intro indices hindices i hi
    obtain rfl := Option.some.inj hindices
    obtain rfl := List.mem_singleton.mp hi
    exact hmessage
  | dataSent => exact ⟨hheader, hanswerable⟩

/-- The messages of a receiver, which name blocks of the data. -/
def Answers (data : Bytes) (s : Size) : Message → Prop
  | .blockReceived i | .redoBlock i => i < s.blockCount data.length
  | .acknowledge | .dataReceived | .abort => True
  | _ => False

/-- What a receiver writes names blocks of the data, and what it goes on to answer does, too. -/
theorem ReceiverPhase.write_answers (hanswerable : Answerable data s fields) {message : Any Message}
    (h : phase.write fields = .ok (phase', fields', message, none)) :
    fields'.header = fields.header ∧ Answerable data s fields' ∧ ∃ m, message = some m ∧ Answers data s m := by
  cases ReceiverPhase.write_cases h with
  | acknowledge | dataReceived | abort => exact ⟨rfl, hanswerable, _, rfl, trivial⟩
  | received hlast =>
    refine ⟨rfl, ⟨by simp, hanswerable.redo⟩, _, rfl, hanswerable.last _ hlast⟩
  | @redo _ index rest _ hlast hredo =>
    have hall := hanswerable.redo _ hredo
    refine ⟨rfl, ⟨hanswerable.last, ?_⟩, _, rfl, hall index List.mem_cons_self⟩
    intro indices hindices i hi
    simp only at hindices
    split at hindices
    · cases hindices
    · obtain rfl := Option.some.inj hindices
      exact hall i (List.mem_cons_of_mem index hi)

end Receiver

namespace Reliable

/-- The invariant holds at the start. -/
theorem start :
    Reliable data s metadata sha256 factory (transferStart metadata factory data s) where
  agrees := agrees_start
  announced := rfl
  genuine := by simp [transferStart]
  header := by simp [transferStart, ReceiverFields.new]
  answerable := ⟨by simp [transferStart, ReceiverFields.new], by simp [transferStart, ReceiverFields.new]⟩

variable {p q : MachinePair}

/-- Every call keeps the invariant. -/
theorem turn (hfits : s.Fits data.length) (hfresh : Fresh factory)
    (hp : Reliable data s metadata sha256 factory p) {turn : Turn}
    (h : p.step (senderMachine sha256).side (receiverMachine sha256).side turn = some q) :
    Reliable data s metadata sha256 factory q := by
  have hagrees := @Agrees.step _ _ _ _ hfits hfresh _ _ (.turn turn) hp.agrees h
  cases turn with
  | leftWrites =>
    obtain ⟨left, message, hwrite, rfl⟩ := Pair.step_leftWrites.mp h
    obtain ⟨hmetadata, m, rfl, horiginal⟩ :=
      SenderPhase.write_original hfits hp.agrees.reader hp.announced (Machine.side_write_eq_ok.mp hwrite)
    refine ⟨hagrees, hmetadata, ?_, hp.header, hp.answerable⟩
    intro m' hm'
    rcases List.mem_append.mp hm' with hm' | hm'
    · exact hp.genuine m' hm'
    · obtain rfl := List.mem_singleton.mp hm'
      exact horiginal.genuine
  | leftReads =>
    obtain ⟨message, rest, left, -, hread, rfl⟩ := Pair.step_leftReads.mp h
    have hmetadata := SenderPhase.read_metadata (Machine.side_read_eq_ok.mp hread)
    exact ⟨hagrees, hmetadata.trans hp.announced, hp.genuine, hp.header, hp.answerable⟩
  | rightWrites =>
    obtain ⟨right, message, hwrite, rfl⟩ := Pair.step_rightWrites.mp h
    have hcall := Machine.side_write_eq_ok.mp hwrite
    obtain ⟨hheader, hanswerable, -⟩ := ReceiverPhase.write_answers hp.answerable hcall
    have hwriter := (ReceiverPhase.write_agrees hcall).1
    refine ⟨hagrees, hp.announced, hp.genuine, ?_, hanswerable⟩
    intro hsome
    exact hheader.trans (hp.header (hwriter ▸ hsome))
  | rightReads =>
    obtain ⟨message, rest, right, hqueue, hread, rfl⟩ := Pair.step_rightReads.mp h
    have hgenuine := hp.genuine
    rw [hqueue] at hgenuine
    obtain ⟨hheader, hanswerable⟩ := ReceiverPhase.read_genuine (hgenuine message List.mem_cons_self) hp.header
      hp.answerable (Machine.side_read_eq_ok.mp hread)
    exact ⟨hagrees, hp.announced, fun m hm => hgenuine m (List.mem_cons_of_mem _ hm), hheader, hanswerable⟩

/-- Every step over an unreliable network keeps the invariant. -/
theorem step (hfits : s.Fits data.length) (hfresh : Fresh factory)
    (hp : Reliable data s metadata sha256 factory p) {event : UnreliableEvent}
    (h : unreliableStep sha256 (senderMachine sha256).side (receiverMachine sha256).side p event = some q) :
    Reliable data s metadata sha256 factory q := by
  cases event with
  | network event =>
    cases event with
    | turn turn => exact hp.turn hfits hfresh h
    | disturb toRight toLeft =>
      obtain ⟨hright, hleft, rfl⟩ :=
        (Pair.networkStep_disturb (a := (senderMachine sha256).side) (b := (receiverMachine sha256).side)).mp h
      refine ⟨?_, hp.announced, fun m hm => hp.genuine m (hright hm), hp.header, hp.answerable⟩
      exact { hp.agrees with
        sent := fun m hm => hp.agrees.sent m (hright hm)
        receipt := fun hm => hp.agrees.receipt (hleft hm) }
  | alter position block =>
    have hagrees := @Agrees.step _ _ _ _ hfits hfresh _ _ (.alter position block) hp.agrees h
    obtain ⟨queue, hqueue, rfl⟩ := Option.map_eq_some_iff.mp h
    refine ⟨hagrees, hp.announced, ?_, hp.header, hp.answerable⟩
    intro m hm
    obtain ⟨original, horiginal, hindex, -, rfl⟩ := alterBlock_eq_some.mp hqueue
    rcases List.mem_or_eq_of_mem_set hm with hm | rfl
    · exact hp.genuine m hm
    · have horiginal := hp.genuine _ (List.mem_of_getElem? horiginal)
      rw [Genuine, hindex]
      exact horiginal

/-- A receiver that is done has the data and the header. -/
theorem received (hp : Reliable data s metadata sha256 factory p) (hdone : p.right.1 = .done) :
    (∃ w, p.right.2.writer = some w ∧ w.writer.data = data) ∧ p.right.2.header = some (headerOf data s metadata) := by
  obtain ⟨w, hw, hwdone⟩ := hp.agrees.written (by rw [hdone]; rfl)
  exact ⟨⟨w, hw, (hp.agrees.writer w hw).data_eq hwdone⟩, hp.header (by rw [hw]; rfl)⟩

end Reliable

/-- The invariant holds in every state that two clients of the machines reach over an unreliable
network. -/
theorem reliable_of_reached (hfits : s.Fits data.length) (hfresh : Fresh factory) {S T : Type}
    {a : Side S Message} {b : Side T Message} {f : SenderPhase × SenderFields → S}
    {g : ReceiverPhase × ReceiverFields → T} (ha : (senderMachine sha256).side.Embeds a f)
    (hb : (receiverMachine sha256).side.Embeds b g) {q : Pair S T Message}
    (h : Reached (unreliableStep sha256 a b) anyStep ((transferStart metadata factory data s).map f g) q) :
    ∃ p : MachinePair, q = p.map f g ∧ Reliable data s metadata sha256 factory p := by
  obtain ⟨p, hmap, hp⟩ := Reached.of_map _ (unreliableStep_map sha256 ha hb) (fun _ _ _ => trivial)
    (transferStart metadata factory data s) h
  refine ⟨p, hmap, ?_⟩
  exact hp.invariant (Reliable data s metadata sha256 factory) .start
    fun _ _ _ hp _ hstep => hp.step hfits hfresh hstep

/-- As long as no block is altered, the messages on their way are those of the two sides. -/
structure Written (data : Bytes) (s : Size) (metadata : Option Metadata) (sha256 : Bytes → Bytes)
    (p : MachinePair) : Prop where
  toRight : ∀ m ∈ p.toRight, Original data s metadata sha256 m
  toLeft : ∀ m ∈ p.toLeft, Answers data s m

/-- Every step of the network leaves only messages of the two sides. -/
theorem Written.step (hfits : s.Fits data.length) {p q : MachinePair}
    (hp : Reliable data s metadata sha256 factory p) (hw : Written data s metadata sha256 p)
    {event : NetworkEvent Message}
    (h : p.networkStep (senderMachine sha256).side (receiverMachine sha256).side event = some q) :
    Written data s metadata sha256 q := by
  cases event with
  | disturb toRight toLeft =>
    obtain ⟨hright, hleft, rfl⟩ :=
      (Pair.networkStep_disturb (a := (senderMachine sha256).side) (b := (receiverMachine sha256).side)).mp h
    exact ⟨fun m hm => hw.toRight m (hright hm), fun m hm => hw.toLeft m (hleft hm)⟩
  | turn turn =>
    cases turn with
    | leftWrites =>
      obtain ⟨left, message, hwrite, rfl⟩ := Pair.step_leftWrites.mp h
      obtain ⟨-, m, rfl, horiginal⟩ :=
        SenderPhase.write_original hfits hp.agrees.reader hp.announced (Machine.side_write_eq_ok.mp hwrite)
      refine ⟨?_, hw.toLeft⟩
      intro m' hm'
      rcases List.mem_append.mp hm' with hm' | hm'
      · exact hw.toRight m' hm'
      · exact List.mem_singleton.mp hm' ▸ horiginal
    | leftReads =>
      obtain ⟨message, rest, left, hqueue, -, rfl⟩ := Pair.step_leftReads.mp h
      exact ⟨hw.toRight, fun m hm => hw.toLeft m (hqueue ▸ List.mem_cons_of_mem _ hm)⟩
    | rightWrites =>
      obtain ⟨right, message, hwrite, rfl⟩ := Pair.step_rightWrites.mp h
      obtain ⟨-, -, m, rfl, hanswers⟩ :=
        ReceiverPhase.write_answers hp.answerable (Machine.side_write_eq_ok.mp hwrite)
      refine ⟨hw.toRight, ?_⟩
      intro m' hm'
      rcases List.mem_append.mp hm' with hm' | hm'
      · exact hw.toLeft m' hm'
      · exact List.mem_singleton.mp hm' ▸ hanswers
    | rightReads =>
      obtain ⟨message, rest, right, hqueue, -, rfl⟩ := Pair.step_rightReads.mp h
      exact ⟨fun m hm => hw.toRight m (hqueue ▸ List.mem_cons_of_mem _ hm), hw.toLeft⟩

/-- Both hold in every state that the machines reach while no block is altered. -/
theorem written_of_network (hfits : s.Fits data.length) (hfresh : Fresh factory) {p : MachinePair}
    (h : Reached (Pair.networkStep (senderMachine sha256).side (receiverMachine sha256).side) anyStep
      (transferStart metadata factory data s) p) :
    Reliable data s metadata sha256 factory p ∧ Written data s metadata sha256 p := by
  have hstart : Written data s metadata sha256 (transferStart metadata factory data s) :=
    ⟨by simp [transferStart], by simp [transferStart]⟩
  refine h.invariant
    (fun p => Reliable data s metadata sha256 factory p ∧ Written data s metadata sha256 p) ⟨.start, hstart⟩ ?_
  rintro p event q ⟨hp, hw⟩ - hstep
  exact ⟨@Reliable.step _ _ _ _ _ _ _ hfits hfresh hp (.network event) hstep, hw.step hfits hp hstep⟩

/-- Both hold in every state that two clients of the machines reach while no block is altered. -/
theorem written_of_reached (hfits : s.Fits data.length) (hfresh : Fresh factory) {S T : Type}
    {a : Side S Message} {b : Side T Message} {f : SenderPhase × SenderFields → S}
    {g : ReceiverPhase × ReceiverFields → T} (ha : (senderMachine sha256).side.Embeds a f)
    (hb : (receiverMachine sha256).side.Embeds b g) {q : Pair S T Message}
    (h : Reached (Pair.networkStep a b) anyStep ((transferStart metadata factory data s).map f g) q) :
    ∃ p : MachinePair, q = p.map f g ∧ Reliable data s metadata sha256 factory p ∧
      Written data s metadata sha256 p := by
  obtain ⟨p, hmap, hp⟩ := Reached.of_map _ (Pair.networkStep_map ha hb) (fun _ _ _ => trivial)
    (transferStart metadata factory data s) h
  exact ⟨p, hmap, written_of_network hfits hfresh hp⟩

/-- Transfers over a network that loses, repeats and reorders messages and alters blocks. In every
run in which no call fails, a receiver that is done has the data of the sender and its header, and a
sender that is done has a receiver that is done. -/
theorem unreliable_transfer (sha256 : Bytes → Bytes) (data : Bytes) (s : Size)
    (hfits : s.Fits data.length) (metadata : Option Metadata) (factory : WriterFactory)
    (hfresh : Fresh factory) :
    ∃ sender receiver,
      newSender sha256 metadata (newBlockReader (.ofBytes data) data.length s) = .ok sender ∧
      newReceiver sha256 factory = .ok receiver ∧
      ∀ p, Reached (unreliableStep sha256 Peer.side Peer.side) anyStep ⟨sender, receiver, [], []⟩ p →
        (p.right.client.state = done → (∃ w, p.right.world.writer = some w ∧ w.writer.data = data) ∧
          p.right.world.header = some ⟨metadata, data.length, s.bytes⟩) ∧
        (p.left.client.state = done → p.right.client.state = done) := by
  obtain ⟨client, client', hsender, hreceiver, ha, hb⟩ := transferStart_embeds sha256 metadata factory data s
  refine ⟨_, _, hsender, hreceiver, ?_⟩
  intro q hq
  obtain ⟨p, rfl, hreliable⟩ := reliable_of_reached hfits hfresh ha hb hq
  have hright : p.right.1.state = done ↔ p.right.1 = .done := by cases p.right.1 <;> decide
  have hleft : p.left.1.state = done ↔ p.left.1 = .done := by cases p.left.1 <;> decide
  exact ⟨fun hdone => hreliable.received (hright.mp hdone),
    fun hdone => hright.mpr (hreliable.agrees.senderDone (hleft.mp hdone))⟩

/-- Three bytes in blocks of two: the header is repeated and then lost, the first block is altered
once and sent again, and both sides finish. -/
theorem unreliable_transfer_three_bytes :
    ∃ sender receiver p,
      newSender id (some ⟨[]⟩) (newBlockReader (.ofBytes [1, 2, 3]) 3 ⟨2, by decide⟩) = .ok sender ∧
      newReceiver id (fun _ size => .ok (.make size)) = .ok receiver ∧
      Reached (unreliableStep id Peer.side Peer.side) anyStep ⟨sender, receiver, [], []⟩ p ∧
      p.left.client.state = done ∧ (∃ w, p.right.world.writer = some w ∧ w.writer.data = [1, 2, 3]) ∧
      p.right.world.header = some ⟨some ⟨[]⟩, 3, 2⟩ := by
  obtain ⟨sender, receiver, hsender, hreceiver, hall⟩ :=
    unreliable_transfer id [1, 2, 3] ⟨2, by decide⟩ ⟨by decide, by decide⟩ (some ⟨[]⟩)
      (fun _ size => .ok (.make size))
      (fun _ size => ⟨.make size, rfl, by simp [Store.make, Store.ofBytes], rfl⟩)
  change newSender id (some ⟨[]⟩) (newBlockReader (.ofBytes [1, 2, 3]) 3 ⟨2, by decide⟩) = .ok sender at hsender
  have hrun : (do
      let sender ← newSender id (some ⟨[]⟩) (newBlockReader (.ofBytes [1, 2, 3]) 3 ⟨2, by decide⟩)
      let receiver ← newReceiver id (fun _ size => .ok (.make size))
      return (execute (unreliableStep id Peer.side Peer.side) anyStep
        [.network (.turn .leftWrites),
          .network (.disturb [.header ⟨some ⟨[]⟩, 3, 2⟩, .header ⟨some ⟨[]⟩, 3, 2⟩] []), .network (.turn .rightReads),
          .network (.disturb [] []), .network (.turn .rightWrites), .network (.turn .leftWrites),
          .alter 0 ⟨0, [9, 9], []⟩, .network (.turn .leftReads), .network (.turn .rightReads),
          .network (.turn .rightWrites), .network (.turn .leftReads), .network (.turn .leftWrites),
          .network (.turn .rightReads), .network (.turn .rightWrites), .network (.turn .leftWrites),
          .network (.turn .leftWrites), .network (.turn .rightReads), .network (.turn .rightWrites),
          .network (.turn .rightReads), .network (.turn .rightWrites), .network (.turn .leftReads),
          .network (.turn .leftReads), .network (.turn .leftReads)]
        ⟨sender, receiver, [], []⟩).map fun p => (p.left.client.state, p.right.client.state)) =
      (.ok (some (done, done)) : Go _) := rfl
  simp only [hsender, hreceiver, Call.ok_bind, Call.pure_eq_ok, Except.ok.injEq,
    Option.map_eq_some_iff, Prod.mk.injEq] at hrun
  obtain ⟨p, hp, hleft, hright⟩ := hrun
  have hreached := reached_of_execute _ hp
  exact ⟨sender, receiver, p, hsender, hreceiver, hreached, hleft, (hall p hreached).1 hright⟩

end ProjektCore.Transfer
