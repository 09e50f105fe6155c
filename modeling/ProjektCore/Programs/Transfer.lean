import ProjektCore.Programs.Refinement
import ProjektCore.Transfer.Fits

/-!
# Sending and receiving a file

The programs that send and receive a file, once their connection is established: the sender opens a
channel for the transfer protocol and runs the loop of a `Sender` for the file on it, the receiver
accepts the channel and runs the loop of a `Receiver` that writes to a buffer. The messages are
encoded in the Protobuf wire format, decoded by any decoder that inverts it, and wrapped by the
channel.

Whatever the goroutines and the connection do, a receiver whose loop has returned without an error
has the file and its name, a sender whose loop has returned without an error has such a receiver,
and no message of a loop is refused by its channel.
-/

namespace ProjektCore.Programs

open Foundation Protocol Session Transfer

/-- The states of the two sides of a transfer: the initiator of the connection sends. -/
def TransferState : End → Type
  | .initiator => Sender
  | .responder => Receiver

/-- A message of the transfer protocol that can be encoded. -/
abbrev TransferMessage := {message : Transfer.Message // decide message.Encodable = true}

/-- The transfer protocol as the broker encodes and decodes. A message with values that its fields
cannot have is never decoded. -/
def transferCodec (decoder : Decoder) : Codec TransferMessage where
  rawTypeOf message :=
    match Transfer.rawTypeOf message.val with
    | .ok type => type
    | .error _ => 0
  marshal message := (channelProtocol decoder.protobuf).marshal message.val
  unmarshal type payload := do
    let message ← (channelProtocol decoder.protobuf).decode type payload
    if h : decide message.Encodable = true then .ok ⟨message, h⟩ else .error malformed
  unmarshal_marshal message payload h := by
    obtain ⟨message, hencodable⟩ := message
    have hmessage : message.Encodable := of_decide_eq_true hencodable
    obtain ⟨type, htype⟩ := hmessage.rawTypeOf
    have hdecode := channelProtocol_inverts (decoder.inverts hmessage) type payload htype h
    simp only [htype, hdecode, bind, Except.bind, hencodable, dite_true]

/-- The number of the transfer protocol. -/
def transferId : ℤ := 1

/-- The only protocol of the two programs. -/
def transferProtocols (decoder : Decoder) :
    Protocols TransferMessage := ⟨fun _ => transferCodec decoder, 65494⟩

/-- The size of the blocks of a file. -/
def blockSize : Size := ⟨2 ^ 15, by decide⟩

/-- The receiver writes to a buffer of the size of the data. -/
def bufferFactory : WriterFactory := fun _ size => .ok (.make size)

/-- The two programs with their sides of the transfer. -/
def transferSetup (decoder : Decoder) (sender : Sender) (receiver : Receiver) :
    Setup Transfer.Message TransferState where
  isEncodable message := decide message.Encodable
  protocols := transferProtocols decoder
  protocolId := transferId
  side
    | .initiator => (Peer.side : Side Sender Transfer.Message)
    | .responder => (Peer.side : Side Receiver Transfer.Message)
  start
    | .initiator => sender
    | .responder => receiver

/-- The two programs with the sides of new machines for a file. -/
def clientSetup (decoder : Decoder) (sha256 : Bytes → Bytes)
    (client : Client MessageType Transfer.Message SenderFields)
    (client' : Client MessageType Transfer.Message ReceiverFields) (filename data : Bytes) :
    Setup Transfer.Message TransferState :=
  let start := transferStart (some ⟨filename⟩) bufferFactory data blockSize
  transferSetup decoder ((senderMachine sha256).peer client start.left)
    ((receiverMachine sha256).peer client' start.right)

/-- A message that fits is wrapped by every channel. -/
theorem wraps_of_fits (decoder : Decoder) {message : Transfer.Message} (h : message.Fits)
    (handle : ChannelHandle) :
    ∃ hencodable, ∃ data,
      handle.wrapMessage (transferProtocols decoder) (⟨message, hencodable⟩ : TransferMessage) = .ok data := by
  refine ⟨decide_eq_true h.1, ?_⟩
  have hmarshal : ((transferProtocols decoder).codec handle.protocolId).marshal ⟨message, decide_eq_true h.1⟩ =
      .ok message.marshal := h.1.protoMarshal
  have hsize : ¬ message.marshal.length > (transferProtocols decoder).payloadMaxSize := not_lt.mpr h.2
  simp only [ChannelHandle.wrapMessage, hmarshal, bind, Except.bind, if_neg hsize]
  exact ⟨_, rfl⟩

/-- A receiver has a file and its name. -/
def HasFile (data : Bytes) (filename : Bytes) (receiver : Receiver) : Prop :=
  (∃ w, receiver.world.writer = some w ∧ w.writer.data = data) ∧
    receiver.world.header = some ⟨some ⟨filename⟩, data.length, blockSize.bytes⟩

/-- What a side of a machine that only returns messages passes on is a message. -/
theorem isSome_of_sending {S S' : Type} {a : Side S Transfer.Message} {b : Side S' Transfer.Message}
    {f : S → S'} (hembeds : a.Embeds b f)
    (hwrites : ∀ side side' message, a.write side = .ok (side', message, none) → ∃ m, message = some m)
    {start : S} {l : Loop S' Transfer.Message}
    (h : Reached (Loop.step b) anyStep (.new (f start)) l) {message : Any Transfer.Message}
    (hsending : l.phase = .sending message) : ∃ m, message = some m := by
  obtain ⟨r, rfl, hr⟩ := Loop.reached_of_map hembeds (Loop.new start) h
  have hholds := phaseHolds_of_reached hr
  have hphase : r.phase = .sending message := hsending
  unfold PhaseHolds at hholds
  rw [hphase] at hholds
  obtain ⟨side, hwrite⟩ := hholds
  exact hwrites _ _ _ hwrite

/-- A sender only returns messages. -/
theorem sender_writes (sha256 : Bytes → Bytes) (s s' : SenderPhase × SenderFields)
    (message : Any Transfer.Message)
    (h : (senderMachine sha256).side.write s = .ok (s', message, none)) :
    ∃ m, message = some m := by
  obtain ⟨phase, fields⟩ := s
  obtain ⟨phase', fields'⟩ := s'
  cases SenderPhase.write_cases (Machine.side_write_eq_ok.mp h) with
  | header | block | dataSent | abort => exact ⟨_, rfl⟩

/-- A receiver only returns messages. -/
theorem receiver_writes (sha256 : Bytes → Bytes) (s s' : ReceiverPhase × ReceiverFields)
    (message : Any Transfer.Message)
    (h : (receiverMachine sha256).side.write s = .ok (s', message, none)) :
    ∃ m, message = some m := by
  obtain ⟨phase, fields⟩ := s
  obtain ⟨phase', fields'⟩ := s'
  cases ReceiverPhase.write_cases (Machine.side_write_eq_ok.mp h) with
  | acknowledge | dataReceived | abort | received | redo => exact ⟨_, rfl⟩

section Run

variable {decoder : Decoder} {sha256 : Bytes → Bytes} {data : Bytes} {filename : Bytes} {sender : Sender}
  {receiver : Receiver}
  {client : Client MessageType Transfer.Message SenderFields}
  {client' : Client MessageType Transfer.Message ReceiverFields}
  (ha : (senderMachine sha256).side.Embeds Peer.side ((senderMachine sha256).peer client))
  (hb : (receiverMachine sha256).side.Embeds Peer.side ((receiverMachine sha256).peer client'))
  {p : Stack (transferSetup decoder sender receiver)} {m : MachinePair} (hsound : p.Sound)
  (hrefines : p.Refines (m.map ((senderMachine sha256).peer client) ((receiverMachine sha256).peer client')))

include ha hsound hrefines in
/-- The sender is done if its loop has returned without an error. -/
theorem sender_done {l : Loop Sender Transfer.Message} (hl : p.loops .initiator = some l)
    (hreturned : l.phase = .returned none) : m.left.1 = .done := by
  have hside : (senderMachine sha256).peer client m.left = l.side :=
    hrefines.left.eq_side hl (by rw [hreturned]; rfl)
  have hholds := phaseHolds_of_reached (hsound.loop .initiator l hl)
  unfold PhaseHolds at hholds
  rw [hreturned] at hholds
  have hdone : Peer.side.isDone ((senderMachine sha256).peer client m.left) = true := hside ▸ hholds
  rw [ha.isDone] at hdone
  exact of_decide_eq_true hdone

include hb hsound hrefines in
/-- The receiver is done if its loop has returned without an error. -/
theorem receiver_done {l : Loop Receiver Transfer.Message} (hl : p.loops .responder = some l)
    (hreturned : l.phase = .returned none) :
    m.right.1 = .done ∧ (receiverMachine sha256).peer client' m.right = l.side := by
  have hside : (receiverMachine sha256).peer client' m.right = l.side :=
    hrefines.right.eq_side hl (by rw [hreturned]; rfl)
  have hholds := phaseHolds_of_reached (hsound.loop .responder l hl)
  unfold PhaseHolds at hholds
  rw [hreturned] at hholds
  have hdone : Peer.side.isDone ((receiverMachine sha256).peer client' m.right) = true := hside ▸ hholds
  rw [hb.isDone] at hdone
  exact ⟨of_decide_eq_true hdone, hside⟩

include hb hrefines in
/-- A receiver that is done is the side of a loop. -/
theorem loop_of_done (hstart : Peer.side.isDone receiver = false) (hdone : m.right.1 = .done) :
    ∃ l : Loop Receiver Transfer.Message, p.loops .responder = some l ∧
      (receiverMachine sha256).peer client' m.right = l.side := by
  have hisDone : Peer.side.isDone ((receiverMachine sha256).peer client' m.right) = true := by
    rw [hb.isDone]
    exact decide_eq_true hdone
  have hruns : p.Runs .responder ((receiverMachine sha256).peer client' m.right) := hrefines.right
  cases hl : p.loops .responder with
  | none =>
    unfold Stack.Runs at hruns
    rw [hl] at hruns
    rw [hruns] at hisDone
    exact absurd (hisDone.symm.trans hstart) (by decide)
  | some l =>
    unfold Stack.Runs at hruns
    rw [hl] at hruns
    rcases hruns with hside | ⟨-, hopen⟩
    · exact ⟨l, rfl, hside⟩
    · exact absurd (hisDone.symm.trans hopen) (by decide)

/-- What a loop passes on was written by its side. -/
theorem wrote_of_sending {c : Setup Transfer.Message TransferState} {p : Stack c} (hsound : p.Sound)
    {x : End} {l : Loop (TransferState x) Transfer.Message} (hl : p.loops x = some l)
    {message : Transfer.Message} (hsending : l.phase = .sending (some message)) :
    message ∈ p.wrote x := by
  rw [Stack.wrote_eq hl, (ordered_of_reached (hsound.loop x l hl)).written, hsending]
  exact List.mem_append_right _ List.mem_cons_self

end Run

/-- Sending and receiving a file whose name is a text that fits. In every state that the two
programs reach, with any order of steps of their goroutines and any failures of the connection: a
receiver whose loop has returned without an error has the file and its name; if the loop of the
sender has returned without an error, there is such a receiver; and the channel of a loop that
passes on a message wraps it without an error. -/
theorem programs_transfer (decoder : Decoder) (sha256 : Bytes → Bytes)
    (hsha256 : ∀ bytes, (sha256 bytes).length = 32) (data : Bytes) (hdata : data.length < 2 ^ 63)
    (filename : Bytes) (hname : Metadata.NameFits ⟨filename⟩) :
    ∃ sender receiver,
      newSender sha256 (some ⟨filename⟩) (newBlockReader (.ofBytes data) data.length blockSize) = .ok sender ∧
      newReceiver sha256 bufferFactory = .ok receiver ∧
      ∀ p, Reached Stack.step anyStep (.new : Stack (transferSetup decoder sender receiver)) p →
        (∀ l, p.loops .responder = some l → l.phase = .returned none → HasFile data filename l.side) ∧
        (∀ l, p.loops .initiator = some l → l.phase = .returned none →
          ∃ r, p.loops .responder = some r ∧ HasFile data filename r.side) ∧
        ∀ x l message, p.loops x = some l → l.phase = .sending message →
          ∃ m call wrapped, message = some m.val ∧ (p.link.sessions x).calls 0 = some call ∧
            call.handle.wrapMessage (transferProtocols decoder) m = .ok wrapped := by
  have hfits : blockSize.Fits data.length := ⟨hdata, by decide⟩
  have hfresh : Fresh bufferFactory := fun _ size => ⟨.make size, rfl, by simp [Store.make, Store.ofBytes], rfl⟩
  obtain ⟨client, client', hsender, hreceiver, ha, hb⟩ :=
    transferStart_embeds sha256 (some ⟨filename⟩) bufferFactory data blockSize
  refine ⟨_, _, hsender, hreceiver, ?_⟩
  intro p hp
  have hsound := Stack.sound_of_reached hp
  obtain ⟨n, hn, hrefines⟩ := refines_of_reached _ hp
  obtain ⟨m, rfl, hreliable, hwritten⟩ := written_of_reached hfits hfresh ha hb hn
  have hfile (hdone : m.right.1 = .done) : HasFile data filename ((receiverMachine sha256).peer client' m.right) :=
    hreliable.received hdone
  refine ⟨?_, ?_, ?_⟩
  · intro l hl hreturned
    obtain ⟨hdone, hside⟩ := receiver_done hb hsound hrefines hl hreturned
    exact hside ▸ hfile hdone
  · intro l hl hreturned
    have hdone := hreliable.agrees.senderDone (sender_done ha hsound hrefines hl hreturned)
    obtain ⟨r, hr, hside⟩ := loop_of_done hb hrefines (hb.isDone _) hdone
    exact ⟨r, hr, hside ▸ hfile hdone⟩
  · intro x l message hl hsending
    obtain ⟨call, hcall, -⟩ := hsound.call_of_loop hl
    obtain ⟨m', rfl, hm'⟩ : ∃ m', message = some m' ∧ m'.Fits := by
      cases x with
      | initiator =>
        obtain ⟨m', rfl⟩ := isSome_of_sending ha (sender_writes sha256) (hsound.loop .initiator l hl) hsending
        have hmem := hrefines.toRight ▸ wrote_of_sending hsound hl hsending
        exact ⟨m', rfl, (hwritten.toRight m' hmem).fits hsha256 hfits hname (by decide)⟩
      | responder =>
        obtain ⟨m', rfl⟩ := isSome_of_sending hb (receiver_writes sha256) (hsound.loop .responder l hl) hsending
        have hmem := hrefines.toLeft ▸ wrote_of_sending hsound hl hsending
        exact ⟨m', rfl, (hwritten.toLeft m' hmem).fits hfits⟩
    obtain ⟨hencodable, wrapped, hwrap⟩ := wraps_of_fits decoder hm' call.handle
    exact ⟨⟨m', hencodable⟩, call, wrapped, rfl, hcall, hwrap⟩

/-- A file of one byte is sent: header, block and end of the data are answered in turn. -/
def oneBlock {M : Type} {State : End → Type} (c : Setup M State) : List (StackEvent c) :=
  startedLoops c ++ exchanged c .initiator ++ exchanged c .responder ++ exchanged c .initiator ++
    exchanged c .responder ++ exchanged c .initiator ++ exchanged c .responder ++
    [.iterate .initiator .finish, .iterate .responder .finish]

/-- A file of one byte is sent and received. -/
theorem programs_transfer_one_byte :
    ∃ sender receiver,
      newSender (fun _ => List.replicate 32 0) (some ⟨[]⟩) (newBlockReader (.ofBytes [1]) 1 blockSize) = .ok sender ∧
      newReceiver (fun _ => List.replicate 32 0) bufferFactory = .ok receiver ∧
      ∃ (p : Stack (transferSetup parser sender receiver)) (l : Loop Sender Transfer.Message),
        Reached Stack.step anyStep .new p ∧ p.loops .initiator = some l ∧ l.phase = .returned none ∧
        ∃ r, p.loops .responder = some r ∧ HasFile [1] [] r.side := by
  obtain ⟨sender, receiver, hsender, hreceiver, hall⟩ :=
    programs_transfer parser (fun _ => List.replicate 32 0) (fun _ => List.length_replicate) [1] (by decide) []
      ⟨by decide, by decide⟩
  change newSender _ (some ⟨[]⟩) (newBlockReader (.ofBytes [1]) 1 blockSize) = .ok sender at hsender
  have hrun : (do
      let sender ← newSender (fun _ => List.replicate 32 0) (some ⟨[]⟩) (newBlockReader (.ofBytes [1]) 1 blockSize)
      let receiver ← newReceiver (fun _ => List.replicate 32 0) bufferFactory
      return (execute Stack.step anyStep (oneBlock (transferSetup parser sender receiver)) .new).map fun p =>
        ((p.loops .initiator).map Loop.phase)) = (.ok (some (some (.returned none))) : Go _) := rfl
  simp only [hsender, hreceiver, Call.ok_bind, Call.pure_eq_ok, Except.ok.injEq,
    Option.map_eq_some_iff] at hrun
  obtain ⟨p, hp, l, hl, hreturned⟩ := hrun
  have hreached := reached_of_execute _ hp
  exact ⟨sender, receiver, hsender, hreceiver, p, l, hreached, hl, hreturned, (hall p hreached).2.1 l hl hreturned⟩

end ProjektCore.Programs
