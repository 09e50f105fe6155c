import ProjektCore.Protocol.Loop
import ProjektCore.Transfer.Receiver
import ProjektCore.Transfer.SenderCalls

/-!
# The end of a transfer and the end of its loop

A transfer ends in one of two states without transitions: it is completed or aborted. The loop of a
client only ends by itself in the final state of its definition, which is that of a completed
transfer. A receiver is never aborted, since nothing leads to the state in which it would send that.
A sender is aborted by the message of its peer; its loop then goes on, waiting for a message that
the sender cannot read.
-/

namespace ProjektCore.Transfer

open Foundation Protocol

/-- Whether the transfer of a sender has been aborted. -/
def Sender.isAborted (s : Sender) : Bool := s.client.state = aborted

/-- Whether the transfer of a sender has been completed or aborted. -/
def Sender.isDone (s : Sender) : Bool := s.client.state = done || Sender.isAborted s

/-- Whether the transfer of a receiver has been aborted. -/
def Receiver.isAborted (s : Receiver) : Bool := s.client.state = aborted

/-- Whether the transfer of a receiver has been completed or aborted. -/
def Receiver.isDone (s : Receiver) : Bool := s.client.state = done || Receiver.isAborted s

section Sender

variable {sha256 : Bytes → Bytes} {phase phase' : SenderPhase} {fields fields' : SenderFields}

/-- Writing leads to an abort only from the state in which it is sent. -/
theorem SenderPhase.write_aborted {message : Any Message} {err : Option Err}
    (hsend : phase ≠ .sendAbort)
    (h : phase.write sha256 fields = .ok (phase', fields', message, err)) :
    phase' ≠ .sendAbort ∧ (phase' = .aborted ↔ phase = .aborted) := by
  cases SenderPhase.write_cases h with
  | header | dataSent => simp
  | block hsends =>
    cases phase with
    | inPrologue | inProgress =>
      split <;> simp [SenderPhase.afterLast]
    | _ => cases hsends
  | failed | nothing => exact ⟨hsend, Iff.rfl⟩
  | abort => exact absurd rfl hsend

/-- Reading leads to an abort exactly by the message that says so. -/
theorem SenderPhase.read_aborted {message : Message} {err : Option Err} (hsend : phase ≠ .sendAbort)
    (hdone : phase ≠ .done) (h : phase.read fields message = .ok (phase', fields', err)) :
    phase' ≠ .sendAbort ∧ (phase' = .aborted ↔ phase = .aborted ∨ message = .abort) := by
  cases message with
  | other => cases h
  | abort =>
    cases phase with
    | done => exact absurd rfl hdone
    | _ => cases h; simp
  | acknowledge => cases phase <;> cases h <;> simp_all
  | blockReceived index =>
    cases phase with
    | inProgress | transferred | needDataReceived =>
      obtain ⟨_, -, rfl, -⟩ := moveTo_returns h
      simp
    | _ => cases h; simp_all
  | redoBlock index =>
    cases phase with
    | inProgress | transferred | needDataReceived =>
      obtain ⟨_, -, rfl, -⟩ := moveTo_returns h
      simp
    | _ => cases h; simp_all
  | dataReceived =>
    cases phase with
    | needDataReceived =>
      obtain ⟨_, -, rfl, -⟩ := moveTo_returns h
      simp
    | _ => cases h; simp_all
  | header | block | dataSent => cases phase <;> cases h <;> simp_all

/-- Reading the message of an abort does not panic. -/
theorem SenderPhase.read_abort_returns (phase : SenderPhase) (fields : SenderFields) :
    ∃ result, phase.read fields .abort = .ok result := by
  cases phase <;> exact ⟨_, rfl⟩

/-- In every state of its loop, a sender is aborted exactly if it was given the message of an
abort. -/
theorem sender_aborted_iff {fields : SenderFields} {l : Loop (SenderPhase × SenderFields) Message}
    (h : Reached (Loop.step (senderMachine sha256).side) anyStep (Loop.new (.initialized, fields)) l) :
    l.side.1 = .aborted ↔ .abort ∈ l.taken := by
  have hkept := Loop.side_invariant
    (fun side taken => side.1 ≠ SenderPhase.sendAbort ∧ (side.1 = .aborted ↔ Message.abort ∈ taken))
    (by simp) ?_ ?_ ?_ h
  · exact hkept.2
  · intro side taken side' message err hside _ hwrite
    obtain ⟨hsend, haborted⟩ := hside
    obtain ⟨hsend', haborted'⟩ := SenderPhase.write_aborted hsend (Machine.side_write_eq_ok.mp hwrite)
    exact ⟨hsend', haborted'.trans haborted⟩
  · intro side taken message side' err hside hdone hread
    obtain ⟨hsend, haborted⟩ := hside
    obtain ⟨hsend', haborted'⟩ :=
      SenderPhase.read_aborted hsend (of_decide_eq_false hdone) (Machine.side_read_eq_ok.mp hread)
    refine ⟨hsend', ?_⟩
    rw [haborted', haborted, List.mem_append, List.mem_singleton, eq_comm (a := message)]
  · intro side taken message value hside _ hpanic
    obtain ⟨hsend, haborted⟩ := hside
    have hother : message ≠ .abort := by
      rintro rfl
      obtain ⟨result, hresult⟩ := SenderPhase.read_abort_returns side.1 side.2
      cases hresult.symm.trans (Machine.side_read_panics.mp hpanic)
    refine ⟨hsend, ?_⟩
    rw [haborted, List.mem_append, List.mem_singleton]
    exact (or_iff_left hother.symm).symm

/-- A sender has no transitions exactly if its transfer is completed or aborted. -/
theorem sender_terminal_iff :
    (senderDefinition sha256).IsTerminal phase.state ↔ phase = .done ∨ phase = .aborted := by
  constructor
  · intro h
    cases phase with
    | done => exact .inl rfl
    | aborted => exact .inr rfl
    | initialized | inPrologue | inProgress | transferred | sendAbort => cases h.1
    | needAcknowledge => cases h.2 (.value .acknowledge)
    | needDataReceived => cases h.2 (.value .dataReceived)
  · rintro (rfl | rfl)
    · refine ⟨rfl, ?_⟩
      rintro (state | messageType)
      · rfl
      · cases messageType <;> rfl
    · refine ⟨rfl, ?_⟩
      rintro (state | messageType)
      · rfl
      · cases messageType <;> rfl

/-- The transfer of a sender has ended exactly in two phases. -/
theorem Sender.isDone_iff {s : Sender} {phase : SenderPhase}
    (hstate : s.client.state = phase.state) :
    Sender.isDone s = true ↔ phase = .done ∨ phase = .aborted := by
  rw [Sender.isDone, Sender.isAborted, hstate, Bool.or_eq_true, decide_eq_true_iff,
    decide_eq_true_iff]
  exact or_congr (SenderPhase.state_injective.eq_iff (b := .done)) (SenderPhase.state_injective.eq_iff (b := .aborted))

/-- In every state of the loop of a sender: its phase, which is that of an abort exactly if the
message of an abort was taken, and what the loop finds out about it. -/
theorem sender_loop {c : Client MessageType Message SenderFields}
    (hc : Compiles (senderDefinition sha256) c) {fields : SenderFields} {l : Loop Sender Message}
    (h : Reached (Loop.step Peer.side) anyStep (Loop.new ((senderMachine sha256).peer c (.initialized, fields))) l) :
    ∃ phase : SenderPhase, l.side.client.state = phase.state ∧ (phase = .aborted ↔ .abort ∈ l.taken) ∧
      l.side.client.isDone = decide (phase = .done) ∧ l.side.client.canWrite = phase.canWrite ∧
      l.side.client.mustWrite = false := by
  have hembeds := (sender_implements sha256).embeds hc
  obtain ⟨l₀, rfl, hl₀⟩ := Loop.reached_of_map hembeds (Loop.new (.initialized, fields)) h
  exact ⟨l₀.side.1, rfl, sender_aborted_iff hl₀, hembeds.isDone l₀.side, hembeds.canWrite l₀.side,
    hembeds.mustWrite l₀.side⟩

end Sender

section Receiver

variable {sha256 : Bytes → Bytes} {phase phase' : ReceiverPhase} {fields fields' : ReceiverFields}

/-- The phases of a receiver whose transfer is neither aborted nor about to be. -/
def ReceiverPhase.GoesOn (phase : ReceiverPhase) : Prop := phase ≠ .sendAbort ∧ phase ≠ .aborted

/-- Writing does not abort the transfer of a receiver. -/
theorem ReceiverPhase.write_goesOn {message : Any Message} {err : Option Err}
    (hphase : phase.GoesOn) (h : phase.write fields = .ok (phase', fields', message, err)) :
    phase'.GoesOn := by
  cases phase with
  | handleBlock =>
    obtain ⟨⟨fields₁, message₁⟩, -, h⟩ := Call.bind_eq_ok.mp h
    obtain ⟨next, hnext, h⟩ := Call.bind_eq_ok.mp h
    split at h
    · cases h
    · cases h
      rcases ReceiverFields.afterAnswer_eq_ok hnext with rfl | rfl | rfl <;> simp [GoesOn]
  | sendAbort => exact absurd rfl hphase.1
  | _ => cases h; simp_all [GoesOn]

/-- Reading does not abort the transfer of a receiver. -/
theorem ReceiverPhase.read_goesOn {message : Message} {err : Option Err} (hphase : phase.GoesOn)
    (h : phase.read sha256 fields message = .ok (phase', fields', err)) : phase'.GoesOn := by
  cases message with
  | other => cases h
  | header header =>
    cases phase with
    | initialized =>
      obtain ⟨_, -, rfl, -⟩ := moveTo_returns h
      simp [GoesOn]
    | _ => cases h; exact hphase
  | block block =>
    cases phase with
    | needBlock =>
      obtain ⟨_, -, rfl, -⟩ := moveTo_returns h
      simp [GoesOn]
    | _ => cases h; exact hphase
  | dataSent =>
    cases phase with
    | needDataSent => cases h; simp [GoesOn]
    | _ => cases h; exact hphase
  | _ => cases phase <;> cases h <;> exact hphase

/-- In every state of its loop, the transfer of a receiver is not aborted. -/
theorem receiver_not_aborted {fields : ReceiverFields}
    {l : Loop (ReceiverPhase × ReceiverFields) Message}
    (h : Reached (Loop.step (receiverMachine sha256).side) anyStep (Loop.new (.initialized, fields)) l) :
    l.side.1 ≠ .aborted := by
  have hkept := Loop.side_invariant (fun side _ => ReceiverPhase.GoesOn side.1) (by simp [ReceiverPhase.GoesOn])
    ?_ ?_ ?_ h
  · exact hkept.2
  · intro side _ side' message err hside _ hwrite
    exact ReceiverPhase.write_goesOn hside (Machine.side_write_eq_ok.mp hwrite)
  · intro side _ message side' err hside _ hread
    exact ReceiverPhase.read_goesOn hside (Machine.side_read_eq_ok.mp hread)
  · intro side _ message value hside _ _
    exact hside

/-- A receiver has no transitions only if its transfer is completed or aborted. -/
theorem receiver_terminal (h : (receiverDefinition sha256).IsTerminal phase.state) :
    phase = .done ∨ phase = .aborted := by
  cases phase with
  | done => exact .inl rfl
  | aborted => exact .inr rfl
  | sendAcknowledge | handleBlock | sendDataReceived | sendAbort => cases h.1
  | initialized => cases h.2 (.value .header)
  | needBlock => cases h.2 (.value .block)
  | needDataSent => cases h.2 (.value .dataSent)

/-- The transfer of a receiver has ended exactly in two phases. -/
theorem Receiver.isDone_iff {s : Receiver} {phase : ReceiverPhase}
    (hstate : s.client.state = phase.state) :
    Receiver.isDone s = true ↔ phase = .done ∨ phase = .aborted := by
  rw [Receiver.isDone, Receiver.isAborted, hstate, Bool.or_eq_true, decide_eq_true_iff,
    decide_eq_true_iff]
  exact or_congr (ReceiverPhase.state_injective.eq_iff (b := .done))
    (ReceiverPhase.state_injective.eq_iff (b := .aborted))

/-- In every state of the loop of a receiver: its phase, which is not that of an abort, and whether
the loop finds it to be done. -/
theorem receiver_loop {c : Client MessageType Message ReceiverFields}
    (hc : Compiles (receiverDefinition sha256) c) {fields : ReceiverFields}
    {l : Loop Receiver Message}
    (h : Reached (Loop.step Peer.side) anyStep (Loop.new ((receiverMachine sha256).peer c (.initialized, fields))) l) :
    ∃ phase : ReceiverPhase, l.side.client.state = phase.state ∧ phase ≠ .aborted ∧
      l.side.client.isDone = decide (phase = .done) := by
  have hembeds := (receiver_implements sha256).embeds hc
  obtain ⟨l₀, rfl, hl₀⟩ := Loop.reached_of_map hembeds (Loop.new (.initialized, fields)) h
  exact ⟨l₀.side.1, rfl, receiver_not_aborted hl₀, hembeds.isDone l₀.side⟩

end Receiver

/-- For every run of the loop of a receiver or a sender, with any messages and errors of the
connection. A receiver whose transfer has ended is done for the loop, and an iteration that starts
in a state without transitions returns. For a sender this is so exactly as long as it was not given
the message of an abort: after this message it is not done for the loop, and an iteration waits for
the connection. -/
theorem loop_ends_with_transfer (sha256 : Bytes → Bytes) (metadata : Option Metadata)
    (reader : Reader) (factory : WriterFactory) :
    ∃ sender receiver, newSender sha256 metadata reader = .ok sender ∧ newReceiver sha256 factory = .ok receiver ∧
      (∀ l : Loop Receiver Message, Reached (Loop.step Peer.side) anyStep (Loop.new receiver) l →
        (Receiver.isDone l.side = true → l.side.client.isDone = true) ∧
        (l.phase = .deciding → (receiverDefinition sha256).IsTerminal l.side.client.state → l.Returns Peer.side)) ∧
      ∀ l : Loop Sender Message, Reached (Loop.step Peer.side) anyStep (Loop.new sender) l →
        (Sender.isDone l.side = true → (l.side.client.isDone = true ↔ .abort ∉ l.taken)) ∧
        (l.phase = .deciding → (senderDefinition sha256).IsTerminal l.side.client.state →
          (.abort ∉ l.taken → l.Returns Peer.side) ∧
          (.abort ∈ l.taken → l.isReady = false → l.Waits Peer.side)) := by
  obtain ⟨c, hsender, hc⟩ := newSender_ok sha256 metadata reader
  obtain ⟨c', hreceiver, hc'⟩ := newReceiver_ok sha256 factory
  refine ⟨_, _, hsender, hreceiver, ?_, ?_⟩
  · intro l hl
    obtain ⟨phase, hstate, haborted, hdone⟩ := receiver_loop hc' hl
    constructor
    · intro hended
      rw [hdone]
      exact decide_eq_true (((Receiver.isDone_iff hstate).mp hended).resolve_right haborted)
    · intro hphase hterminal
      rw [hstate] at hterminal
      refine Loop.returns_of_isDone hphase (hdone.trans ?_)
      exact decide_eq_true ((receiver_terminal hterminal).resolve_right haborted)
  · intro l hl
    obtain ⟨phase, hstate, haborted, hdone, hcan, hmust⟩ := sender_loop hc hl
    constructor
    · intro hended
      rw [hdone, decide_eq_true_iff, ← haborted]
      rcases (Sender.isDone_iff hstate).mp hended with rfl | rfl <;> simp
    · intro hphase hterminal
      rw [hstate] at hterminal
      constructor
      · intro htaken
        refine Loop.returns_of_isDone hphase (hdone.trans ?_)
        exact decide_eq_true ((sender_terminal_iff.mp hterminal).resolve_right fun h => htaken (haborted.mp h))
      · intro htaken hready
        obtain rfl := haborted.mpr htaken
        exact Loop.waits_of_silent hphase hdone hcan hmust hready

/-- A sender of one block, whose peer answers everything. -/
def answeredLoop : List (LoopEvent Message) :=
  [.write, .send none, .write, .send none, .arrive .acknowledge, .read, .write, .send none,
    .arrive (.blockReceived 0), .read, .arrive .dataReceived, .read]

/-- The loop of this sender returns. -/
theorem loop_ends_with_transfer_answered :
    ∃ (sender : Sender) (l : Loop Sender Message),
      newSender id (some ⟨[100]⟩) (newBlockReader (.ofBytes [7]) 1 ⟨1, by decide⟩) = .ok sender ∧
      execute (Loop.step Peer.side) anyStep answeredLoop (Loop.new sender) = some l ∧
      l.side.client.state = done ∧ l.Returns Peer.side := by
  obtain ⟨sender, -, hsender, -, -, hends⟩ := loop_ends_with_transfer id (some ⟨[100]⟩)
    (newBlockReader (.ofBytes [7]) 1 ⟨1, by decide⟩) fun _ _ => .error .closed
  have hview : (do
      let sender ← newSender id (some ⟨[100]⟩) (newBlockReader (.ofBytes [7]) 1 ⟨1, by decide⟩)
      return (execute (Loop.step Peer.side) anyStep answeredLoop (Loop.new sender)).map fun l : Loop Sender Message =>
        (l.side.client.state, l.phase, l.taken)) =
      (.ok (some (done, .deciding, [.acknowledge, .blockReceived 0, .dataReceived])) : Go _) := rfl
  simp only [hsender, Call.ok_bind, Call.pure_eq_ok, Except.ok.injEq, Option.map_eq_some_iff,
    Prod.mk.injEq] at hview
  obtain ⟨l, hrun, hstate, hphase, htaken⟩ := hview
  have hterminal : (senderDefinition id).IsTerminal SenderPhase.done.state := sender_terminal_iff.mpr (.inl rfl)
  refine ⟨sender, l, hsender, hrun, hstate, ?_⟩
  refine ((hends l (reached_of_execute _ hrun)).2 hphase (hstate ▸ hterminal)).1 ?_
  simp [htaken]

/-- The peer of a sender aborts the transfer at once. The sender has no transitions and its transfer
has ended, but its loop goes on and waits for the connection. -/
theorem loop_outlives_abort :
    ∃ (sender : Sender) (l : Loop Sender Message),
      newSender id (some ⟨[100]⟩) (newBlockReader (.ofBytes [7]) 1 ⟨1, by decide⟩) = .ok sender ∧
      execute (Loop.step Peer.side) anyStep [.arrive .abort, .read] (Loop.new sender) = some l ∧
      l.phase = .deciding ∧ (senderDefinition id).IsTerminal l.side.client.state ∧ Sender.isDone l.side = true ∧
      l.side.client.isDone = false ∧ l.Waits Peer.side := by
  refine ⟨_, _, rfl, rfl, rfl, sender_terminal_iff.mpr (.inr rfl), rfl, rfl, ?_⟩
  intro event hevent
  cases event with
  | arrive | lose | quit => cases hevent
  | _ => rfl

end ProjektCore.Transfer
