import ProjektCore.Programs.Completion
import ProjektCore.Programs.Transfer
import ProjektCore.Transfer.Pipeline

/-!
# A file is sent to the end

The sides of a transfer of a file that is not empty can rely on their loops: over an ordered network
each of them makes one turn for each message that it writes or reads, and there are two messages
more than blocks in each direction. Every calm run of the two programs therefore ends, and at its
end the receiver has the file.
-/

namespace ProjektCore.Programs

open Foundation Protocol Session Transfer

section Machines

variable {sha256 : Bytes → Bytes} {data : Bytes} {s : Size} {metadata : Metadata} {factory : WriterFactory}

/-- The turns of an honest transfer are counted by its counters. -/
theorem inStep_of_execute (hfits : s.Fits data.length) (hblocks : 0 < blocks data s) (hfresh : Fresh factory)
    {turns : List Turn} {m : MachinePair}
    (h : execute (Pair.step (senderMachine sha256).side (receiverMachine sha256).side)
      (Pair.Driven (senderMachine sha256).side (receiverMachine sha256).side) turns
      (transferStart (some metadata) factory data s) = some m) :
    ∃ k, InStep sha256 data s metadata factory k m ∧
      turns.length = k.sent + k.delivered + k.answered + k.collected := by
  refine execute_invariant (fun turns m => ∃ k, InStep sha256 data s metadata factory k m ∧
    turns.length = k.sent + k.delivered + k.answered + k.collected) ⟨_, inStep_start, rfl⟩ ?_ h
  rintro turns m turn q - ⟨k, hk, hlength⟩ hdriven hstep
  have hcount {k' : Counters (blocks data s)} {q' : MachinePair} {sent delivered answered collected : ℕ}
      (hq' : m.step (senderMachine sha256).side (receiverMachine sha256).side turn = some q')
      (hin : InStep sha256 data s metadata factory k' q') (hk' : k'.Are sent delivered answered collected)
      (hsum : sent + delivered + answered + collected = turns.length + 1) :
      ∃ k, InStep sha256 data s metadata factory k q ∧
        (turns ++ [turn]).length = k.sent + k.delivered + k.answered + k.collected := by
    obtain rfl := Option.some.inj (hq'.symm.trans hstep)
    refine ⟨k', hin, ?_⟩
    rw [hk'.sent, hk'.delivered, hk'.answered, hk'.collected, List.length_append,
      List.length_singleton, hsum]
  cases turn with
  | leftWrites =>
    obtain ⟨k', q', hq', hin, hk'⟩ := hk.leftWrites hfits hblocks hdriven
    exact hcount hq' hin hk' (by omega)
  | leftReads =>
    obtain ⟨k', q', hq', hin, hk'⟩ := hk.leftReads hdriven
    exact hcount hq' hin hk' (by omega)
  | rightWrites =>
    obtain ⟨k', q', hq', hin, hk'⟩ := hk.rightWrites hblocks hdriven
    exact hcount hq' hin hk' (by omega)
  | rightReads =>
    obtain ⟨k', q', hq', hin, hk'⟩ := hk.rightReads hfits hfresh hdriven
    exact hcount hq' hin hk' (by omega)

end Machines

section Sides

variable {decoder : Decoder} {sha256 : Bytes → Bytes} {data : Bytes} {filename : Bytes}
  {client : Client MessageType Transfer.Message SenderFields}
  {client' : Client MessageType Transfer.Message ReceiverFields}

/-- What holds of a pair after the turns of the loops: it is that of the machines, in step. -/
structure Transferring (sha256 : Bytes → Bytes) (data : Bytes) (filename : Bytes)
    (k : Counters (blocks data blockSize)) (m : MachinePair) : Prop where
  inStep : InStep sha256 data blockSize ⟨filename⟩ bufferFactory k m
  reliable : Reliable data blockSize (some ⟨filename⟩) sha256 bufferFactory m
  written : Written data blockSize (some ⟨filename⟩) sha256 m

section Start

variable (ha : (senderMachine sha256).side.Embeds Peer.side ((senderMachine sha256).peer client))
  (hb : (receiverMachine sha256).side.Embeds Peer.side ((receiverMachine sha256).peer client'))
  (hdata : data ≠ []) (hlength : data.length < 2 ^ 63)

include ha hb hdata hlength in
/-- The pair of the clients is that of their machines, and its counters have counted the turns. -/
theorem pairAfter_eq {turns : List Turn} {n : Pair Sender Receiver Transfer.Message}
    (h : pairAfter (clientSetup decoder sha256 client client' filename data) turns = some n) :
    ∃ m k, n = m.map ((senderMachine sha256).peer client) ((receiverMachine sha256).peer client') ∧
      Transferring sha256 data filename k m ∧ turns.length = k.sent + k.delivered + k.answered + k.collected := by
  have hfits : blockSize.Fits data.length := ⟨hlength, by decide⟩
  have hfresh : Fresh bufferFactory := fun _ size => ⟨.make size, rfl, by simp [Store.make, Store.ofBytes], rfl⟩
  have hblocks : 0 < blocks data blockSize := blockSize.blockCount_pos _ (List.length_pos_of_ne_nil hdata)
  have hmap : execute (Pair.step Peer.side Peer.side) (Pair.Driven Peer.side Peer.side) turns
        ((transferStart (some ⟨filename⟩) bufferFactory data blockSize).map ((senderMachine sha256).peer client)
          ((receiverMachine sha256).peer client')) =
      (execute (Pair.step (senderMachine sha256).side (receiverMachine sha256).side)
        (Pair.Driven (senderMachine sha256).side (receiverMachine sha256).side) turns
        (transferStart (some ⟨filename⟩) bufferFactory data blockSize)).map (Pair.map _ _) :=
    execute_map (Pair.map _ _) (Pair.step_map ha hb)
      (fun m turn => by rw [Pair.Driven, Pair.loopTakes_map ha hb, Pair.Driven]) turns _
  have hrun := hmap.symm.trans h
  obtain ⟨m, hm, rfl⟩ := Option.map_eq_some_iff.mp hrun
  obtain ⟨k, hk, hcount⟩ := inStep_of_execute hfits hblocks hfresh hm
  have hnetwork := Pair.reached_network (reached_of_execute turns hm)
  obtain ⟨hreliable, hwritten⟩ := written_of_network hfits hfresh hnetwork
  exact ⟨m, k, rfl, ⟨hk, hreliable, hwritten⟩, hcount⟩

include ha hb hdata hlength in
/-- The two sides of a transfer can rely on their loops. -/
theorem transfer_dependable (hsha256 : ∀ bytes, (sha256 bytes).length = 32)
    (hname : Metadata.NameFits ⟨filename⟩) :
    Dependable (clientSetup decoder sha256 client client' filename data)
      (4 * (blocks data blockSize + 2)) := by
  have hfits : blockSize.Fits data.length := ⟨hlength, by decide⟩
  have hfresh : Fresh bufferFactory := fun _ size => ⟨.make size, rfl, by simp [Store.make, Store.ofBytes], rfl⟩
  have hblocks : 0 < blocks data blockSize := blockSize.blockCount_pos _ (List.length_pos_of_ne_nil hdata)
  have horiginal {message : Transfer.Message} (h : Original data blockSize (some ⟨filename⟩) sha256 message) :
      message.Fits := h.fits hsha256 hfits hname (by decide)
  refine ⟨?_, ?_, ?_, ?_, ?_⟩
  · intro turns n turn hn hturn
    obtain ⟨m, k, rfl, hm, -⟩ := pairAfter_eq ha hb hdata hlength hn
    have hmachine := (Pair.loopTakes_map ha hb m turn).symm.trans hturn
    obtain ⟨-, q, hstep, -⟩ := hm.inStep.turn hfits hblocks hfresh hmachine
    refine ⟨q.map ((senderMachine sha256).peer client) ((receiverMachine sha256).peer client'), ?_⟩
    exact (Pair.step_map ha hb m turn).trans (by rw [hstep]; rfl)
  · intro turns n hn hopen
    obtain ⟨m, k, rfl, hm, -⟩ := pairAfter_eq ha hb hdata hlength hn
    obtain ⟨turn, hturn⟩ : ∃ turn,
        m.loopTakes (senderMachine sha256).side (receiverMachine sha256).side turn = true := by
      refine hm.inStep.enabled ?_
      rintro ⟨hleft, hright⟩
      obtain ⟨x, hx⟩ := hopen
      cases x with
      | initiator => cases hx.symm.trans ((ha.isDone m.left).trans (decide_eq_true hleft))
      | responder => cases hx.symm.trans ((hb.isDone m.right).trans (decide_eq_true hright))
    exact ⟨turn, (Pair.loopTakes_map ha hb m turn).trans hturn⟩
  · intro turns n hn
    obtain ⟨m, k, rfl, -, hcount⟩ := pairAfter_eq ha hb hdata hlength hn
    have hcollected := k.collected_le
    have hanswered := k.answered_le
    have hdelivered := k.delivered_le
    have hsent := k.sent_le
    omega
  · intro turns n x side message hn hwrite
    obtain ⟨m, k, rfl, hm, -⟩ := pairAfter_eq ha hb hdata hlength hn
    cases x with
    | initiator =>
      obtain ⟨t, ht, -⟩ := ha.write_eq_ok.mp hwrite
      obtain ⟨-, m', rfl, hm'⟩ := SenderPhase.write_original hfits hm.reliable.agrees.reader hm.reliable.announced
        (Machine.side_write_eq_ok.mp ht)
      exact ⟨⟨m', decide_eq_true (horiginal hm').1⟩, rfl⟩
    | responder =>
      obtain ⟨t, ht, -⟩ := hb.write_eq_ok.mp hwrite
      obtain ⟨-, -, m', rfl, hm'⟩ :=
        ReceiverPhase.write_answers hm.reliable.answerable (Machine.side_write_eq_ok.mp ht)
      exact ⟨⟨m', decide_eq_true (hm'.fits hfits).1⟩, rfl⟩
  · intro turns n x hn message hmem handle
    obtain ⟨m, k, rfl, hm, -⟩ := pairAfter_eq ha hb hdata hlength hn
    have hmessage : message.val.Fits := by
      cases x with
      | initiator => exact (hm.written.toLeft message.val hmem).fits hfits
      | responder => exact horiginal (hm.written.toRight message.val hmem)
    obtain ⟨hencodable, wrapped, hwrap⟩ := wraps_of_fits decoder hmessage handle
    exact ⟨wrapped, hwrap⟩

include ha hb hdata hlength in
/-- A receiver whose loop has returned has the file. -/
theorem hasFile_of_returned
    {p : Stack (clientSetup decoder sha256 client client' filename data)}
    (hp : p.Prompt) {turns : List Turn} {n : Pair Sender Receiver Transfer.Message}
    (hn : pairAfter (clientSetup decoder sha256 client client' filename data) turns = some n) (hfollows : p.Follows n)
    {r : Loop Receiver Transfer.Message} (hr : p.loops .responder = some r)
    (hreturned : r.phase = .returned none) : HasFile data filename r.side := by
  obtain ⟨m, k, rfl, hm, -⟩ := pairAfter_eq ha hb hdata hlength hn
  have hside : (receiverMachine sha256).peer client' m.right = r.side :=
    (hfollows.side .responder).trans (Stack.sideOf_eq hr)
  have hholds := phaseHolds_of_reached (hp.sound.loop .responder r hr)
  unfold PhaseHolds at hholds
  rw [hreturned] at hholds
  have hdone : Peer.side.isDone ((receiverMachine sha256).peer client' m.right) = true := hside ▸ hholds
  rw [hb.isDone] at hdone
  exact hside ▸ hm.reliable.received (of_decide_eq_true hdone)

end Start

end Sides

/-- Every file that is not empty is sent and received, if its name is a text that fits. Whatever the
order of the steps of the goroutines, over a connection that does not fail and with brokers that
take what is in time: the two programs make a bounded number of steps, no loop returns an error or
panics, and every run goes on until both loops have returned and both sessions are closed; the
receiver then has the file and its name. -/
theorem programs_complete (decoder : Decoder) (sha256 : Bytes → Bytes)
    (hsha256 : ∀ bytes, (sha256 bytes).length = 32) (data : Bytes) (hdata : data ≠ [])
    (hlength : data.length < 2 ^ 63) (filename : Bytes) (hname : Metadata.NameFits ⟨filename⟩) :
    ∃ sender receiver,
      newSender sha256 (some ⟨filename⟩) (newBlockReader (.ofBytes data) data.length blockSize) = .ok sender ∧
      newReceiver sha256 bufferFactory = .ok receiver ∧
      ∀ events p, execute Stack.step Stack.Calm events (.new : Stack (transferSetup decoder sender receiver)) = some p →
        events.length ≤ 40 * (blockSize.blockCount data.length + 2) + 38 ∧
        (∀ x l, p.loops x = some l → hasFailed l.phase = false) ∧
        (p.Ended → ∀ x, (p.link.sessions x).isDone = true ∧ ∃ l, p.loops x = some l ∧ l.phase = .returned none) ∧
        (p.Ended → ∃ r, p.loops .responder = some r ∧ HasFile data filename r.side) ∧
        ∃ more q, execute Stack.step Stack.Calm (events ++ more)
          (.new : Stack (transferSetup decoder sender receiver)) = some q ∧ q.Ended := by
  obtain ⟨client, client', hsender, hreceiver, ha, hb⟩ :=
    transferStart_embeds sha256 (some ⟨filename⟩) bufferFactory data blockSize
  refine ⟨_, _, hsender, hreceiver, ?_⟩
  have hdependable : Dependable (clientSetup decoder sha256 client client' filename data) _ :=
    transfer_dependable ha hb hdata hlength hsha256 hname
  have hbound events p (hrun : execute Stack.step Stack.Calm events
      (.new : Stack (clientSetup decoder sha256 client client' filename data)) = some p) :
      events.length ≤ 40 * (blockSize.blockCount data.length + 2) + 38 := by
    have hle := (Stack.calm_run_completes hdependable rfl hrun).1
    rw [blocks] at hle
    omega
  intro events p hrun
  obtain ⟨-, hfine, hcompletes⟩ := Stack.calm_run_completes hdependable rfl hrun
  refine ⟨hbound events p hrun, hfine, hcompletes, ?_, execute_maximal hbound hrun⟩
  intro hended
  obtain ⟨-, r, hr, hreturned⟩ := hcompletes hended .responder
  obtain ⟨hp, -, turns, n, hn, hfollows, -⟩ := Stack.calm_run hdependable rfl hrun
  exact ⟨r, hr, hasFile_of_returned ha hb hdata hlength hp hn hfollows hr hreturned⟩

/-- A calm run in which a file of one byte is sent, and its end. -/
theorem programs_complete_one_byte :
    ∃ sender receiver,
      newSender (fun _ => List.replicate 32 0) (some ⟨[]⟩) (newBlockReader (.ofBytes [1]) 1 blockSize) = .ok sender ∧
      newReceiver (fun _ => List.replicate 32 0) bufferFactory = .ok receiver ∧
      ∃ more, ∃ q : Stack (transferSetup parser sender receiver),
        execute Stack.step Stack.Calm (oneBlock (transferSetup parser sender receiver) ++ more) .new = some q ∧
        (oneBlock (transferSetup parser sender receiver) ++ more).length ≤ 158 ∧
        (∀ x, (q.link.sessions x).isDone = true) ∧
        ∃ r : Loop Receiver Transfer.Message, q.loops .responder = some r ∧ HasFile [1] [] r.side := by
  obtain ⟨sender, receiver, hsender, hreceiver, hall⟩ := programs_complete parser (fun _ => List.replicate 32 0)
    (fun _ => List.length_replicate) [1] (by decide) (by decide) [] ⟨by decide, by decide⟩
  change newSender _ (some ⟨[]⟩) (newBlockReader (.ofBytes [1]) 1 blockSize) = .ok sender at hsender
  have hrun : (do
      let sender ← newSender (fun _ => List.replicate 32 0) (some ⟨[]⟩) (newBlockReader (.ofBytes [1]) 1 blockSize)
      let receiver ← newReceiver (fun _ => List.replicate 32 0) bufferFactory
      return (execute Stack.step Stack.Calm (oneBlock (transferSetup parser sender receiver)) .new).isSome) =
    (.ok true : Go _) := rfl
  simp only [hsender, hreceiver, Call.ok_bind, Call.pure_eq_ok, Except.ok.injEq] at hrun
  obtain ⟨p, hp⟩ := Option.isSome_iff_exists.mp hrun
  obtain ⟨-, -, -, -, more, q, hq, hended⟩ := hall _ p hp
  obtain ⟨hlength, -, hclosed, hfile, -⟩ := hall _ q hq
  exact ⟨sender, receiver, hsender, hreceiver, more, q, hq, hlength, fun x => (hclosed hended x).1, hfile hended⟩

end ProjektCore.Programs
