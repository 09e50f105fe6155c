import ProjektCore.Transfer.SenderRun

/-!
# Failed reads of the store

The store behind a sender may fail any number of times. A failed write leaves everything but the
store as it was, so that a sender whose failed writes are left out makes the same calls as a sender
over a store that never fails. Repeating a failed write writes the same message in the end, since
every attempt uses up a part of the script of failures.
-/

namespace ProjektCore.Transfer

open Foundation Protocol

/-- The fields with another store. -/
def SenderFields.withStore (fields : SenderFields) (store : Store) : SenderFields :=
  fields.withReader (fields.reader.withStore store)

/-- The second fields are the first over a store of the same data that does not fail. -/
def Twin (fields calm : SenderFields) : Prop :=
  ∃ store, store.data = fields.reader.reader.data ∧ store.faults = [] ∧ calm = fields.withStore store

section Calls

variable {sha256 : Bytes → Bytes} {phase phase' : SenderPhase} {fields fields' calm calm' : SenderFields}

/-- Recording a receipt does not look at the store. -/
theorem SenderFields.blockReceived_withStore (fields : SenderFields) (store : Store) (index : ℕ) :
    (fields.withStore store).blockReceived index = (do
      let (fields, err) ← fields.blockReceived index
      return (fields.withStore store, err)) := by
  have hcount : (fields.withStore store).reader.blockCount = fields.reader.blockCount := rfl
  have hbits : (fields.withStore store).received = fields.received := rfl
  have hreceived : (fields.withStore store).receivedCount = fields.receivedCount := rfl
  simp only [SenderFields.blockReceived, hbits, hreceived, hcount]
  rcases fields.received[index]? with _ | _ | _
  · rfl
  · by_cases hroom : fields.receivedCount + 1 > fields.reader.blockCount
    · simp only [if_pos hroom]
      rfl
    · simp only [if_neg hroom]
      rfl
  · rfl

/-- Queueing a block does not look at the store. -/
theorem SenderFields.redoBlock_withStore (fields : SenderFields) (store : Store) (index : ℕ) :
    (fields.withStore store).redoBlock index = (do
      let (fields, err) ← fields.redoBlock index
      return (fields.withStore store, err)) := by
  have hbits : (fields.withStore store).received = fields.received := rfl
  have hnext : (fields.withStore store).reader.nextBlockIndex = fields.reader.nextBlockIndex := rfl
  have hredo : (fields.withStore store).reader.redoBlock index =
      ((fields.reader.redoBlock index).1.withStore store, (fields.reader.redoBlock index).2) := by
    have hoffset : (fields.withStore store).reader.offset index = fields.reader.offset index := rfl
    have hsize : (fields.withStore store).reader.totalSize = fields.reader.totalSize := rfl
    have hindex : (fields.withStore store).reader.nextIndex = fields.reader.nextIndex := rfl
    have hqueue : (fields.withStore store).reader.redoBlocks = fields.reader.redoBlocks := rfl
    simp only [Reader.redoBlock, hoffset, hsize, hindex, hqueue]
    split_ifs <;> rfl
  simp only [SenderFields.redoBlock, hbits, hnext, hredo]
  rcases fields.received[index]? with _ | _ | _
  · rfl
  · by_cases hunwritten : index ≥ fields.reader.nextBlockIndex
    · simp only [if_pos hunwritten]
      rfl
    · simp only [if_neg hunwritten]
      rcases fields.reader.redoBlock index with ⟨reader, queued, _ | err⟩ <;> rfl
  · rfl

/-- Moving on after a handler does not look at the store either. -/
theorem moveTo_withStore (phase : SenderPhase) (result : Go (SenderFields × Option Err))
    (store : Store) :
    moveTo phase (do
      let (fields, err) ← result
      return (fields.withStore store, err)) = (do
      let (phase, fields, err) ← moveTo phase result
      return (phase, fields.withStore store, err)) := by
  cases result <;> rfl

/-- A read does not look at the store. -/
theorem SenderPhase.read_withStore (phase : SenderPhase) (fields : SenderFields) (store : Store)
    (message : Message) :
    phase.read (fields.withStore store) message = (do
      let (phase, fields, err) ← phase.read fields message
      return (phase, fields.withStore store, err)) := by
  cases message with
  | blockReceived index =>
    cases phase <;> simp only [SenderPhase.read, SenderFields.blockReceived_withStore, moveTo_withStore] <;> rfl
  | redoBlock index =>
    cases phase <;> simp only [SenderPhase.read, SenderFields.redoBlock_withStore, moveTo_withStore] <;> rfl
  | _ => cases phase <;> rfl

/-- A read leaves the store alone. -/
theorem SenderRead.store_eq {message : Message}
    (h : SenderRead phase fields message phase' fields') :
    fields'.reader.reader = fields.reader.reader := by
  cases h <;> rfl

/-- An accepted read is accepted without failures of the store as well. -/
theorem Twin.read (h : Twin fields calm) {message : Message}
    (hread : phase.read fields message = .ok (phase', fields', none)) :
    ∃ calm', phase.read calm message = .ok (phase', calm', none) ∧ Twin fields' calm' := by
  obtain ⟨store, hdata, hfaults, rfl⟩ := h
  refine ⟨fields'.withStore store, ?_, store, ?_, hfaults, rfl⟩
  · rw [SenderPhase.read_withStore, hread]
    rfl
  · rw [(SenderPhase.read_cases hread).store_eq]
    exact hdata

/-- Without failures of the store a block that the file has is written. -/
theorem SenderPhase.write_of_calm {b : Block} (hcalm : fields.reader.reader.faults = [])
    (hsends : phase.sendsBlocks = true) (hdata : fields.reader.isDone = false)
    (hinside : fields.reader.offset fields.reader.upcoming < fields.reader.totalSize)
    (hblock : fields.reader.blockOf sha256 fields.reader.upcoming = some b) :
    ∃ store, fields.reader.reader.Used store ∧ phase.write sha256 fields =
      .ok (if fields.reader.advanced.isDone then phase.afterLast else phase,
        fields.withReader (fields.reader.advanced.withStore store), some (.block (some b)), none) := by
  obtain ⟨store, hused, hread⟩ := Reader.readBlock_of_calm hcalm hinside hblock
  have hnext : fields.reader.nextBlock sha256 = .ok (fields.reader.advanced.withStore store, some b, none) := by
    rw [Reader.nextBlock_eq sha256 hdata, hread, Call.ok_bind, ← Reader.withStore_advanced]
    rfl
  exact ⟨store, hused, SenderPhase.write_of_nextBlock hsends hdata hnext⟩

/-- A write that succeeds writes the same without failures of the store, and one that fails changes
nothing but the store. -/
theorem Twin.write (h : Twin fields calm) {message : Any Message} {err : Option Err}
    (hwrite : SenderWrite sha256 phase fields phase' fields' message err) :
    (err = none ∧ ∃ calm', phase.write sha256 calm = .ok (phase', calm', message, none) ∧ Twin fields' calm') ∨
      (err.isSome ∧ phase' = phase ∧ Twin fields' calm) := by
  obtain ⟨store, hdata, hfaults, rfl⟩ := h
  cases hwrite with
  | header => exact .inl ⟨rfl, _, rfl, store, hdata, hfaults, rfl⟩
  | block hsends hhas hinside hused hblock =>
    have hreader : (fields.withStore store).reader = fields.reader.withStore store := rfl
    have hcalmHas : (fields.withStore store).reader.isDone = false := hhas
    obtain ⟨after, hafter, hcalm⟩ := SenderPhase.write_of_calm hfaults hsends hcalmHas hinside
      ((fields.reader.blockOf_withStore hdata _).trans hblock)
    have hused' : after.data = store.data ∧ after.faults.length ≤ store.faults.length - 1 :=
      ⟨hafter.data, hafter.faults⟩
    rw [hfaults] at hused'
    rw [hreader, Reader.withStore_advanced] at hcalm
    refine .inl ⟨rfl, _, hcalm, after, ?_, List.length_eq_zero_iff.mp (Nat.le_zero.mp hused'.2), rfl⟩
    exact hused'.1.trans (hdata.trans hused.data.symm)
  | failed err hsends hused => exact .inr ⟨rfl, rfl, store, hdata.trans hused.data.symm, hfaults, rfl⟩
  | dataSent => exact .inl ⟨rfl, _, rfl, store, hdata, hfaults, rfl⟩
  | abort => exact .inl ⟨rfl, _, rfl, store, hdata, hfaults, rfl⟩
  | nothing hsilent => exact .inr ⟨rfl, rfl, store, hdata, hfaults, rfl⟩

/-- If a write succeeds without failures of the store, then with failures it succeeds as well or
uses up a part of the script. -/
theorem Twin.attempt (h : Twin fields calm) {message : Any Message}
    (hcalm : phase.write sha256 calm = .ok (phase', calm', message, none)) :
    (∃ fields', phase.write sha256 fields = .ok (phase', fields', message, none)) ∨
      ∃ fields' failed err, phase.write sha256 fields = .ok (phase, fields', failed, some err) ∧ Twin fields' calm ∧
        fields'.reader.reader.faults.length < fields.reader.reader.faults.length := by
  have hdue (hsends : phase.sendsBlocks = true) : fields.reader.isDone = false ∧
      fields.reader.offset fields.reader.upcoming < fields.reader.totalSize ∧
      ∃ b, fields.reader.blockOf sha256 fields.reader.upcoming = some b := by
    obtain ⟨store, hdata, -, rfl⟩ := h
    cases SenderPhase.write_cases hcalm with
    | block _ hhas hinside _ hblock =>
      exact ⟨hhas, hinside, _, (fields.reader.blockOf_withStore hdata _).symm.trans hblock⟩
    | _ => cases hsends
  obtain ⟨⟨after, fields', written, err⟩, hwrite⟩ :=
    SenderPhase.write_returns sha256 (fun hsends => (hdue hsends).1) (fun hsends => (hdue hsends).2.1)
  rcases h.write (SenderPhase.write_cases hwrite) with ⟨rfl, calm₁, hcalm₁, -⟩ | ⟨hfailed, -, htwin⟩
  · rw [hcalm] at hcalm₁
    obtain ⟨rfl, -, rfl, -⟩ := by simpa using hcalm₁
    exact .inl ⟨fields', hwrite⟩
  · refine .inr ?_
    obtain ⟨err, rfl⟩ := Option.isSome_iff_exists.mp hfailed
    cases SenderPhase.write_cases hwrite with
    | nothing hsilent =>
      exfalso
      cases SenderPhase.write_cases hcalm with
      | block hsends => cases phase <;> simp [SenderPhase.sendsBlocks, SenderPhase.canWrite] at hsends hsilent
      | _ => cases hsilent
    | failed err hsends hused =>
      obtain ⟨hhas, hinside, b, hblock⟩ := hdue hsends
      have hfaults : fields.reader.reader.faults ≠ [] := by
        intro hnone
        obtain ⟨store, -, hok⟩ := SenderPhase.write_of_calm hnone hsends hhas hinside hblock
        rw [hwrite] at hok
        simp at hok
      refine ⟨_, _, err, hwrite, htwin, lt_of_le_of_lt hused.faults ?_⟩
      exact Nat.sub_lt (List.length_pos_of_ne_nil hfaults) Nat.one_pos

/-- A write with an error changes nothing but the store. -/
theorem SenderWrite.failed_same {message : Any Message} {err : Err}
    (h : SenderWrite sha256 phase fields phase' fields' message (some err)) :
    phase' = phase ∧ ∃ store, fields' = fields.withStore store := by
  cases h with
  | failed _ hsends hused => exact ⟨rfl, _, rfl⟩
  | nothing hsilent => exact ⟨rfl, fields.reader.reader, rfl⟩

/-- A write without an error writes a message. -/
theorem SenderWrite.exists_message {message : Any Message}
    (h : SenderWrite sha256 phase fields phase' fields' message none) : ∃ m, message = some m := by
  cases h <;> exact ⟨_, rfl⟩

end Calls

section Runs

variable {sha256 : Bytes → Bytes} {metadata : Option Metadata} {size : ℕ} {s : Size} {r calm : SoloSender}

/-- The second sender did what the first did, over a store that does not fail. -/
structure CalmTwin (r calm : SoloSender) : Prop where
  phase : calm.side.1 = r.side.1
  history : calm.history = r.history
  fields : Twin r.side.2 calm.side.2

/-- A call follows the calls that were recorded, or leaves no record and no difference. -/
theorem CalmTwin.step (h : CalmTwin r calm) {call : SideCall Message} {q : SoloSender}
    (haccepting : Solo.Accepting (senderMachine sha256).side r call)
    (hstep : r.step (senderMachine sha256).side call = some q) :
    CalmTwin q calm ∧ q.history = r.history ∨
      ∃ calm' deed, Deed.call deed = call ∧ q.history = r.history ++ [deed] ∧
        Solo.Accepting (senderMachine sha256).side calm call ∧
        calm.step (senderMachine sha256).side call = some calm' ∧ CalmTwin q calm' := by
  cases call with
  | write =>
    obtain ⟨phase, fields, message, err, hwrite, rfl⟩ := Solo.step_write.mp hstep
    have hcases := SenderPhase.write_cases hwrite
    rcases h.fields.write hcases with ⟨rfl, calm', hcalm, htwin⟩ | ⟨hfailed, rfl, htwin⟩
    · obtain ⟨m, rfl⟩ := hcases.exists_message
      rw [← h.phase] at hcalm
      refine .inr ⟨_, .wrote m, rfl, rfl, rfl, Solo.step_write.mpr ⟨_, _, _, _, hcalm, rfl⟩, rfl, ?_, htwin⟩
      rw [h.history]
    · obtain ⟨err, rfl⟩ := Option.isSome_iff_exists.mp hfailed
      have hsame : r.history ++ [] = r.history := List.append_nil _
      exact .inl ⟨⟨h.phase, h.history.trans hsame.symm, htwin⟩, hsame⟩
  | read message =>
    obtain ⟨phase, fields, hread, rfl⟩ := Solo.step_accepted haccepting hstep
    obtain ⟨calm', hcalm, htwin⟩ := h.fields.read hread
    rw [← h.phase] at hcalm
    refine .inr ⟨_, .accepted message, rfl, rfl, ?_, Solo.step_read.mpr ⟨_, _, _, hcalm, rfl⟩, rfl, ?_, htwin⟩
    · have hside : (senderMachine sha256).side.read calm.side message = .ok ((phase, calm'), none) :=
        Machine.side_read_eq_ok.mpr hcalm
      simp only [Solo.Accepting, Solo.readsFine, hside]
    · rw [h.history]
      rfl

/-- Leaving out the failed writes of a run gives a run without failures of the store. -/
theorem exists_calm_run {data : Bytes} {faults : List (Option ℕ)}
    (h : Reached (Solo.step (senderMachine sha256).side) (Solo.Accepting (senderMachine sha256).side)
      (soloStart metadata ⟨data, 0, faults⟩ size s) r) :
    ∃ calm, execute (Solo.step (senderMachine sha256).side) (Solo.Accepting (senderMachine sha256).side)
      (r.history.map Deed.call) (soloStart metadata (.ofBytes data) size s) = some calm ∧ CalmTwin r calm := by
  have hstart : CalmTwin (soloStart metadata ⟨data, 0, faults⟩ size s) (soloStart metadata (.ofBytes data) size s) :=
    ⟨rfl, rfl, .ofBytes data, rfl, rfl, rfl⟩
  refine h.invariant (fun r => ∃ calm, execute (Solo.step (senderMachine sha256).side)
    (Solo.Accepting (senderMachine sha256).side) (r.history.map Deed.call)
    (soloStart metadata (.ofBytes data) size s) = some calm ∧ CalmTwin r calm) ⟨_, rfl, hstart⟩ ?_
  intro r call q hr haccepting hstep
  obtain ⟨calm, hrun, htwin⟩ := hr
  rcases htwin.step haccepting hstep with ⟨hsame, hhistory⟩ | ⟨calm', deed, rfl, hhistory, hcalm, hnext, htwin'⟩
  · rw [hhistory]
    exact ⟨calm, hrun, hsame⟩
  · rw [hhistory, List.map_append]
    exact ⟨calm', execute_concat hrun hcalm hnext, htwin'⟩

/-- Repeating a failed write writes what is written without failures of the store. -/
theorem exists_retry (h : CalmTwin r calm) {phase : SenderPhase} {fields : SenderFields}
    {m : Message}
    (hcalm : calm.side.1.write sha256 calm.side.2 = .ok (phase, fields, some m, none)) :
    ∃ n ≤ r.side.2.reader.reader.faults.length, ∃ q,
      execute (Solo.step (senderMachine sha256).side) (Solo.Accepting (senderMachine sha256).side)
        (List.replicate (n + 1) .write) r = some q ∧ q.history = r.history ++ [.wrote m] := by
  induction hlength : r.side.2.reader.reader.faults.length using Nat.strong_induction_on generalizing r with
  | _ length ih =>
    have hattempt := hcalm
    rw [h.phase] at hattempt
    rcases h.fields.attempt hattempt with ⟨fields', hwrite⟩ | ⟨fields', failed, err, hwrite, htwin, hless⟩
    · have hstep : r.step (senderMachine sha256).side .write =
          some ⟨(phase, fields'), r.history ++ [.wrote m]⟩ := Solo.step_write.mpr ⟨_, _, _, _, hwrite, rfl⟩
      refine ⟨0, Nat.zero_le _, ⟨(phase, fields'), r.history ++ [.wrote m]⟩, ?_, rfl⟩
      simp [execute, Solo.Accepting, Solo.readsFine, hstep]
    · have hstep : r.step (senderMachine sha256).side .write =
          some ⟨(r.side.1, fields'), r.history⟩ := by
        refine Solo.step_write.mpr ⟨_, _, _, _, hwrite, ?_⟩
        simp
      obtain ⟨n, hn, q, hrun, hhistory⟩ :=
        ih _ (hlength ▸ hless) (r := ⟨(r.side.1, fields'), r.history⟩) ⟨h.phase, h.history, htwin⟩ rfl
      refine ⟨n + 1, by simp only at hn; omega, q, ?_, hhistory⟩
      rw [List.replicate_succ]
      simp only [execute, hstep, Option.bind_some]
      exact hrun

end Runs

/-- Failures of the store are invisible to the peer: a failed write changes nothing but the store,
the calls that returned no error are those of a run without failures, and repeating a write writes
its message. -/
theorem failed_reads_invisible (sha256 : Bytes → Bytes) (metadata : Option Metadata) (data : Bytes)
    (faults : List (Option ℕ)) (s : Size) :
    ∃ sender calm,
      newSender sha256 metadata (newBlockReader ⟨data, 0, faults⟩ data.length s) = .ok sender ∧
      newSender sha256 metadata (newBlockReader (.ofBytes data) data.length s) = .ok calm ∧
      ∀ r, Reached (Solo.step Peer.side) (Solo.Accepting Peer.side) ⟨sender, []⟩ r →
        (∀ after message err, Peer.side.write r.side = .ok (after, message, some err) →
          after.client = r.side.client ∧ after.world.reader.nextIndex = r.side.world.reader.nextIndex ∧
            after.world.reader.redoBlocks = r.side.world.reader.redoBlocks ∧
            after.world.received = r.side.world.received) ∧
        ∃ q, execute (Solo.step Peer.side) (Solo.Accepting Peer.side) (r.history.map Deed.call) ⟨calm, []⟩ = some q ∧
          q.history = r.history ∧ q.side.client.state = r.side.client.state ∧
          ∀ after m, Peer.side.write q.side = .ok (after, some m, none) →
            ∃ n ≤ r.side.world.reader.reader.faults.length, ∃ r',
              execute (Solo.step Peer.side) (Solo.Accepting Peer.side) (List.replicate (n + 1) .write) r = some r' ∧
                r'.history = r.history ++ [.wrote m] := by
  obtain ⟨client, hsender, hclient⟩ :=
    newSender_ok sha256 metadata (newBlockReader ⟨data, 0, faults⟩ data.length s)
  obtain ⟨client', hcalm, hclient'⟩ := newSender_ok sha256 metadata (newBlockReader (.ofBytes data) data.length s)
  have ha := (sender_implements sha256).embeds hclient
  have ha' := (sender_implements sha256).embeds hclient'
  refine ⟨_, _, hsender, hcalm, ?_⟩
  intro q hq
  obtain ⟨r, rfl, hr⟩ := Solo.accepting_of_map ha (soloStart metadata ⟨data, 0, faults⟩ data.length s) hq
  constructor
  · intro after message err hwrite
    have hfailed := hwrite
    simp only [Solo.map, ha.write, Call.bind_eq_ok] at hfailed
    obtain ⟨⟨side, message', err'⟩, hside, hresult⟩ := hfailed
    obtain ⟨rfl, rfl, rfl⟩ := by simpa using hresult
    obtain ⟨hphase, store, hfields⟩ := (SenderPhase.write_cases (Machine.side_write_eq_ok.mp hside)).failed_same
    simp only [Machine.peer, Solo.map, hphase, hfields, true_and]
    exact ⟨rfl, rfl, rfl⟩
  · obtain ⟨calm, hrun, htwin⟩ := exists_calm_run hr
    refine ⟨calm.map ((senderMachine sha256).peer client'), ?_, htwin.history, ?_, ?_⟩
    · refine (Solo.execute_map ha' _ (soloStart metadata (.ofBytes data) data.length s)).trans ?_
      change Option.map _ (execute _ _ (r.history.map Deed.call) _) = _
      rw [hrun]
      rfl
    · change calm.side.1.state = r.side.1.state
      rw [htwin.phase]
    · intro after m hwrite
      simp only [Solo.map, ha'.write, Call.bind_eq_ok] at hwrite
      obtain ⟨⟨side, message', err'⟩, hside, hresult⟩ := hwrite
      obtain ⟨rfl, rfl, rfl⟩ := by simpa using hresult
      obtain ⟨n, hn, q, hrepeat, hhistory⟩ := exists_retry htwin (Machine.side_write_eq_ok.mp hside)
      refine ⟨n, hn, q.map ((senderMachine sha256).peer client), ?_, hhistory⟩
      rw [Solo.execute_map ha, hrepeat]
      rfl

/-- One failed seek: three calls to write do what two calls do without the failure. -/
theorem failed_reads_invisible_one_fault :
    ∃ sender calm r q,
      newSender id (some ⟨[100]⟩) (newBlockReader ⟨[7], 0, [some 0]⟩ 1 ⟨1, by decide⟩) = .ok sender ∧
      newSender id (some ⟨[100]⟩) (newBlockReader (.ofBytes [7]) 1 ⟨1, by decide⟩) = .ok calm ∧
      execute (Solo.step Peer.side) (Solo.Accepting Peer.side) [.write, .write, .write] ⟨sender, []⟩ = some r ∧
      execute (Solo.step Peer.side) (Solo.Accepting Peer.side) [.write, .write] ⟨calm, []⟩ = some q ∧
      q.history = r.history := by
  obtain ⟨sender, calm, hsender, hcalm, hall⟩ :=
    failed_reads_invisible id (some ⟨[100]⟩) [7] [some 0] ⟨1, by decide⟩
  have hsender' : newSender id (some ⟨[100]⟩) (newBlockReader ⟨[7], 0, [some 0]⟩ 1 ⟨1, by decide⟩) = .ok sender :=
    hsender
  have hrun : (do
      let sender ← newSender id (some ⟨[100]⟩) (newBlockReader ⟨[7], 0, [some 0]⟩ 1 ⟨1, by decide⟩)
      return (execute (Solo.step Peer.side) (Solo.Accepting Peer.side) [.write, .write, .write] ⟨sender, []⟩).map
        fun r => r.history.map Deed.call) = (.ok (some [.write, .write]) : Go _) := rfl
  simp only [hsender', Call.ok_bind, Call.pure_eq_ok, Except.ok.injEq,
    Option.map_eq_some_iff] at hrun
  obtain ⟨r, hr, hcalls⟩ := hrun
  obtain ⟨-, q, hq, hhistory, -⟩ := hall r (reached_of_execute _ hr)
  rw [hcalls] at hq
  exact ⟨sender, calm, r, q, hsender, hcalm, hr, hq, hhistory⟩

end ProjektCore.Transfer
