import ProjektCore.Transfer.ReceiverRun

/-!
# The blocks that a receiver requests

Every block that a receiver asks for again exists. It is one that the receiver lacks as long as no
block arrives ahead of a gap in which some block is written already. Such a gap arises as soon as
blocks arrive out of order twice: the awaited index moves by one with each awaited block and does
not pass over blocks that are written. When a block arrives ahead of such a gap, the receiver asks
for all blocks of the gap, the written ones included.
-/

namespace ProjektCore.Transfer

open Foundation Protocol

/-- No block between the awaited one and a block that passes the checks is written. -/
def gapLacking (sha256 : Bytes → Bytes) : CallBound := fun fields call =>
  sizeFits fields call &&
    match call, fields.writer with
    | .read (.block (some b)), some w =>
      match w.checkBlock sha256 b with
      | .ok none =>
        (List.range' fields.nextBlockIndex (b.index - fields.nextBlockIndex)).all fun i => w.written[i]? = some false
      | _ => true
    | _, _ => true

/-- No requested block is written. -/
def Lacking (fields : ReceiverFields) : Prop :=
  ∀ w redo, fields.writer = some w → fields.redoBlocks = some redo → ∀ i ∈ redo, w.written[i]? = some false

section Lacking

variable {sha256 : Bytes → Bytes} {phase phase' : ReceiverPhase} {fields fields' : ReceiverFields} {w : Writer}
  {b : Block} {message : Message}

/-- Writing a message requests nothing. -/
theorem Lacking.write (h : Lacking fields) {message : Any Message} {err : Option Err}
    (hwrite : ReceiverWrite phase fields phase' fields' message err) : Lacking fields' := by
  cases hwrite with
  | @redo _ index rest _ _ hredo _ =>
    intro w redo hw hsome i hi
    by_cases hrest : rest.length = 0
    · simp [hrest] at hsome
    · rw [if_neg hrest] at hsome
      obtain rfl := Option.some.inj hsome
      exact h w _ hw hredo i (List.mem_cons_of_mem index hi)
  | _ => exact h

/-- A message that is read without an error requests no written block. -/
theorem Lacking.read (h : Lacking fields) (horderly : Orderly phase fields)
    (hbound : gapLacking sha256 fields (.read message) = true)
    (hread : ReceiverAccept sha256 phase fields message phase' fields') : Lacking fields' := by
  cases hread with
  | header =>
    intro w redo _ hsome
    cases horderly with
    | initialized _ _ _ hredo => simp [hredo] at hsome
    | waiting hphase => simp at hphase
    | complete hphase => simp at hphase
  | @stored _ b w w' _ _ hwriter hwrite hadvance =>
    obtain ⟨_, -, -, hredo⟩ := horderly.of_needBlock
    obtain ⟨-, hmarks, -⟩ := Writer.writeBlock_marks hwrite
    have hcheck : w.checkBlock sha256 b = .ok none := by
      cases Writer.writeBlock_outcome hwrite with
      | written hcheck => exact hcheck
    intro last redo hw hsome i hi
    obtain rfl := Option.some.inj hw
    cases hadvance with
    | awaited => simp [hredo] at hsome
    | ahead hindex =>
      obtain rfl := Option.some.inj hsome
      have hrange := List.mem_range'_1.mp hi
      have hgap := (Bool.and_eq_true_iff.mp hbound).2
      simp only [hwriter, hcheck, List.all_eq_true, decide_eq_true_eq] at hgap
      rw [hmarks, List.getElem?_set_ne (by omega)]
      exact hgap i hi
  | again hwriter hrefused =>
    obtain ⟨rfl, hunwritten⟩ := Writer.writeBlock_badBlockChecksum hrefused
    intro w redo hw hsome i hi
    obtain rfl := Option.some.inj hw
    obtain rfl := Option.some.inj hsome
    rw [List.mem_singleton.mp hi]
    exact hunwritten
  | dataSent => exact h

/-- A request that is written names the first requested block. -/
theorem ReceiverWrite.of_redoBlock {i : ℕ} {err : Option Err}
    (h : ReceiverWrite phase fields phase' fields' (some (.redoBlock i)) err) :
    phase = .handleBlock ∧ ∃ rest, fields.redoBlocks = some (i :: rest) := by
  cases h with
  | redo _ hredo => exact ⟨rfl, _, hredo⟩

/-- A request that is written is for a block that exists. -/
theorem Orderly.redoBlock (h : Orderly phase fields) {i : ℕ} {err : Option Err}
    (hwrite : ReceiverWrite phase fields phase' fields' (some (.redoBlock i)) err) :
    ∃ w, fields.writer = some w ∧ i < w.blockCount := by
  obtain ⟨rfl, rest, hredo⟩ := hwrite.of_redoBlock
  obtain ⟨w, hloaded, -⟩ := h.of_handleBlock
  exact ⟨w, hloaded.writer, (hloaded.redo _ hredo).2 i List.mem_cons_self⟩

end Lacking

section Requests

variable {sha256 : Bytes → Bytes} {r : ReceiverSolo} {fields : ReceiverFields} {w : Writer} {b : Block}

/-- A receiver with requested blocks stays with its answers. -/
theorem ReceiverFields.afterAnswer_again {redo : List ℕ} (h : fields.redoBlocks = some redo) :
    fields.afterAnswer ReceiverPhase.handleBlock .needDataSent .needBlock = .ok .handleBlock := by
  simp [afterAnswer, h]

/-- The first of several requested blocks is asked for, and the answers go on. -/
theorem answerBlock_more {index : ℕ} {rest : List ℕ} (hlast : fields.lastBlock = none)
    (hredo : fields.redoBlocks = some (index :: rest)) (hrest : rest ≠ []) :
    ReceiverPhase.answerBlock fields =
      .ok (.handleBlock, { fields with redoBlocks := some rest }, some (.redoBlock index), none) := by
  have hlength : rest.length ≠ 0 := fun h => hrest (List.eq_nil_of_length_eq_zero h)
  have hresult := answerBlock_redo hlast hredo
    (by rw [if_neg hlength]; exact ReceiverFields.afterAnswer_again rfl)
  rwa [if_neg hlength] at hresult

/-- An answer is written without an error. -/
theorem execute_answer {phase : ReceiverPhase} {fields' : ReceiverFields} {message : Message}
    {calls : List (SideCall Message)} (hside : r.side = (.handleBlock, fields))
    (hanswer : ReceiverPhase.answerBlock fields = .ok (phase, fields', some message, none)) :
    execute (Solo.step (receiverMachine sha256).side) (ErrorFree (receiverMachine sha256).side Prod.snd sizeFits)
        (.write :: calls) r =
      execute (Solo.step (receiverMachine sha256).side) (ErrorFree (receiverMachine sha256).side Prod.snd sizeFits)
        calls ⟨(phase, fields'), r.history ++ [.wrote message]⟩ := by
  have hwrite : (receiverMachine sha256).write r.side.1 r.side.2 = .ok (phase, fields', some message, none) := by
    rw [hside]
    exact hanswer
  have hstep : r.step (receiverMachine sha256).side .write =
      some ⟨(phase, fields'), r.history ++ [.wrote message]⟩ :=
    Solo.step_write.mpr ⟨phase, fields', some message, none, hwrite, rfl⟩
  have hguard : ErrorFree (receiverMachine sha256).side Prod.snd sizeFits r .write := ⟨rfl, rfl⟩
  simp only [execute, if_pos hguard, hstep, Option.bind_some]

/-- Writing comes to every requested block, one after the other. -/
theorem execute_requests {i : ℕ} {before rest : List ℕ} (hside : r.side = (.handleBlock, fields))
    (hlast : fields.lastBlock = none) (hredo : fields.redoBlocks = some (before ++ i :: rest)) :
    ∃ q, execute (Solo.step (receiverMachine sha256).side) (ErrorFree (receiverMachine sha256).side Prod.snd sizeFits)
        (List.replicate before.length .write) r = some q ∧
      q.side = (.handleBlock, { fields with redoBlocks := some (i :: rest) }) := by
  induction before generalizing r fields with
  | nil =>
    refine ⟨r, rfl, hside.trans ?_⟩
    rw [List.nil_append] at hredo
    rw [← hredo]
  | cons first before ih =>
    have hanswer := answerBlock_more hlast hredo (List.append_ne_nil_of_right_ne_nil before (List.cons_ne_nil i rest))
    rw [List.length_cons, List.replicate_succ, execute_answer hside hanswer]
    exact @ih ⟨_, _⟩ { fields with redoBlocks := some (before ++ i :: rest) } rfl hlast rfl

/-- A block ahead of a gap is read and acknowledged, and then every block of the gap is asked
for. -/
theorem execute_gap (hside : r.side = (.needBlock, fields)) (hwriter : fields.writer = some w)
    {w' : Writer} (hwrite : w.writeBlock sha256 b = .ok (w', none)) {i : ℕ}
    (hi : fields.nextBlockIndex ≤ i) (hlt : i < b.index) :
    ∃ k q rest, execute (Solo.step (receiverMachine sha256).side)
        (ErrorFree (receiverMachine sha256).side Prod.snd sizeFits)
        (.read (.block (some b)) :: List.replicate k .write) r = some q ∧
      q.side.1 = .handleBlock ∧ q.side.2.writer = some w' ∧ q.side.2.lastBlock = none ∧
        q.side.2.redoBlocks = some (i :: rest) := by
  have hahead : b.index > fields.nextBlockIndex := by omega
  obtain ⟨rest, hgap⟩ : ∃ rest, List.range' fields.nextBlockIndex (b.index - fields.nextBlockIndex) =
      List.range' fields.nextBlockIndex (i - fields.nextBlockIndex) ++ i :: rest := by
    refine ⟨List.range' (i + 1) (b.index - i - 1), ?_⟩
    have hcount : b.index - fields.nextBlockIndex = i - fields.nextBlockIndex + (b.index - i - 1 + 1) := by omega
    have hstart : fields.nextBlockIndex + (i - fields.nextBlockIndex) = i := by omega
    rw [hcount, ← List.range'_append_1, hstart, List.range'_succ]
  let stored : ReceiverFields := { fields with
    writer := some w'
    redoBlocks := some (List.range' fields.nextBlockIndex (i - fields.nextBlockIndex) ++ i :: rest)
    lastBlock := some b }
  have hread : fields.readBlock sha256 (some b) = .ok (stored, none) := by
    simp only [ReceiverFields.readBlock, hwriter, hwrite, Call.ok_bind, reduceCtorEq, if_false,
      Option.isSome_none, Bool.false_eq_true, if_pos hahead, hgap]
    rfl
  have hmove : (receiverMachine sha256).read r.side.1 r.side.2 (.block (some b)) =
      .ok (.handleBlock, stored, none) := by
    rw [hside]
    change moveTo ReceiverPhase.handleBlock (fields.readBlock sha256 (some b)) = _
    rw [hread]
    rfl
  have hstep : r.step (receiverMachine sha256).side (.read (.block (some b))) =
      some ⟨(.handleBlock, stored), r.history ++ [.accepted (.block (some b))]⟩ :=
    Solo.step_read.mpr ⟨.handleBlock, stored, none, hmove, rfl⟩
  have hguard : ErrorFree (receiverMachine sha256).side Prod.snd sizeFits r (.read (.block (some b))) := by
    refine ⟨?_, rfl⟩
    have hside : (receiverMachine sha256).side.read r.side (.block (some b)) = .ok ((.handleBlock, stored), none) :=
      Machine.side_read_eq_ok.mpr hmove
    simp [Solo.Accepting, Solo.readsFine, hside]
  have hreceipt : ReceiverPhase.answerBlock stored = .ok (.handleBlock, { stored with lastBlock := none },
      some (.blockReceived b.index), none) :=
    answerBlock_received rfl (ReceiverFields.afterAnswer_again rfl)
  obtain ⟨q, hrun, hq⟩ := @execute_requests sha256 ⟨_, _⟩ { stored with lastBlock := none } i
    (List.range' fields.nextBlockIndex (i - fields.nextBlockIndex)) rest rfl rfl rfl
  refine ⟨(List.range' fields.nextBlockIndex (i - fields.nextBlockIndex)).length + 1, q, rest, ?_, ?_⟩
  · rw [execute, if_pos hguard, hstep, Option.bind_some, List.replicate_succ,
      execute_answer rfl hreceipt]
    exact hrun
  · rw [hq]
    exact ⟨rfl, rfl, rfl, rfl⟩

end Requests

/-- A block is read without an error only when it is awaited; one that passes the checks is then
written. -/
theorem ReceiverAccept.of_block {sha256 : Bytes → Bytes} {phase phase' : ReceiverPhase}
    {fields fields' : ReceiverFields} {w : Writer} {b : Block}
    (h : ReceiverAccept sha256 phase fields (.block (some b)) phase' fields')
    (hwriter : fields.writer = some w) (hcheck : w.checkBlock sha256 b = .ok none) :
    phase = .needBlock ∧ ∃ w', w.writeBlock sha256 b = .ok (w', none) := by
  cases h with
  | @stored _ _ _ w' _ _ hsome hwrite =>
    obtain rfl := Option.some.inj (hwriter.symm.trans hsome)
    exact ⟨rfl, w', hwrite⟩
  | again hsome hrefused =>
    obtain rfl := Option.some.inj (hwriter.symm.trans hsome)
    cases Writer.writeBlock_outcome hrefused with
    | refused hother => simp [hcheck] at hother
    | failed herr => cases herr

/-- In every run in which no read has returned an error and no block came ahead of a gap with a
written block, each request is for a block that exists and is not written at that moment.
Conversely, a block that is accepted ahead of a gap is followed by a request for every block of the
gap, written or not. -/
theorem requests_are_lacking (sha256 : Bytes → Bytes) (writerFactory : WriterFactory) :
    ∃ receiver, newReceiver sha256 writerFactory = .ok receiver ∧
      (∀ r, Reached (Solo.step Peer.side) (ErrorFree Peer.side Peer.world (gapLacking sha256)) ⟨receiver, []⟩ r →
        ∀ (side : Receiver) (i : ℕ), Peer.side.write r.side = .ok (side, some (.redoBlock i), none) →
          ∃ w : Writer, r.side.world.writer = some w ∧ i < w.blockCount ∧ w.written[i]? = some false) ∧
      ∀ r, Reached (Solo.step Peer.side) (ErrorFree Peer.side Peer.world sizeFits) ⟨receiver, []⟩ r →
        ∀ (side : Receiver) (b : Block) (w : Writer) (i : ℕ), r.side.world.writer = some w →
          w.checkBlock sha256 b = .ok none → Peer.side.read r.side (.block (some b)) = .ok (side, none) →
          r.side.world.nextBlockIndex ≤ i → i < b.index → w.written[i]? = some true →
          ∃ (k : ℕ) (q : Solo Receiver Message) (after : Receiver) (w' : Writer),
            execute (Solo.step Peer.side) (ErrorFree Peer.side Peer.world sizeFits)
              (.read (.block (some b)) :: List.replicate k .write) r = some q ∧
            Peer.side.write q.side = .ok (after, some (.redoBlock i), none) ∧
            q.side.world.writer = some w' ∧ w'.written[i]? = some true := by
  obtain ⟨client, hreceiver, hclient⟩ := newReceiver_ok sha256 writerFactory
  have ha := (receiver_implements sha256).embeds hclient
  refine ⟨_, hreceiver, ?_, ?_⟩
  · intro q hq side i hwrite
    obtain ⟨r, rfl, hr⟩ := errorFree_of_map ha (fun _ => rfl) ⟨(.initialized, .new writerFactory), []⟩ hq
    obtain ⟨horderly, hlacking⟩ : Orderly r.side.1 r.side.2 ∧ Lacking r.side.2 := by
      refine errorFree_invariant (fun phase fields => Orderly phase fields ∧ Lacking fields)
        ⟨orderly_new writerFactory, by intro w redo hw; cases hw⟩ ?_ ?_ hr
      · intro phase fields phase' fields' message err h hwrite
        exact ⟨h.1.write hwrite, h.2.write hwrite⟩
      · intro phase fields message phase' fields' h hbound hread
        exact ⟨h.1.read (Bool.and_eq_true_iff.mp hbound).1 hread, h.2.read h.1 hbound hread⟩
    obtain ⟨t, hside, -⟩ := ha.write_eq_ok.mp hwrite
    have hrequest := ReceiverPhase.write_cases (Machine.side_write_eq_ok.mp hside)
    obtain ⟨w, hwriter, hexists⟩ := horderly.redoBlock hrequest
    obtain ⟨-, rest, hredo⟩ := hrequest.of_redoBlock
    exact ⟨w, hwriter, hexists, hlacking w _ hwriter hredo i List.mem_cons_self⟩
  · intro q hq side b w i hwriter hcheck hread hi hlt hmark
    obtain ⟨r, rfl, hr⟩ := errorFree_of_map ha (fun _ => rfl) ⟨(.initialized, .new writerFactory), []⟩ hq
    obtain ⟨t, hside, -⟩ := ha.read_eq_ok.mp hread
    have haccept := (ReceiverPhase.read_cases (Machine.side_read_eq_ok.mp hside)).accept rfl
    obtain ⟨hphase, w', hwrite⟩ := haccept.of_block hwriter hcheck
    obtain ⟨-, hmarks, -⟩ := Writer.writeBlock_marks hwrite
    obtain ⟨k, q, rest, hrun, hq, hqwriter, hqlast, hqredo⟩ :=
      execute_gap (Prod.ext hphase rfl) hwriter hwrite hi hlt
    have hworld : ∀ s, ((receiverMachine sha256).peer client s).world = s.2 := fun _ => rfl
    have hmapped : execute (Solo.step Peer.side) (ErrorFree Peer.side Peer.world sizeFits)
        (.read (.block (some b)) :: List.replicate k .write) (r.map ((receiverMachine sha256).peer client)) =
        some (q.map ((receiverMachine sha256).peer client)) := by
      rw [execute_errorFree_map ha hworld, hrun]
      rfl
    have hkept : { q.side.2 with redoBlocks := if rest.length = 0 then none else some rest }.writer =
        some w' := hqwriter
    obtain ⟨next, hnext⟩ := ReceiverFields.afterAnswer_returns hkept
    have hrequest : (receiverMachine sha256).side.write q.side = .ok ((next,
        { q.side.2 with redoBlocks := if rest.length = 0 then none else some rest }), some (.redoBlock i), none) := by
      rw [Machine.side_write_eq_ok, hq]
      exact answerBlock_redo hqlast hqredo hnext
    refine ⟨k, _, _, w', hmapped, ha.write_eq_ok.mpr ⟨_, hrequest, rfl⟩, hqwriter, ?_⟩
    rw [hmarks, List.getElem?_set_ne (by omega), hmark]

/-- The calls of a receiver of three blocks that get block 0 between block 1 and block 2; all
checksums are empty. -/
def swappedCalls : List (SideCall Message) :=
  [.read (.header ⟨some ⟨[100]⟩, 3, 1⟩), .write, .read (.block (some ⟨1, [8], []⟩)), .write, .write,
    .read (.block (some ⟨0, [7], []⟩)), .write, .read (.block (some ⟨2, [9], []⟩)), .write]

/-- Up to the receipt of block 0, no block came ahead of a gap with a written block: the request is
for a block that the receiver lacks. -/
theorem requests_are_lacking_swapped :
    ∃ receiver, newReceiver (fun _ => []) (fun _ size => .ok (.make size)) = .ok receiver ∧
      ∃ (r : Solo Receiver Message) (side : Receiver) (w : Writer),
        Reached (Solo.step Peer.side) (ErrorFree Peer.side Peer.world (gapLacking fun _ => [])) ⟨receiver, []⟩ r ∧
        Peer.side.write r.side = .ok (side, some (.redoBlock 0), none) ∧ r.side.world.writer = some w ∧
        w.written[0]? = some false := by
  obtain ⟨receiver, hreceiver, hall, -⟩ := requests_are_lacking (fun _ => []) (fun _ size => .ok (.make size))
  obtain ⟨r, hr, hshown⟩ := Solo.exists_reached Peer.side (ErrorFree Peer.side Peer.world (gapLacking fun _ => []))
    hreceiver (swappedCalls.take 4)
    (fun r => (Peer.side.write r.side).toOption.map Prod.snd) (some (some (.redoBlock 0), none)) rfl
  cases hwrite : Peer.side.write r.side with
  | error value => simp [hwrite, Except.toOption] at hshown
  | ok written =>
    simp only [hwrite, Except.toOption, Option.map_some, Option.some.injEq] at hshown
    obtain ⟨side, message, err⟩ := written
    obtain ⟨rfl, rfl⟩ := Prod.mk.inj hshown
    obtain ⟨w, hwriter, -, hlacking⟩ := hall r hr side 0 hwrite
    exact ⟨receiver, hreceiver, r, side, w, hr, hwrite, hwriter, hlacking⟩

/-- After these calls, none of which returned an error, the receiver asks for block 1, which it
has. -/
theorem receiver_requests_written :
    ∃ receiver, newReceiver (fun _ => []) (fun _ size => .ok (.make size)) = .ok receiver ∧
      ∃ r, Reached (Solo.step Peer.side) (ErrorFree Peer.side Peer.world sizeFits) ⟨receiver, []⟩ r ∧
        r.history.length = swappedCalls.length ∧
        (match Peer.side.write r.side with
          | .ok (_, message, none) => message
          | _ => none) = some (.redoBlock 1) ∧
        (r.side.world.writer.bind fun w => w.written[1]?) = some true := by
  obtain ⟨client, hreceiver, -⟩ := newReceiver_ok (fun _ => []) (fun _ size => .ok (.make size))
  obtain ⟨r, hr, hshown⟩ := Solo.exists_reached Peer.side (ErrorFree Peer.side Peer.world sizeFits) hreceiver
    swappedCalls
    (fun r => (r.history.length, (match Peer.side.write r.side with
      | .ok (_, message, none) => message
      | _ => none), r.side.world.writer.bind fun w => w.written[1]?))
    (swappedCalls.length, some (.redoBlock 1), some true) rfl
  simp only [Prod.mk.injEq] at hshown
  exact ⟨_, hreceiver, r, hr, hshown.1, hshown.2.1, hshown.2.2⟩

end ProjektCore.Transfer
