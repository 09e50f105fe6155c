import ProjektCore.Programs.Rank

/-!
# Calm runs complete

When no calm step is left, both programs have closed their sessions, so that their loops have
returned without an error. Otherwise a session that is not closed has a broker with nothing to do,
and its reading goroutine has received every message of the connection. By the count of the messages
that create the channel both calls have returned. A loop that has not returned then waits for a
message, and every message has been read; but two sides that are not both done have a turn that
their loops take.
-/

namespace ProjektCore.Programs

open Foundation Protocol Session

section Session

variable {N : Type} {x : End} {s : SessionState N}

/-- A call that has returned has written the message that creates the channel. -/
theorem told_of_returned {call : ChannelCall N} (hcall : s.calls 0 = some call)
    (hphase : call.phase = .returned) :
    told x s = 1 := by
  rw [told, hcall, Option.any_some]
  cases x <;> simp [hasTold, hphase]

/-- The channel of a call that has returned. -/
theorem Shape.logAt_one (h : Shape x s) (hregistry : s.Registry) {call : ChannelCall N}
    (hcall : s.calls 0 = some call) (hphase : call.phase = .returned) :
    s.logAt 1 = some call.log := by
  have hid := (h.call call hcall).number (.inr (by rw [hphase]; rfl))
  rw [← hid, hregistry.logAt_eq hcall hphase]

/-- The protocol of every channel. -/
theorem Shape.protocolId_eq (h : Shape x s) {i : ℕ} {handle : ChannelHandle}
    (hhandle : s.handleAt i = some handle) : handle.protocolId = 1 := by
  simp only [SessionState.handleAt, SessionState.logAt, Option.map_eq_some_iff,
    Option.bind_eq_some_iff] at hhandle
  obtain ⟨log, ⟨k, hk, call, hcall, rfl⟩, rfl⟩ := hhandle
  obtain rfl := h.call_eq hcall
  exact (h.call call hcall).protocol

end Session

namespace Stack

variable {M : Type} {State : End → Type} {c : Setup M State} {p q : Stack c}

/-- No calm step is left. -/
def Ended (p : Stack c) : Prop := ∀ event, p.Calm event → p.step event = none

section Ended

/-- No goroutine of a session has a step left. -/
theorem Ended.session (h : p.Ended) {x : End} {e : SessionEvent c.Encoded}
    (hinner : isInner e = true) (hreceives : e.receives = []) (hstop : e ≠ .stopReader)
    (hintime : p.link.InTime (.act x e)) (horderly : Orderly p.link (.act x e)) :
    (p.link.sessions x).step c.protocols e = none := by
  have hnone := h (.session (.act x e)) ⟨hintime, horderly⟩
  have hstep : p.link.step c.protocols (.act x e) = p.link.act c.protocols x e := by
    cases e with
    | receive => cases hreceives
    | stopReader => exact absurd rfl hstop
    | _ => rfl
  simp only [step, isInnerLink, hinner, if_true, Option.map_eq_none_iff, hstep] at hnone
  simp only [Link.act, Option.bind_eq_bind, Option.bind_eq_none_iff] at hnone
  by_contra hsome
  obtain ⟨s, hs⟩ := Option.ne_none_iff_exists'.mp hsome
  cases hnone s hs

variable (h : p.Ended) (hp : p.Prompt) (ho : p.Opens)

include h in
/-- Both programs have created their channel. -/
theorem Ended.call (x : End) : ∃ call, (p.link.sessions x).calls 0 = some call := by
  have hnone := h (.call x) trivial
  cases hcall : (p.link.sessions x).calls 0 with
  | some call => exact ⟨call, rfl⟩
  | none => cases x <;> simp [step, Link.step, Link.act, Setup.channelCall, SessionState.step, hcall] at hnone

include h hp ho in
/-- The broker of a session that is not closed has nothing to do. -/
theorem Ended.broker {x : End} (hopen : (p.link.sessions x).isDone = false) :
    (p.link.sessions x).broker = .ready := by
  have hpass := h.session (x := x) (e := .pass) rfl rfl (by simp) trivial rfl
  have hshape := (ho.meets.shape x).broker
  unfold BrokerShape at hshape
  cases hbroker : (p.link.sessions x).broker with
  | ready => rfl
  | opening k i protocolId =>
    rw [hbroker] at hshape
    obtain ⟨rfl, -, -, hawaits⟩ := hshape
    obtain ⟨call, hcall⟩ := h.call x
    rw [hcall, Option.any_some, awaitsOpen, Bool.and_eq_true, decide_eq_true_eq,
      decide_eq_true_eq] at hawaits
    simp [SessionState.step, hbroker, hcall, hawaits.2] at hpass
  | delivering k message =>
    obtain ⟨i, hi⟩ := (hp.delivers x).registry.delivering k message hbroker
    obtain ⟨call, hcall, -⟩ := (hp.delivers x).registry.registered i k hi
    obtain rfl := (ho.meets.shape x).call_eq hcall
    have hexited := ((ho.meets.shape x).call call hcall).exited
    simp [SessionState.step, hbroker, hcall, hexited] at hpass
  | panicked =>
    rw [hbroker] at hshape
    exact hshape.elim
  | stopped =>
    rw [hbroker] at hshape
    exact absurd (hshape.symm.trans hopen) (by decide)

include h hp ho in
/-- A call that has not returned waits for the peer. -/
theorem Ended.phase {x : End} {call : ChannelCall c.Encoded}
    (hcall : (p.link.sessions x).calls 0 = some call) (hphase : call.phase ≠ .returned) :
    call.phase = .waiting ∧ hasGot x call = false := by
  have hopen : (p.link.sessions x).isDone = false := by
    by_contra hdone
    exact hphase (ho.returned hp (Bool.eq_true_of_not_eq_false hdone) call hcall)
  have hready := h.broker hp ho hopen
  have hshape := (ho.meets.shape x).call call hcall
  cases hother : call.phase with
  | registering =>
    have hnone := h.session (x := x) (e := .takeWait 0) rfl rfl (by simp) trivial rfl
    cases hkind : call.kind <;> simp [SessionState.step, hcall, hready, hother, hkind, Broker.isReady] at hnone
  | writing =>
    have hnone := h.session (x := x) (e := .writeCall 0 none) rfl rfl (by simp) trivial rfl
    simp [SessionState.step, hcall, hother] at hnone
  | waiting =>
    refine ⟨rfl, ?_⟩
    cases x with
    | initiator =>
      have hkind : call.kind = .opener := hshape.kind
      have hnone := h.session (x := .initiator) (e := .proceed 0) rfl rfl (by simp) trivial rfl
      simpa [SessionState.step, hcall, hother, hkind, hasGot] using hnone
    | responder =>
      rw [hasGot, hother]
      rfl
  | joining =>
    have hnone := h.session (x := x) (e := .takeChannel 0) rfl rfl (by simp) trivial rfl
    simp [SessionState.step, hcall, hready, hother, Broker.isReady] at hnone
  | returned => exact absurd hother hphase
  | failed err => exact absurd hother (hshape.failed err)

include h hp ho in
/-- The reading goroutine of a session that is not closed has received every message, and the broker
has taken it. -/
theorem Ended.received {x : End} (hopen : (p.link.sessions x).isDone = false) :
    p.link.incoming x = [] ∧ isHandshake (p.link.sessions x).reader = false ∧
      ∀ data, (p.link.sessions x).reader ≠ .data data := by
  have hready := h.broker hp ho hopen
  obtain ⟨call, hcall⟩ := h.call x
  have htokens := ho.meets.tokens x
  have hle := told_le_one x.peer (p.link.sessions x.peer)
  -- a call that has not returned has not taken the message of the peer
  have hgotten : call.phase ≠ .returned → gotten x (p.link.sessions x) =
      (isHandshake (p.link.sessions x).reader).toNat := by
    intro hphase
    rw [gotten, hready, hcall, Option.any_some, (h.phase hp ho hcall hphase).2]
    rfl
  have htake (hintime : p.link.InTime (.act x .takeMessage)) (horderly : Orderly p.link (.act x .takeMessage)) :
      (p.link.sessions x).step c.protocols .takeMessage = none :=
    h.session rfl rfl (by simp) hintime horderly
  cases hreader : (p.link.sessions x).reader with
  | reading =>
    refine ⟨?_, rfl, fun data hdata => by cases hdata⟩
    have hnone := h (.session (.deliver x)) ⟨trivial, rfl⟩
    cases hincoming : p.link.incoming x with
    | nil => rfl
    | cons message rest => simp [step, isInnerLink, Link.step, hincoming, Link.act,
                             SessionState.step, hreader] at hnone
  | stopped =>
    refine ⟨?_, rfl, fun data hdata => by cases hdata⟩
    rcases ho.meets.stopped x hreader with hdone | ⟨hnone, -⟩
    · cases hdone.symm.trans hopen
    · exact hnone
  | data data =>
    exfalso
    have hid := (ho.meets.shape x).reader
    rw [hreader] at hid
    have hid : data.channelId = 1 := hid
    by_cases hphase : call.phase = .returned
    · have hhandle : (p.link.sessions x).handleAt 1 = some call.handle := by
        rw [SessionState.handleAt,
          (ho.meets.shape x).logAt_one (hp.delivers x).registry hcall hphase]
        rfl
      have hsame : ∀ c' ∈ (p.link.sessions x.peer).handleAt 1, c'.protocolId = call.handle.protocolId := by
        intro c' hc'
        rw [(ho.meets.shape x.peer).protocolId_eq hc', (ho.meets.shape x).protocolId_eq hhandle]
      have hintime : p.link.InTime (.act x .takeMessage) := by
        simp only [Link.InTime, hreader, hid]
        exact ⟨call.handle, hhandle, hsame⟩
      have hnone := htake hintime (by simp [Orderly, isOrderly, hreader])
      simp [SessionState.step, hready, hreader, Broker.isReady] at hnone
    · obtain ⟨other, hother, hreturned⟩ :=
        ho.meets.returned_of_data (hp.delivers x) (hp.delivers x.peer).registry (.inl ⟨data, hreader⟩)
      rw [hgotten hphase, hreader, ho.meets.behind x data hreader,
        told_of_returned hother hreturned] at htokens
      cases htokens
  | inOpen i protocolId =>
    exfalso
    have hheld := (ho.meets.shape x).reader
    rw [hreader] at hheld
    obtain ⟨rfl, -, rfl⟩ := hheld
    -- the call of the responder has not taken this message
    have hphase : call.phase ≠ .returned := by
      intro hreturned
      rw [gotten, hreader, hcall, Option.any_some, hasGot, hreturned] at htokens
      simp only [isHandshake, isTold, Bool.toNat_true] at htokens
      omega
    have hwaiting := (h.phase hp ho hcall hphase).1
    have hkind : call.kind = .acceptor := ((ho.meets.shape .responder).call call hcall).kind
    have hopens : ((p.link.sessions .responder).opens 1).isSome = true := by
      rw [(ho.meets.shape .responder).opens, hcall]
      simp [opensOf, awaitsOpen, hkind, hwaiting, onlyAt]
    have hnone := htake (by simp [Link.InTime, hreader]) (by simp [Orderly, isOrderly, hreader, hopens])
    simp [SessionState.step, hready, hreader, Broker.isReady] at hnone
  | inAccept i =>
    have hnone := htake (by simp [Link.InTime, hreader]) (by simp [Orderly, isOrderly, hreader])
    simp [SessionState.step, hready, hreader, Broker.isReady] at hnone

include h hp ho in
/-- The peer of a call that has not returned has not written the message that creates the
channel. -/
theorem Ended.untold {x : End} {call : ChannelCall c.Encoded}
    (hcall : (p.link.sessions x).calls 0 = some call) (hphase : call.phase ≠ .returned) :
    told x.peer (p.link.sessions x.peer) = 0 := by
  have hopen : (p.link.sessions x).isDone = false := by
    by_contra hdone
    exact hphase (ho.returned hp (Bool.eq_true_of_not_eq_false hdone) call hcall)
  obtain ⟨hincoming, hreader, -⟩ := h.received hp ho hopen
  rw [← ho.meets.tokens x, hincoming, gotten, hreader, h.broker hp ho hopen, hcall, Option.any_some,
    (h.phase hp ho hcall hphase).2]
  rfl

include h hp ho in
/-- Both calls have returned: an initiator that waits has written its message. -/
theorem Ended.returned {x : End} {call : ChannelCall c.Encoded}
    (hcall : (p.link.sessions x).calls 0 = some call) :
    call.phase = .returned := by
  by_contra hphase
  have huntold := h.untold hp ho hcall hphase
  obtain ⟨other, hother⟩ := h.call x.peer
  have hphase' : other.phase ≠ .returned := by
    intro hreturned
    cases (told_of_returned hother hreturned).symm.trans huntold
  have huntold' := h.untold hp ho hother hphase'
  rw [End.peer_peer] at huntold'
  cases x with
  | initiator =>
    have hwaiting := (h.phase hp ho hcall hphase).1
    simp [told, hcall, hasTold, hwaiting] at huntold'
  | responder =>
    have hwaiting := (h.phase hp ho hother hphase').1
    simp only [End.peer] at hother huntold
    simp [told, hother, hasTold, hwaiting] at huntold

include h hp ho in
/-- Both loops have been started. -/
theorem Ended.loop (x : End) : ∃ l, p.loops x = some l := by
  obtain ⟨call, hcall⟩ := h.call x
  have hnone := h (.run x) trivial
  cases hl : p.loops x with
  | some l => exact ⟨l, rfl⟩
  | none => simp [step, hl, hcall, h.returned hp ho hcall] at hnone

section Waiting

variable {bound : ℕ} {turns : List Turn} {n : Pair (State .initiator) (State .responder) M}

include h hp ho in
/-- No loop of a session that is not closed has returned or passes on a message. -/
theorem Ended.deciding (hc : Dependable c bound) (hn : pairAfter c turns = some n)
    (hfollows : p.Follows n) {x : End} (hopen : (p.link.sessions x).isDone = false)
    {l : Loop (State x) M} (hl : p.loops x = some l) :
    l.phase = .deciding := by
  have hfine := hp.fine x l hl
  obtain ⟨call, hcall⟩ := h.call x
  have hreturned := h.returned hp ho hcall
  cases hphase : l.phase with
  | deciding => rfl
  | sending message =>
    exfalso
    obtain ⟨m, rfl, hencodable⟩ := hfine.sending message hphase
    have hnone := h (.write x none) rfl
    obtain ⟨data, hwrap⟩ :=
      hc.wraps turns n x.peer hn ⟨m, hencodable⟩ (hfollows.sending hp hl hphase) call.handle
    have hclosed := ((ho.meets.shape x).call call hcall).closed
    simp [step, hl, hcall, hphase, hencodable, Link.step, Link.act, SessionState.step, hreturned,
      hclosed, hwrap, Loop.step] at hnone
  | returned err =>
    exfalso
    have hfailed := hfine.phase
    rw [hphase] at hfailed
    cases err with
    | some err => cases hfailed
    | none =>
      have hnone := h (.close x) trivial
      simp [step, hl, hphase, Link.step, Link.act, SessionState.step, hopen] at hnone
  | panicked value =>
    have hfailed := hfine.phase
    rw [hphase] at hfailed
    cases hfailed

include h hp ho in
/-- The loop of a session that is not closed waits for a message: its side neither is done nor
writes, and all messages of its channel have been read. -/
theorem Ended.waits (hc : Dependable c bound) (hn : pairAfter c turns = some n)
    (hfollows : p.Follows n) {x : End} (hopen : (p.link.sessions x).isDone = false)
    {l : Loop (State x) M} (hl : p.loops x = some l) {call : ChannelCall c.Encoded}
    (hcall : (p.link.sessions x).calls 0 = some call) :
    (c.side x).isDone l.side = false ∧ (c.side x).mustWrite l.side = false ∧ (c.side x).canWrite l.side = false ∧
      l.reader = .reading ∧ call.queue = [] := by
  have hfine := hp.fine x l hl
  have hphase := h.deciding hp ho hc hn hfollows hopen hl
  have hdone : (c.side x).isDone l.side = false := by
    have hnone := h (.iterate x .finish) trivial
    simpa [step, hl, isInnerLoop, Loop.step, hphase] using hnone
  have hwrite : l.mayWrite (c.side x) = false := by
    have hnone := h (.iterate x .write) trivial
    simpa [step, hl, isInnerLoop, Loop.step, hphase] using hnone
  have hmust : (c.side x).mustWrite l.side = false := by
    simp only [Loop.mayWrite, hdone, Bool.not_false, Bool.true_and, Bool.or_eq_false_iff] at hwrite
    exact hwrite.1
  have hreader : l.reader = .reading := by
    cases hother : l.reader with
    | reading => rfl
    | offering message =>
      have hnone := h (.iterate x .read) trivial
      simp [step, hl, isInnerLoop, Loop.step, hphase, hother, Loop.mayTake, hdone, hmust] at hnone
    | stopped => cases hphase.symm.trans (hfine.stopped hother)
  refine ⟨hdone, hmust, ?_, hreader, ?_⟩
  · simpa [Loop.mayWrite, hdone, hmust, Loop.isReady, hreader, hfine.errs] using hwrite
  · have hnone := h (.read x) trivial
    have hexited := ((ho.meets.shape x).call call hcall).exited
    cases hqueue : call.queue with
    | nil => rfl
    | cons message rest =>
      simp [step, hl, hcall, hqueue, Link.step, Link.act, SessionState.step, h.returned hp ho hcall,
        hexited, Loop.step, hreader] at hnone

include h hp ho in
/-- What the channel of a session that is not closed has read is what the peer has written. -/
theorem Ended.read_eq {x : End} (hopen : (p.link.sessions x).isDone = false)
    {call other : ChannelCall c.Encoded} (hcall : (p.link.sessions x).calls 0 = some call)
    (hother : (p.link.sessions x.peer).calls 0 = some other) (hqueue : call.queue = []) :
    call.read = other.written := by
  obtain ⟨hincoming, -, hreader⟩ := h.received hp ho hopen
  have hready := h.broker hp ho hopen
  have hlog := (ho.meets.shape x).logAt_one (hp.delivers x).registry hcall (h.returned hp ho hcall)
  have hlog' := (ho.meets.shape x.peer).logAt_one (hp.delivers x.peer).registry hother (h.returned hp ho hother)
  obtain ⟨taken, rest, hwritten, hholds, hcarries, -⟩ := (hp.delivers x).remains 1
  have htransit : p.link.transit x 1 = [] := by
    rw [Link.transit, SessionState.heldFor_nil hreader, hincoming]
    rfl
  have hrest : rest = [] := by
    rw [Link.Carries, htransit] at hcarries
    exact List.forall₂_nil_right_iff.mp hcarries
  have hlive : (p.link.sessions x).Live 1 := by
    refine ⟨by rw [hready]; simp, fun log hsome => ?_⟩
    obtain rfl := Option.some.inj (hlog.symm.trans hsome)
    exact ((ho.meets.shape x).call call hcall).exited
  have htaken : call.read = taken := by
    have hkept := hholds.live hlive
    rw [SessionState.kept, hlog, SessionState.deliveringTo_nil (by rw [hready]; simp)] at hkept
    simpa [ChannelCall.log, hqueue] using hkept
  rw [SessionState.written, hlog', hrest, List.append_nil] at hwritten
  exact htaken.trans hwritten.symm

include h hp ho in
/-- A loop has passed on all messages of its side. -/
theorem Ended.wrote_eq (hc : Dependable c bound) (hn : pairAfter c turns = some n)
    (hfollows : p.Follows n) {x : End} {call : ChannelCall c.Encoded}
    (hcall : (p.link.sessions x).calls 0 = some call) :
    p.wrote x = call.written.map Subtype.val := by
  obtain ⟨l, hl⟩ := h.loop hp ho x
  obtain ⟨call', hcall', -, -, -, hsent⟩ := hp.sound.call_of_loop hl
  obtain rfl := Option.some.inj (hcall'.symm.trans hcall)
  have hpending : l.phase.pending = [] := by
    cases hdone : (p.link.sessions x).isDone with
    | false => rw [h.deciding hp ho hc hn hfollows hdone hl]; rfl
    | true =>
      obtain ⟨l', hl', hreturned⟩ := ho.closing x hdone
      obtain rfl := Option.some.inj (hl.symm.trans hl')
      rw [hreturned]
      rfl
  rw [Stack.wrote_eq hl, (ordered_of_reached (hp.sound.loop x l hl)).written, hpending,
    List.append_nil, hsent (hp.fine x l hl).phase]

include h hp ho in
/-- No loop takes a turn of the pair. -/
theorem Ended.no_turn (hc : Dependable c bound) (hn : pairAfter c turns = some n)
    (hfollows : p.Follows n) (x : End) :
    n.loopTakes (c.side .initiator) (c.side .responder) (writeTurn x) = false ∧
      n.loopTakes (c.side .initiator) (c.side .responder) (readTurn x) = false := by
  obtain ⟨l, hl⟩ := h.loop hp ho x
  have hside : sideAt n x = l.side := (hfollows.side x).trans (sideOf_eq hl)
  rw [loopTakes_writeTurn, loopTakes_readTurn, hside]
  cases hdone : (p.link.sessions x).isDone with
  | true =>
    -- a loop that has returned has a side that is done
    obtain ⟨l', hl', hreturned⟩ := ho.closing x hdone
    obtain rfl := Option.some.inj (hl.symm.trans hl')
    have hholds := phaseHolds_of_reached (hp.sound.loop x l hl)
    unfold PhaseHolds at hholds
    rw [hreturned] at hholds
    rw [hholds]
    exact ⟨rfl, rfl⟩
  | false =>
    obtain ⟨call, hcall⟩ := h.call x
    obtain ⟨other, hother⟩ := h.call x.peer
    obtain ⟨-, hmust, hcan, hreader, hqueue⟩ := h.waits hp ho hc hn hfollows hdone hl hcall
    have hnothing : queueAt n x = [] := by
      obtain ⟨call', hcall', -, harrived, -⟩ := hp.sound.call_of_loop hl
      obtain rfl := Option.some.inj (hcall'.symm.trans hcall)
      rw [hfollows.queue, took_eq hl, (ordered_of_reached (hp.sound.loop x l hl)).awaited hreader,
        ← harrived, h.wrote_eq hp ho hc hn hfollows hother,
        h.read_eq hp ho hdone hcall hother hqueue, List.drop_length]
    rw [hmust, hcan, hnothing]
    simp

include h hp ho in
/-- When no calm step is left, both programs have closed their sessions. -/
theorem Ended.closed (hc : Dependable c bound) (hn : pairAfter c turns = some n)
    (hfollows : p.Follows n) (x : End) :
    (p.link.sessions x).isDone = true := by
  by_contra hopen
  rw [Bool.not_eq_true] at hopen
  obtain ⟨l, hl⟩ := h.loop hp ho x
  obtain ⟨call, hcall⟩ := h.call x
  obtain ⟨hside, -⟩ := h.waits hp ho hc hn hfollows hopen hl hcall
  rw [← sideOf_eq hl, ← hfollows.side x] at hside
  obtain ⟨turn, hturn⟩ := hc.enabled turns n hn ⟨x, hside⟩
  have hleft := h.no_turn hp ho hc hn hfollows .initiator
  have hright := h.no_turn hp ho hc hn hfollows .responder
  cases turn with
  | leftWrites => cases hturn.symm.trans hleft.1
  | leftReads => cases hturn.symm.trans hleft.2
  | rightWrites => cases hturn.symm.trans hright.1
  | rightReads => cases hturn.symm.trans hright.2

end Waiting

end Ended

/-- What holds in every state of a calm run of two programs that speak the protocol with number one:
the pair of their sides has made their turns, and every step has lowered the rank. -/
theorem calm_run {bound : ℕ} (hc : Dependable c bound) (hprotocol : c.protocolId = 1)
    {events : List (StackEvent c)} (h : execute step Calm events (new : Stack c) = some p) :
    p.Prompt ∧ p.Opens ∧ ∃ turns n, pairAfter c turns = some n ∧ p.Follows n ∧
      events.length + p.rank ≤ 10 * turns.length + 38 := by
  refine execute_invariant (fun events p => p.Prompt ∧ p.Opens ∧ ∃ turns n, pairAfter c turns = some n ∧
    p.Follows n ∧ events.length + p.rank ≤ 10 * turns.length + 38) ?_ ?_ h
  · exact ⟨prompt_new, opens_new, [], pairStart c, rfl, follows_new, le_rfl⟩
  · rintro events s event t - ⟨hp, ho, turns, n, hn, hfollows, hrank⟩ hcalm hstep
    obtain ⟨hp', n', hn', hfollows'⟩ := hp.step hc hfollows hn hcalm hstep
    refine ⟨hp', ho.step hprotocol hp hcalm hstep, turns ++ event.turns, n', hn', hfollows', ?_⟩
    have hless := rank_step ho hstep
    rw [List.length_append, List.length_append, List.length_singleton]
    omega

/-- A calm run of two programs ends, no loop returns an error or panics, and at its end both
programs have closed their sessions, since their loops have returned. -/
theorem calm_run_completes {bound : ℕ} (hc : Dependable c bound) (hprotocol : c.protocolId = 1)
    {events : List (StackEvent c)} (h : execute step Calm events (new : Stack c) = some p) :
    events.length ≤ 10 * bound + 38 ∧ (∀ x l, p.loops x = some l → hasFailed l.phase = false) ∧
      (p.Ended → ∀ x, (p.link.sessions x).isDone = true ∧ ∃ l, p.loops x = some l ∧ l.phase = .returned none) := by
  obtain ⟨hp, ho, turns, n, hn, hfollows, hrank⟩ := calm_run hc hprotocol h
  have hturns := hc.bounded turns n hn
  refine ⟨by omega, fun x l hl => (hp.fine x l hl).phase, fun hended x => ?_⟩
  have hclosed := hended.closed hp ho hc hn hfollows x
  exact ⟨hclosed, ho.closing x hclosed⟩

end Stack

end ProjektCore.Programs
