import ProjektCore.Programs.Meeting

/-!
# Calm runs end

Each part of the two programs has a rank that says how many steps are left to it: a message that is
still to be sent, on its way, held, queued or offered costs a step at each of these places, and so
do the phases of the calls and the loops. Every step of a calm run lowers the rank, except for a
call of a side of the protocol, which may write a new message. Since the number of these calls is
bounded, so is the length of a calm run.
-/

namespace ProjektCore.Programs

open Foundation Protocol Session

variable {N : Type} {protocols : Protocols N}

/-- The steps that a call has left. -/
def phaseRank : CallKind → CallPhase → ℕ
  | _, .registering => 13
  | .opener, .writing => 12
  | .opener, .waiting => 2
  | .acceptor, .waiting => 12
  | .acceptor, .writing => 11
  | _, .joining => 1
  | _, .returned | _, .failed _ => 0

/-- The steps that a call and its queue have left. -/
def callRank : Option (ChannelCall N) → ℕ
  | none => 14
  | some call => phaseRank call.kind call.phase + 2 * call.queue.length

/-- The steps that a broker has left. -/
def brokerRank : Broker N → ℕ
  | .ready => 1
  | .opening .. | .delivering .. => 4
  | .panicked | .stopped => 0

/-- The steps that a reading goroutine has left. -/
def readerRank : Reader → ℕ
  | .reading => 1
  | .data _ | .inOpen .. | .inAccept _ => 6
  | .stopped => 0

/-- The steps that a session has left. -/
def sessionRank (s : SessionState N) : ℕ :=
  callRank (s.calls 0) + brokerRank s.broker + readerRank s.reader + (!s.isDone).toNat

section Session

variable {x : End} {s t : SessionState N}

/-- The rank of a reading goroutine that has received a message. -/
theorem readerRank_le (reader : Reader) : readerRank reader ≤ 6 := by
  cases reader <;> simp [readerRank]

/-- The rank of a broker. -/
theorem brokerRank_le (broker : Broker N) : brokerRank broker ≤ 4 := by
  cases broker <;> simp [brokerRank]

/-- A session whose call is replaced. -/
theorem sessionRank_setCall (s : SessionState N) (call : ChannelCall N) :
    sessionRank (s.setCall 0 call) =
      callRank (some call) + brokerRank s.broker + readerRank s.reader + (!s.isDone).toNat := by
  rw [sessionRank, SessionState.setCall_self]
  rfl

/-- What the broker keeps when it takes what the reading goroutine held. -/
structure TakesHeld (s t : SessionState N) : Prop where
  calls : callRank (t.calls 0) = callRank (s.calls 0)
  reader : t.reader = s.reader
  isDone : t.isDone = s.isDone

/-- Data. -/
theorem takesHeld_inData (s : SessionState N) (data : Data) :
    TakesHeld s (s.inData protocols data) := by
  unfold SessionState.inData
  split
  · exact ⟨rfl, rfl, rfl⟩
  · split
    · exact ⟨rfl, rfl, rfl⟩
    · split <;> exact ⟨rfl, rfl, rfl⟩

/-- A message that opens a channel. -/
theorem takesHeld_inOpen (s : SessionState N) (i : ℕ) (p : ℤ) : TakesHeld s (s.inOpen i p) := by
  unfold SessionState.inOpen
  split
  · exact ⟨rfl, rfl, rfl⟩
  · split <;> exact ⟨rfl, rfl, rfl⟩

/-- A message that accepts a channel. -/
theorem takesHeld_inAccept (s : SessionState N) (i : ℕ) : TakesHeld s (s.inAccept i) := by
  unfold SessionState.inAccept
  split
  · exact ⟨rfl, rfl, rfl⟩
  · split
    · exact ⟨rfl, rfl, rfl⟩
    · next k _ =>
      split
      · exact ⟨rfl, rfl, rfl⟩
      · next call hcall =>
        refine ⟨?_, rfl, rfl⟩
        by_cases hk : 0 = k
        · subst hk
          simp only [SessionState.setCall, Function.update_self, hcall]
          rfl
        · simp only [SessionState.setCall, Function.update_of_ne hk]

/-- The broker takes what the reading goroutine holds. -/
theorem sessionRank_takeMessage (h : s.step protocols .takeMessage = some t) :
    sessionRank t + 1 ≤ sessionRank s := by
  simp only [SessionState.step, Option.ite_none_right_eq_some, Broker.isReady_iff] at h
  obtain ⟨hready, h⟩ := h
  have hbound (htakes : TakesHeld { s with reader := .reading } t) (hheld : readerRank s.reader = 6) :
      sessionRank t + 1 ≤ sessionRank s := by
    have hbroker := brokerRank_le t.broker
    have hbefore : brokerRank s.broker = 1 := by rw [hready]; rfl
    have hreader : readerRank t.reader = 1 := by rw [htakes.reader]; rfl
    rw [sessionRank, sessionRank, htakes.calls, hreader, htakes.isDone, hheld, hbefore]
    simp only
    omega
  split at h
  · next data hreader => exact hbound (Option.some.inj h ▸ takesHeld_inData _ data) (by rw [hreader]; rfl)
  · next i p hreader => exact hbound (Option.some.inj h ▸ takesHeld_inOpen _ i p) (by rw [hreader]; rfl)
  · next i hreader => exact hbound (Option.some.inj h ▸ takesHeld_inAccept _ i) (by rw [hreader]; rfl)
  all_goals cases h

/-- The broker registers the call. -/
theorem sessionRank_takeWait (hshape : Shape x s) {k : ℕ}
    (h : s.step protocols (.takeWait k) = some t) :
    sessionRank t + 1 ≤ sessionRank s := by
  simp only [SessionState.step, Option.bind_eq_bind, Option.bind_eq_some_iff,
    Option.ite_none_right_eq_some, Broker.isReady_iff] at h
  obtain ⟨call, hcall, ⟨hready, hphase⟩, h⟩ := h
  obtain rfl := hshape.call_eq hcall
  have hbefore : sessionRank s = 13 + 2 * call.queue.length + 1 + readerRank s.reader + (!s.isDone).toNat := by
    rw [sessionRank, hcall, callRank, hphase, hready]
    cases call.kind <;> rfl
  have hpanic : sessionRank { s with broker := .panicked } + 1 ≤ sessionRank s := by
    rw [sessionRank, sessionRank, hready]
    simp only [brokerRank]
    omega
  split at h
  · next hkind =>
    unfold SessionState.waitAccept at h
    split at h
    · exact Option.some.inj h ▸ hpanic
    · obtain rfl := Option.some.inj h
      rw [hbefore]
      simp only [sessionRank, SessionState.setCall, Function.update_self, callRank, hkind, hready,
        phaseRank, brokerRank]
      omega
  · next hkind =>
    unfold SessionState.waitOpen at h
    split at h
    · exact Option.some.inj h ▸ hpanic
    · obtain rfl := Option.some.inj h
      rw [hbefore]
      simp only [sessionRank, SessionState.setCall, Function.update_self, callRank, hkind, hready,
        phaseRank, brokerRank]
      omega

/-- The one that the broker hands something to receives it. -/
theorem sessionRank_pass (hshape : Shape x s) (h : s.step protocols .pass = some t) :
    sessionRank t + 1 ≤ sessionRank s := by
  simp only [SessionState.step] at h
  split at h
  · next k i p hbroker =>
    simp only [Option.bind_eq_bind, Option.bind_eq_some_iff, Option.ite_none_right_eq_some,
      Option.some.injEq] at h
    obtain ⟨call, hcall, hphase, rfl⟩ := h
    obtain rfl := hshape.call_eq hcall
    have hopening := hshape.broker
    unfold BrokerShape at hopening
    rw [hbroker] at hopening
    have hawaits := hopening.2.2.2
    rw [hcall, Option.any_some, awaitsOpen, Bool.and_eq_true, decide_eq_true_eq] at hawaits
    simp only [sessionRank, SessionState.opened, SessionState.setCall, Function.update_self,
      callRank, hcall, hbroker, hphase, hawaits.1, phaseRank, brokerRank]
    omega
  · next k message hbroker =>
    simp only [Option.bind_eq_bind, Option.bind_eq_some_iff, Option.ite_none_left_eq_some,
      Option.some.injEq] at h
    obtain ⟨call, hcall, -, rfl⟩ := h
    obtain rfl := hshape.call_eq hcall
    simp only [sessionRank, SessionState.setCall, Function.update_self, callRank, hcall, hbroker,
      brokerRank, List.length_append, List.length_singleton]
    omega
  all_goals cases h

/-- Every step of the goroutines of a session lowers its rank, up to the messages that it receives
and writes. -/
theorem sessionRank_inner (hshape : Shape x s) {e : SessionEvent N} (hinner : isInner e = true)
    (h : s.step protocols e = some t) :
    sessionRank t + 8 * (s.sends protocols e).length + 1 ≤ sessionRank s + 8 * e.receives.length := by
  cases e with
  | openChannel | acceptChannel | write | read | close | exit | closeSession => cases hinner
  | takeMessage => exact sessionRank_takeMessage h
  | takeWait k => exact sessionRank_takeWait hshape h
  | pass => exact sessionRank_pass hshape h
  | takeChannel k =>
    simp only [SessionState.step, Option.bind_eq_bind, Option.bind_eq_some_iff,
      Option.ite_none_right_eq_some, Broker.isReady_iff, Option.some.injEq] at h
    obtain ⟨call, hcall, ⟨hready, hphase⟩, rfl⟩ := h
    obtain rfl := hshape.call_eq hcall
    unfold SessionState.register
    split
    · simp only [sessionRank, hready, brokerRank, SessionState.sends, List.length_nil]
      omega
    · simp only [sessionRank, SessionState.setCall, Function.update_self, callRank, hcall, hphase,
        phaseRank, SessionState.sends, List.length_nil]
      omega
  | writeCall k failure =>
    simp only [SessionState.step, Option.bind_eq_bind, Option.bind_eq_some_iff,
      Option.ite_none_right_eq_some] at h
    obtain ⟨call, hcall, hphase, h⟩ := h
    obtain rfl := hshape.call_eq hcall
    cases failure with
    | some err =>
      obtain rfl := Option.some.inj h
      simp only [sessionRank, SessionState.setCall, Function.update_self, callRank, hcall, hphase,
        SessionState.sends, List.length_nil]
      cases call.kind <;> simp only [phaseRank] <;> omega
    | none =>
      obtain rfl := Option.some.inj h
      simp only [sessionRank, SessionState.setCall, Function.update_self, callRank, hcall, hphase,
        SessionState.sends]
      cases call.kind <;> simp only [phaseRank, SessionState.afterWrite, List.length_singleton] <;> omega
  | proceed k =>
    simp only [SessionState.step, Option.bind_eq_bind, Option.bind_eq_some_iff,
      Option.ite_none_right_eq_some, Option.some.injEq] at h
    obtain ⟨call, hcall, ⟨hkind, hphase, -⟩, rfl⟩ := h
    obtain rfl := hshape.call_eq hcall
    simp only [sessionRank, SessionState.setCall, Function.update_self, callRank, hcall, hkind,
      hphase, phaseRank, SessionState.sends, List.length_nil]
    omega
  | receive message =>
    simp only [SessionState.step] at h
    split at h
    · next hreader =>
      obtain rfl := Option.some.inj h
      have hbefore : readerRank s.reader = 1 := by rw [hreader]; rfl
      have hle := readerRank_le (readHandler message)
      simp only [sessionRank, hbefore, SessionState.sends, SessionEvent.receives, List.length_nil,
        List.length_singleton]
      omega
    · cases h
  | stopBroker =>
    simp only [SessionState.step, Option.ite_none_right_eq_some] at h
    obtain ⟨-, h⟩ := h
    split at h
    · next hbroker =>
      obtain rfl := Option.some.inj h
      simp only [sessionRank, hbroker, brokerRank, SessionState.sends, List.length_nil]
      omega
    · next hbroker =>
      obtain rfl := Option.some.inj h
      simp only [sessionRank, hbroker, brokerRank, SessionState.sends, List.length_nil]
      omega
    all_goals cases h
  | stopReader =>
    simp only [SessionState.step] at h
    split at h
    · next hreader =>
      obtain rfl := Option.some.inj h
      simp only [sessionRank, hreader, readerRank, SessionState.sends, List.length_nil]
      omega
    · cases h
  | leave k =>
    simp only [SessionState.step, Option.bind_eq_bind, Option.bind_eq_some_iff,
      Option.ite_none_right_eq_some, Option.some.injEq] at h
    obtain ⟨call, hcall, ⟨-, hphase⟩, rfl⟩ := h
    obtain rfl := hshape.call_eq hcall
    simp only [sessionRank, SessionState.setCall, Function.update_self, callRank, hcall, hphase,
      SessionState.sends, List.length_nil]
    cases call.kind <;> simp only [phaseRank] <;> omega

/-- A program writes a message to its channel. -/
theorem sessionRank_write {message : N} {failure : Option Err}
    (h : s.step protocols (.write 0 message failure) = some t) : sessionRank t = sessionRank s := by
  simp only [SessionState.step, Option.bind_eq_bind, Option.bind_eq_some_iff,
    Option.ite_none_right_eq_some] at h
  obtain ⟨call, hcall, -, h⟩ := h
  split at h
  · obtain rfl := Option.some.inj h
    rw [sessionRank_setCall, sessionRank, hcall]
    rfl
  · exact congrArg sessionRank (Option.some.inj h).symm
  · exact congrArg sessionRank (Option.some.inj h).symm

/-- A program reads a message from its channel. -/
theorem sessionRank_read (h : s.step protocols (.read 0) = some t) :
    sessionRank t + 2 = sessionRank s := by
  simp only [SessionState.step, Option.bind_eq_bind, Option.bind_eq_some_iff] at h
  obtain ⟨call, hcall, h⟩ := h
  split at h
  · cases h
  · next message rest hqueue =>
    obtain ⟨-, heq⟩ := Option.ite_none_right_eq_some.mp h
    obtain rfl := Option.some.inj heq
    rw [sessionRank_setCall, sessionRank, hcall]
    simp only [callRank, hqueue, List.length_cons]
    omega

/-- A program closes its session. -/
theorem sessionRank_closeSession (h : s.step protocols .closeSession = some t) :
    sessionRank t + 1 = sessionRank s := by
  obtain ⟨hopen, heq⟩ := Option.ite_none_left_eq_some.mp h
  obtain rfl := Option.some.inj heq
  simp only [sessionRank, Bool.not_eq_true] at hopen ⊢
  rw [hopen]
  rfl

end Session

/-- The steps that two sessions have left. A message on its way costs more than the steps in which
it is received. -/
def linkRank (l : Link N) : ℕ :=
  sessionRank (l.sessions .initiator) + sessionRank (l.sessions .responder) +
    8 * ((l.incoming .initiator).length + (l.incoming .responder).length)

/-- The steps that two sessions have left, from one of them. -/
theorem linkRank_eq (l : Link N) (x : End) :
    linkRank l = sessionRank (l.sessions x) + sessionRank (l.sessions x.peer) +
      8 * ((l.incoming x).length + (l.incoming x.peer).length) := by
  cases x with
  | initiator => rfl
  | responder =>
    rw [linkRank, End.peer]
    omega

/-- One session makes a step. -/
theorem linkRank_act {l l' : Link N} {x : End} {e : SessionEvent N}
    (h : l.act protocols x e = some l') :
    ∃ s, (l.sessions x).step protocols e = some s ∧
      linkRank l' + sessionRank (l.sessions x) =
        linkRank l + sessionRank s + 8 * ((l.sessions x).sends protocols e).length := by
  simp only [Link.act, Option.bind_eq_bind, Option.bind_eq_some_iff, Option.some.injEq] at h
  obtain ⟨s, hs, rfl⟩ := h
  refine ⟨s, hs, ?_⟩
  rw [linkRank_eq _ x, linkRank_eq _ x]
  simp only [Function.update_self, Function.update_of_ne x.peer_ne, Function.update_of_ne x.ne_peer,
    List.length_append]
  omega

/-- Every step of the goroutines of two sessions lowers their rank. -/
theorem linkRank_inner {l l' : Link N} (hshape : ∀ x, Shape x (l.sessions x)) {event : LinkEvent N}
    (hinner : isInnerLink event = true) (h : l.step protocols event = some l') :
    linkRank l' + 1 ≤ linkRank l := by
  obtain ⟨x, e, s, rest, hs, hact, hincoming, hsx, hsy, hrest, hout⟩ := Link.step_eq_some h
  have hinnerSession : isInner e = true := by
    by_cases hreceives : e.receives = []
    · rw [hact hreceives] at hinner
      exact hinner
    · cases e with
      | receive message => rfl
      | _ => exact absurd rfl hreceives
  have hrank := sessionRank_inner (hshape x) hinnerSession hs
  rw [linkRank_eq l' x, linkRank_eq l x, hsx, hsy, hrest, hout, hincoming, List.length_append,
    List.length_append]
  omega

namespace Stack

variable {M : Type} {State : End → Type} {c : Setup M State} {p q : Stack c}

/-- The steps that a phase of a loop has left. -/
def loopPhaseRank : LoopPhase M → ℕ
  | .deciding => 1
  | .sending _ => 10
  | .returned _ | .panicked _ => 0

/-- The steps that the reading goroutine of a loop has left. -/
def offerRank : LoopReader M → ℕ
  | .offering _ => 1
  | .reading | .stopped => 0

/-- The steps that a loop has left. -/
def loopRank {S : Type} : Option (Loop S M) → ℕ
  | none => 2
  | some l => loopPhaseRank l.phase + offerRank l.reader

/-- The steps that two programs have left, up to the calls of their sides. -/
def rank (p : Stack c) : ℕ :=
  linkRank p.link + loopRank (p.loops .initiator) + loopRank (p.loops .responder)

/-- One loop is replaced. -/
theorem rank_setLoop (p : Stack c) (x : End) (l : Loop (State x) M) :
    (p.setLoop x l).rank + loopRank (p.loops x) = p.rank + loopRank (some l) := by
  have hlink : (p.setLoop x l).link = p.link := rfl
  cases x with
  | initiator =>
    rw [rank, setLoop_self, setLoop_of_ne p l (by decide), rank, hlink]
    omega
  | responder =>
    rw [rank, setLoop_self, setLoop_of_ne p l (by decide), rank, hlink]
    omega

/-- Every step of a loop that does not involve its channel lowers its rank, except for a call of its
side. -/
theorem loopRank_inner {S : Type} {a : Side S M} {l l' : Loop S M} {x : End} {event : LoopEvent M}
    (hinner : isInnerLoop event = true) (h : l.step a event = some l') :
    loopRank (some l') + 1 ≤ loopRank (some l) + 10 * (StackEvent.iterate x event : StackEvent c).turns.length := by
  cases Loop.step_effect h with
  | send | arrive | lose => cases hinner
  | finish hphase | fail hphase =>
    simp only [loopRank, loopPhaseRank, hphase]
    omega
  | write hphase =>
    have hle : loopRank (some (l.afterWrite (a.write l.side))) ≤ 10 + offerRank l.reader := by
      rcases a.write l.side with value | ⟨side, message, _ | err⟩ <;> simp [loopRank, loopPhaseRank, Loop.afterWrite]
    simp only [loopRank, loopPhaseRank, hphase, StackEvent.turns, List.length_singleton] at hle ⊢
    omega
  | @read message hphase hreader =>
    have hle : loopRank (some ((l.take message).afterRead (a.read l.side message))) ≤ 1 := by
      rcases a.read l.side message with value | ⟨side, _ | err⟩ <;>
        simp [loopRank, loopPhaseRank, offerRank, Loop.afterRead, Loop.take, hphase]
    simp only [StackEvent.turns, List.length_singleton]
    omega
  | quit hreader =>
    simp only [loopRank, offerRank, hreader]
    omega

/-- The channel of a loop is given a message. -/
theorem loopRank_send {S : Type} {a : Side S M} {l l' : Loop S M} {err : Option Err}
    (h : l.step a (.send err) = some l') : loopRank (some l') + 9 ≤ loopRank (some l) := by
  cases Loop.step_effect h with
  | send hphase =>
    cases err <;> simp only [Loop.afterSend, loopRank, loopPhaseRank, hphase] <;> omega

/-- A program creates its channel. -/
theorem sessionRank_channelCall {x : End} {s t : SessionState c.Encoded}
    (h : s.step c.protocols (c.channelCall x) = some t) : sessionRank t + 1 = sessionRank s := by
  cases x with
  | initiator =>
    simp only [Setup.channelCall, SessionState.step] at h
    split at h
    · cases h
    · next hnone =>
      obtain rfl := Option.some.inj h
      rw [sessionRank_setCall, sessionRank, hnone]
      simp only [callRank, ChannelCall.new, phaseRank, List.length_nil]
      omega
  | responder =>
    simp only [Setup.channelCall, SessionState.step] at h
    split at h
    · cases h
    · next hnone =>
      obtain rfl := Option.some.inj h
      rw [sessionRank_setCall, sessionRank, hnone]
      simp only [callRank, ChannelCall.new, phaseRank, List.length_nil]
      omega

/-- Every step of two programs that create one channel lowers their rank, except for a call of a
side. -/
theorem rank_step (hp : p.Opens) {event : StackEvent c} (h : p.step event = some q) :
    q.rank + 1 ≤ p.rank + 10 * event.turns.length := by
  cases event with
  | session event =>
    simp only [Stack.step, Option.ite_none_right_eq_some, Option.map_eq_some_iff] at h
    obtain ⟨hinner, link, hlink, rfl⟩ := h
    have hrank := linkRank_inner hp.meets.shape hinner hlink
    simp only [rank]
    omega
  | call x =>
    obtain ⟨link, hlink, rfl⟩ := Option.map_eq_some_iff.mp h
    have hact : p.link.act c.protocols x (c.channelCall x) = some link := by cases x <;> exact hlink
    have hsends : (p.link.sessions x).sends c.protocols (c.channelCall x) = [] := by cases x <;> rfl
    obtain ⟨s, hs, hlinkRank⟩ := linkRank_act hact
    have hsession := sessionRank_channelCall hs
    rw [hsends, List.length_nil] at hlinkRank
    simp only [rank]
    omega
  | run x =>
    simp only [Stack.step] at h
    split at h
    · next call hloop hcall =>
      obtain ⟨-, heq⟩ := Option.ite_none_right_eq_some.mp h
      obtain rfl := Option.some.inj heq
      have hrank := rank_setLoop p x (.new (c.start x))
      have hnew : loopRank (some (.new (c.start x) : Loop (State x) M)) = 1 := rfl
      have hnone : loopRank (p.loops x) = 2 := by rw [hloop]; rfl
      omega
    · cases h
  | iterate x event =>
    simp only [Stack.step, Option.bind_eq_bind, Option.bind_eq_some_iff,
      Option.ite_none_right_eq_some, Option.map_eq_some_iff] at h
    obtain ⟨l, hl, hinner, l', hiterate, rfl⟩ := h
    have hrank := rank_setLoop p x l'
    have hloop := loopRank_inner (c := c) (x := x) hinner hiterate
    rw [hl] at hrank
    omega
  | write x failure =>
    simp only [Stack.step, Option.bind_eq_bind, Option.bind_eq_some_iff] at h
    obtain ⟨l, hl, call, hcall, h⟩ := h
    split at h
    · next message hphase =>
      split at h
      · next hencodable =>
        simp only [Option.bind_eq_some_iff, Option.some.injEq] at h
        obtain ⟨link, hlink, l', hsend, rfl⟩ := h
        obtain ⟨s, hs, hlinkRank⟩ := linkRank_act hlink
        have hsession := sessionRank_write hs
        have hlength := sends_length_le_one hs (by simp)
        have hrank := rank_setLoop { p with link := link } x l'
        have hloop := loopRank_send hsend
        simp only [hl] at hrank
        simp only [rank] at hrank ⊢
        omega
      · cases h
    · cases h
  | read x =>
    simp only [Stack.step, Option.bind_eq_bind, Option.bind_eq_some_iff] at h
    obtain ⟨l, hl, call, hcall, h⟩ := h
    split at h
    · cases h
    · simp only [Option.bind_eq_some_iff, Option.some.injEq] at h
      obtain ⟨link, hlink, l', harrive, rfl⟩ := h
      obtain ⟨s, hs, hlinkRank⟩ := linkRank_act hlink
      have hsession := sessionRank_read hs
      have hsends : (p.link.sessions x).sends c.protocols (.read 0) = [] := rfl
      have hrank := rank_setLoop { p with link := link } x l'
      have hloop : loopRank (some l') = loopRank (some l) + 1 := by
        cases Loop.step_effect harrive with
        | arrive hreader => simp only [loopRank, hreader, offerRank]
      rw [hsends, List.length_nil] at hlinkRank
      simp only [hl] at hrank
      simp only [rank] at hrank ⊢
      omega
  | close x =>
    simp only [Stack.step, Option.bind_eq_bind, Option.bind_eq_some_iff] at h
    obtain ⟨l, hl, h⟩ := h
    split at h
    · obtain ⟨link, hlink, rfl⟩ := Option.map_eq_some_iff.mp h
      obtain ⟨s, hs, hlinkRank⟩ := linkRank_act hlink
      have hsession := sessionRank_closeSession hs
      have hsends : (p.link.sessions x).sends c.protocols .closeSession = [] := rfl
      rw [hsends, List.length_nil] at hlinkRank
      simp only [rank]
      omega
    · cases h

end Stack

end ProjektCore.Programs
