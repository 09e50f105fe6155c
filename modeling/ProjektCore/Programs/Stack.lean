import ProjektCore.Protocol.Loop
import ProjektCore.Session.Effect
import ProjektCore.Session.Link

/-!
# Two programs with all their layers

Each of the two programs has a session over the connection, creates one channel on it, and runs the
loop of its side of a protocol on this channel. The initiator opens the channel and the responder
accepts it. The goroutines of the sessions, the calls that create the channels and the loops make
their steps in any order, and the connection may fail.

A step of the goroutines of a session leaves what its channel has read and written as it is; these
only change when the loop of the program reads or writes.
-/

namespace ProjektCore.Programs

open Foundation Protocol Session

/-- What the two programs are made of: the messages that can be encoded, the protocol that is spoken
on the channel, and the side of the protocol that each program runs. -/
structure Setup (M : Type) (State : End → Type) where
  isEncodable : M → Bool
  protocols : Protocols {m : M // isEncodable m = true}
  protocolId : ℤ
  side : (x : End) → Side (State x) M
  start : (x : End) → State x

variable {M : Type} {State : End → Type}

/-- The messages that can be encoded. -/
abbrev Setup.Encoded (c : Setup M State) := {m : M // c.isEncodable m = true}

/-- The call that creates the channel of a program. -/
def Setup.channelCall (c : Setup M State) : End → SessionEvent c.Encoded
  | .initiator => .openChannel 0 c.protocolId
  | .responder => .acceptChannel 0 c.protocolId

/-- The sessions of both programs, and their loops once the channels are created. -/
structure Stack (c : Setup M State) where
  link : Link c.Encoded
  loops : (x : End) → Option (Loop (State x) M)

/-- What happens in the two programs. -/
inductive StackEvent (c : Setup M State) where
  /-- A goroutine of a session or a call that creates a channel goes on. -/
  | session (event : LinkEvent c.Encoded)
  /-- A program creates its channel. -/
  | call (x : End)
  /-- The channel is created, and the loop starts. -/
  | run (x : End)
  /-- A step of a loop. -/
  | iterate (x : End) (event : LoopEvent M)
  /-- The channel takes the message of a loop; the connection may fail. -/
  | write (x : End) (failure : Option Err)
  /-- The channel returns a message to a loop. -/
  | read (x : End)
  /-- A loop has ended, and the program closes its session. -/
  | close (x : End)

/-- Whether a step of a session is made by one of its goroutines or by a call that creates a
channel. -/
def isInner {N : Type} : SessionEvent N → Bool
  | .takeWait _ | .takeMessage | .takeChannel _ | .pass | .writeCall .. | .proceed _ | .receive _ | .stopBroker
  | .stopReader | .leave _ => true
  | .openChannel .. | .acceptChannel .. | .write .. | .read _ | .close .. | .exit _ | .closeSession => false

/-- Whether a step of the two sessions is made by their goroutines, by a call that creates a channel
or by the connection. -/
def isInnerLink {N : Type} : LinkEvent N → Bool
  | .act _ event => isInner event
  | .deliver _ => true

/-- Whether a step of a loop does not involve the channel. A channel that is not closed never fails
to read. -/
def isInnerLoop : LoopEvent M → Bool
  | .finish | .write | .read | .fail | .quit => true
  | .send _ | .arrive _ | .lose _ => false

/-- The error with which a channel writes a message. -/
def writeError : Except Err Data → Option Err → Option Err
  | .error err, _ => some err
  | .ok _, failure => failure

namespace Stack

variable {c : Setup M State}

/-- Two programs that have established a connection. -/
def new : Stack c := ⟨.new, fun _ => none⟩

/-- Replace the loop of a program. -/
def setLoop (p : Stack c) (x : End) (l : Loop (State x) M) : Stack c :=
  { p with loops := Function.update p.loops x (some l) }

/-- One step of the two programs. -/
def step (p : Stack c) : StackEvent c → Option (Stack c)
  | .session event =>
    if isInnerLink event then (p.link.step c.protocols event).map fun link => { p with link := link } else none
  | .call x => (p.link.step c.protocols (.act x (c.channelCall x))).map fun link => { p with link := link }
  | .run x =>
    match p.loops x, (p.link.sessions x).calls 0 with
    | none, some call => if call.phase = .returned then some (p.setLoop x (.new (c.start x))) else none
    | _, _ => none
  | .iterate x event => do
    let l ← p.loops x
    if isInnerLoop event then (l.step (c.side x) event).map (p.setLoop x) else none
  | .write x failure => do
    let l ← p.loops x
    let call ← (p.link.sessions x).calls 0
    match l.phase with
    | .sending (some message) =>
      if h : c.isEncodable message = true then do
        let link ← p.link.step c.protocols (.act x (.write 0 ⟨message, h⟩ failure))
        let l ← l.step (c.side x) (.send (writeError (call.handle.wrapMessage c.protocols ⟨message, h⟩) failure))
        some ({ p with link := link }.setLoop x l)
      else none
    | _ => none
  | .read x => do
    let l ← p.loops x
    let call ← (p.link.sessions x).calls 0
    match call.queue with
    | [] => none
    | message :: _ => do
      let link ← p.link.step c.protocols (.act x (.read 0))
      let l ← l.step (c.side x) (.arrive message.val)
      some ({ p with link := link }.setLoop x l)
  | .close x => do
    let l ← p.loops x
    match l.phase with
    | .returned none => (p.link.step c.protocols (.act x .closeSession)).map fun link => { p with link := link }
    | _ => none

end Stack

/-- What the goroutines of a session leave as it is in a call and its channel. -/
inductive Kept {N : Type} : Option (ChannelCall N) → Option (ChannelCall N) → Prop
  | none : Kept none none
  | some {call call' : ChannelCall N} : call'.read = call.read → call'.written = call.written →
      call'.handle.protocolId = call.handle.protocolId → (call.phase = .returned → call'.phase = .returned) →
      Kept (some call) (some call')

section Kept

variable {N : Type} {protocols : Protocols N} {s t : SessionState N}

/-- A call that does not change. -/
theorem Kept.refl (call : Option (ChannelCall N)) : Kept call call := by
  cases call with
  | none => exact .none
  | some call => exact .some rfl rfl rfl id

/-- A call that goes on. -/
theorem kept_setCall {k : ℕ} {call call' : ChannelCall N} (hc : s.calls k = some call)
    (hkept : Kept (some call) (some call')) (j : ℕ) :
    Kept (s.calls j) ((s.setCall k call').calls j) := by
  by_cases hj : j = k
  · rw [hj, hc, SessionState.setCall_self]
    exact hkept
  · rw [SessionState.setCall_of_ne s call' hj]
    exact Kept.refl _

/-- The goroutines of a session and the calls that create channels keep what was read and
written. -/
theorem kept_of_inner {event : SessionEvent N} (hinner : isInner event = true)
    (h : s.step protocols event = some t) (j : ℕ) : Kept (s.calls j) (t.calls j) := by
  have hphase {k : ℕ} {call : ChannelCall N} (hc : s.calls k = some call) {phase phase' : CallPhase}
      (hbefore : call.phase = phase) (hne : phase ≠ .returned) :
      Kept (s.calls j) ((s.setCall k { call with phase := phase' }).calls j) := by
    have hkept : Kept (some call) (some { call with phase := phase' }) :=
      .some rfl rfl rfl fun hreturned => absurd (hbefore.symm.trans hreturned) hne
    exact kept_setCall hc hkept j
  have heffect := SessionState.step_effect h
  generalize s.sends protocols event = sent at heffect
  cases heffect with
  | openChannel | acceptChannel | write | read | close | exit => cases hinner
  | panic | dropData | dropOther | takeData | takeOpen | receive | notWritten | closeSession
  | stopBroker | stopReader =>
    exact Kept.refl _
  | waitAccept _ hc _ hp | waitOpen _ hc _ hp | register _ hc hp | writeFails hc hp
  | writeOpen hc hp | writeAccept hc hp
  | proceed hc _ hp | leave hc _ hp => exact hphase hc hp (by decide)
  | @takeAccept k _ call _ _ _ _ hc =>
    have hkept : Kept (some call) (some { call with accepted := true }) := .some rfl rfl rfl id
    exact kept_setCall hc hkept j
  | @passOpen k channelId _ call _ hc hp =>
    have hkept : Kept (some call)
        (some { call with handle := ⟨call.handle.protocolId, channelId⟩, phase := .writing }) :=
      .some rfl rfl rfl fun hreturned => (by cases hp.symm.trans hreturned)
    exact kept_setCall hc hkept j
  | @passData k message call _ hc =>
    have hkept : Kept (some call) (some { call with queue := call.queue ++ [message] }) := .some rfl rfl rfl id
    exact kept_setCall hc hkept j

end Kept

/-- Whether a loop has ended with an error or a panic. -/
def hasFailed : LoopPhase M → Bool
  | .returned (some _) | .panicked _ => true
  | .deciding | .sending _ | .returned none => false

/-- A loop and its channel: the loop has got what was read, and what was written are the messages
that the loop has passed to its channel, up to one that the channel did not take. Before the loop
starts, nothing is read or written. -/
def Joined {S N : Type} (val : N → M) : Option (Loop S M) → Option (ChannelCall N) → Prop
  | none, none => True
  | none, some call => call.read = [] ∧ call.written = []
  | some _, none => False
  | some l, some call => call.phase = .returned ∧ call.read.map val = l.arrived ∧ call.written.map val <+: l.sent ∧
      (hasFailed l.phase = false → call.written.map val = l.sent)

section Joined

variable {S N : Type} {val : N → M} {loop : Option (Loop S M)} {call call' : Option (ChannelCall N)}

/-- The goroutines of a session keep what a loop has got and written. -/
theorem Joined.keep (h : Joined val loop call) (hkept : Kept call call') :
    Joined val loop call' := by
  cases hkept with
  | none => exact h
  | some hread hwritten _ hreturned =>
    cases loop with
    | none => exact ⟨hread.trans h.1, hwritten.trans h.2⟩
    | some l =>
      obtain ⟨hphase, harrived, hsent, hall⟩ := h
      exact ⟨hreturned hphase, by rw [hread, harrived], by rwa [hwritten], by rwa [hwritten]⟩

/-- A step of a loop that does not involve its channel keeps what it has got and passed on. -/
theorem inner_step {a : Side S M} {l l' : Loop S M} {event : LoopEvent M}
    (hinner : isInnerLoop event = true) (h : l.step a event = some l') :
    l'.arrived = l.arrived ∧ l'.sent = l.sent ∧ (hasFailed l'.phase = false → hasFailed l.phase = false) := by
  cases Loop.step_effect h with
  | send | arrive | lose => cases hinner
  | finish hphase | fail hphase =>
    refine ⟨rfl, rfl, fun _ => ?_⟩
    rw [hphase]
    rfl
  | write hphase =>
    have hdeciding : hasFailed l.phase = false := by rw [hphase]; rfl
    rcases a.write l.side with value | ⟨side, message, _ | err⟩ <;> exact ⟨rfl, rfl, fun _ => hdeciding⟩
  | @read message hphase =>
    have hdeciding : hasFailed l.phase = false := by rw [hphase]; rfl
    rcases a.read l.side message with value | ⟨side, _ | err⟩ <;> exact ⟨rfl, rfl, fun _ => hdeciding⟩
  | quit => exact ⟨rfl, rfl, id⟩

/-- A step of a loop that does not involve its channel. -/
theorem Joined.iterate {a : Side S M} {l l' : Loop S M} {event : LoopEvent M}
    (h : Joined val (some l) call) (hinner : isInnerLoop event = true)
    (hstep : l.step a event = some l') : Joined val (some l') call := by
  obtain ⟨harrived, hsent, hfailed⟩ := inner_step hinner hstep
  cases call with
  | none => exact h
  | some call =>
    obtain ⟨hphase, hread, hprefix, hall⟩ := h
    exact ⟨hphase, hread.trans harrived.symm, hsent ▸ hprefix, fun hfine => (hall (hfailed hfine)).trans hsent.symm⟩

end Joined

/-- What one session does in a step of two sessions. -/
theorem act_sessions {N : Type} {protocols : Protocols N} {l l' : Link N} {x : End}
    {event : SessionEvent N} (h : l.act protocols x event = some l') :
    (l.sessions x).step protocols event = some (l'.sessions x) ∧ l'.sessions x.peer = l.sessions x.peer := by
  simp only [Link.act, Option.bind_eq_bind, Option.bind_eq_some_iff, Option.some.injEq] at h
  obtain ⟨s, hs, rfl⟩ := h
  exact ⟨by simpa using hs, by simp⟩

/-- The goroutines of the sessions keep what the loops have got and written. -/
theorem kept_of_link {N : Type} {protocols : Protocols N} {l l' : Link N} {event : LinkEvent N}
    (hinner : isInnerLink event = true) (h : l.step protocols event = some l') (y : End) (k : ℕ) :
    Kept ((l.sessions y).calls k) ((l'.sessions y).calls k) := by
  obtain ⟨x, e, s, rest, hs, hact, -, hx, hpeer, -, -⟩ := Link.step_eq_some h
  by_cases hy : y = x
  · subst hy
    rw [hx]
    refine kept_of_inner ?_ hs k
    by_cases hreceives : e.receives = []
    · rw [hact hreceives] at hinner
      exact hinner
    · cases e with
      | receive message => rfl
      | _ => exact absurd rfl hreceives
  · obtain rfl := End.eq_peer_of_ne hy
    rw [hpeer]
    exact Kept.refl _

namespace Stack

variable {c : Setup M State} {p q : Stack c}

/-- The effects of the steps of two programs. -/
inductive Effect (p : Stack c) : Stack c → Prop
  /-- The sessions go on, and what the loops have got and written stays. -/
  | sessions {event : LinkEvent c.Encoded} {link : Link c.Encoded} :
      p.link.step c.protocols event = some link →
      (∀ x k, Kept ((p.link.sessions x).calls k) ((link.sessions x).calls k)) → Effect p { p with link := link }
  | call {x : End} {link : Link c.Encoded} :
      p.link.step c.protocols (.act x (c.channelCall x)) = some link →
      Effect p { p with link := link }
  | run {x : End} {call : ChannelCall c.Encoded} :
      p.loops x = none → (p.link.sessions x).calls 0 = some call →
      call.phase = .returned → Effect p (p.setLoop x (.new (c.start x)))
  | iterate {x : End} {l l' : Loop (State x) M} {event : LoopEvent M} : p.loops x = some l →
      isInnerLoop event = true → l.step (c.side x) event = some l' → Effect p (p.setLoop x l')
  | write {x : End} {l l' : Loop (State x) M} {call : ChannelCall c.Encoded} {message : c.Encoded}
      {failure : Option Err} {link : Link c.Encoded} :
      p.loops x = some l → (p.link.sessions x).calls 0 = some call →
      l.phase = .sending (some message.val) →
      p.link.step c.protocols (.act x (.write 0 message failure)) = some link →
      l.step (c.side x) (.send (writeError (call.handle.wrapMessage c.protocols message) failure)) = some l' →
      Effect p ({ p with link := link }.setLoop x l')
  | read {x : End} {l l' : Loop (State x) M} {call : ChannelCall c.Encoded} {message : c.Encoded}
      {rest : List c.Encoded} {link : Link c.Encoded} : p.loops x = some l →
      (p.link.sessions x).calls 0 = some call → call.queue = message :: rest →
      p.link.step c.protocols (.act x (.read 0)) = some link →
      l.step (c.side x) (.arrive message.val) = some l' → Effect p ({ p with link := link }.setLoop x l')

/-- Every step has one of the effects. -/
theorem step_effect {event : StackEvent c} (h : p.step event = some q) : Effect p q := by
  cases event with
  | session event =>
    simp only [step, Option.ite_none_right_eq_some, Option.map_eq_some_iff] at h
    obtain ⟨hinner, link, hlink, rfl⟩ := h
    exact .sessions hlink (kept_of_link hinner hlink)
  | call x =>
    obtain ⟨link, hlink, rfl⟩ := Option.map_eq_some_iff.mp h
    exact .call hlink
  | run x =>
    simp only [step] at h
    split at h
    · next call hloop hcall =>
      obtain ⟨hreturned, heq⟩ := Option.ite_none_right_eq_some.mp h
      obtain rfl := Option.some.inj heq
      exact .run hloop hcall hreturned
    · cases h
  | iterate x event =>
    simp only [step, Option.bind_eq_bind, Option.bind_eq_some_iff, Option.ite_none_right_eq_some,
      Option.map_eq_some_iff] at h
    obtain ⟨l, hl, hinner, l', hstep, rfl⟩ := h
    exact .iterate hl hinner hstep
  | write x failure =>
    simp only [step, Option.bind_eq_bind, Option.bind_eq_some_iff] at h
    obtain ⟨l, hl, call, hcall, h⟩ := h
    split at h
    · next message hphase =>
      split at h
      · next hencodable =>
        simp only [Option.bind_eq_some_iff, Option.some.injEq] at h
        obtain ⟨link, hlink, l', hsend, rfl⟩ := h
        have hencoded : l.phase = .sending (some (⟨message, hencodable⟩ : c.Encoded).val) := hphase
        exact .write hl hcall hencoded hlink hsend
      · cases h
    · cases h
  | read x =>
    simp only [step, Option.bind_eq_bind, Option.bind_eq_some_iff] at h
    obtain ⟨l, hl, call, hcall, h⟩ := h
    split at h
    · cases h
    · next message rest hqueue =>
      simp only [Option.bind_eq_some_iff, Option.some.injEq] at h
      obtain ⟨link, hlink, l', harrive, rfl⟩ := h
      exact .read hl hcall hqueue hlink harrive
  | close x =>
    simp only [step, Option.bind_eq_bind, Option.bind_eq_some_iff] at h
    obtain ⟨l, hl, h⟩ := h
    split at h
    · obtain ⟨link, hlink, rfl⟩ := Option.map_eq_some_iff.mp h
      refine .sessions hlink ?_
      obtain ⟨hs, hpeer⟩ := act_sessions hlink
      obtain ⟨-, hs⟩ := Option.ite_none_left_eq_some.mp hs
      intro y k
      by_cases hy : y = x
      · subst hy
        rw [← Option.some.inj hs]
        exact Kept.refl _
      · obtain rfl := End.eq_peer_of_ne hy
        rw [hpeer]
        exact Kept.refl _
    · cases h

end Stack

end ProjektCore.Programs
