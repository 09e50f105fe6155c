import ProjektCore.Programs.Calm

/-!
# How two programs create their channel

Each program makes one call. That of the initiator opens the channel with the first number of its
side, that of the responder accepts it. What the tables of a session hold follows from how far its
call is, and every message of the connection is addressed to this channel.

The two messages that create the channel are counted like tokens: the one that a call has written is
on its way, is held by the session of the peer, or has been taken by the call of the peer.
-/

namespace ProjektCore.Programs

open Foundation Protocol Session

variable {N : Type} {protocols : Protocols N}

/-- The kind of call that a program makes. -/
def roleKind : End → CallKind
  | .initiator => .opener
  | .responder => .acceptor

/-- A table that only holds the call of the program. -/
def onlyAt {A : Type} [DecidableEq A] (a : A) :
    A → Option ℕ := Function.update (fun _ => none) a (some 0)

/-- Whether a call waits for the message that accepts its channel. -/
def awaitsAccept (call : ChannelCall N) : Bool :=
  call.kind = .opener && (call.phase = .writing || call.phase = .waiting) && !call.accepted

/-- Whether a call waits for the message that opens its channel. -/
def awaitsOpen (call : ChannelCall N) : Bool := call.kind = .acceptor && call.phase = .waiting

/-- The table of the calls that wait for their channel to be accepted. -/
def acceptsOf (call : Option (ChannelCall N)) : ℕ → Option ℕ :=
  if call.any awaitsAccept then onlyAt 1 else fun _ => none

/-- The table of the calls that wait for a channel to be opened. -/
def opensOf (call : Option (ChannelCall N)) : ℤ → Option ℕ :=
  if call.any awaitsOpen then onlyAt 1 else fun _ => none

/-- Whether an acceptor has been told about its channel. -/
def isTold : CallPhase → Bool
  | .writing | .joining | .returned => true
  | .registering | .waiting | .failed _ => false

/-- What a call of a program looks like. -/
structure CallShape (x : End) (call : ChannelCall N) : Prop where
  kind : call.kind = roleKind x
  protocol : call.handle.protocolId = 1
  closed : call.isClosed = false
  exited : call.hasExited = false
  number : x = .initiator ∨ isTold call.phase = true → call.handle.id = 1
  failed : ∀ err, call.phase ≠ .failed err
  early : call.phase = .registering → call.accepted = false
  late : x = .initiator → call.phase = .joining ∨ call.phase = .returned → call.accepted = true

/-- What the broker of a program does. -/
def BrokerShape (s : SessionState N) : Prop :=
  match s.broker with
  | .ready | .delivering .. => True
  | .opening k i p => k = 0 ∧ i = 1 ∧ p = 1 ∧ (s.calls 0).any awaitsOpen = true
  | .panicked => False
  | .stopped => s.isDone = true

/-- What the reading goroutine of a program holds. -/
def ReaderShape (x : End) : Reader → Prop
  | .reading | .stopped => True
  | .data data => data.channelId = 1
  | .inOpen i p => x = .responder ∧ i = 1 ∧ p = 1
  | .inAccept i => x = .initiator ∧ i = 1

/-- What a session of a program looks like. -/
structure Shape (x : End) (s : SessionState N) : Prop where
  only : ∀ k, k ≠ 0 → s.calls k = none
  fresh : x = .initiator → s.calls 0 = none → s.nextId = 1
  call : ∀ call, s.calls 0 = some call → CallShape x call
  accepts : s.accepts = acceptsOf (s.calls 0)
  opens : s.opens = opensOf (s.calls 0)
  broker : BrokerShape s
  reader : ReaderShape x s.reader

/-- Whether the reading goroutine holds a message that creates the channel. -/
def isHandshake : Reader → Bool
  | .inOpen .. | .inAccept _ => true
  | .reading | .data _ | .stopped => false

/-- Whether the broker tells an acceptor about its channel. -/
def isOpening : Broker N → Bool
  | .opening .. => true
  | .ready | .delivering .. | .panicked | .stopped => false

/-- Whether the call of a program has taken the message of the peer that creates the channel. -/
def hasGot (x : End) (call : ChannelCall N) : Bool :=
  match x with
  | .initiator => call.accepted
  | .responder => isTold call.phase

/-- Whether the call of a program has written its message that creates the channel. -/
def hasTold (x : End) (call : ChannelCall N) : Bool :=
  match x, call.phase with
  | .initiator, .waiting | _, .joining | _, .returned => true
  | _, _ => false

/-- The messages that create the channel which a session holds or its call has taken. -/
def gotten (x : End) (s : SessionState N) : ℕ :=
  (isHandshake s.reader).toNat + (isOpening s.broker).toNat + ((s.calls 0).any (hasGot x)).toNat

/-- The messages that create the channel which the call of a session has written. -/
def told (x : End) (s : SessionState N) : ℕ := ((s.calls 0).any (hasTold x)).toNat

/-- Whether a message of the connection creates the channel. -/
def createsChannel (message : Session.Message) : Bool := isHandshake (readHandler message)

/-- A message to a program is data for its channel or creates the channel. -/
def MessageShape (x : End) (message : Session.Message) : Prop :=
  match readHandler message with
  | .data data => data.channelId = 1
  | .inOpen i p => x = .responder ∧ i = 1 ∧ p = 1
  | .inAccept i => x = .initiator ∧ i = 1
  | .reading | .stopped => False

/-- What a step does to a session of a program: it keeps its shape, and each message that creates
the channel is held once it is received and is written by the call. -/
structure Advances (x : End) (event : SessionEvent N) (sent : List Session.Message)
    (s t : SessionState N) : Prop where
  shape : Shape x t
  gotten : gotten x t = gotten x s + event.receives.countP createsChannel
  told : told x t = told x s + sent.countP createsChannel
  sent : ∀ m ∈ sent, MessageShape x.peer m

section Step

variable {x : End} {s t : SessionState N}

/-- The call is replaced. -/
theorem Shape.ofCall (h : Shape x s) (call : ChannelCall N)
    (hcalls : t.calls = (s.setCall 0 call).calls) (hcall : CallShape x call)
    (haccepts : t.accepts = acceptsOf (some call)) (hopens : t.opens = opensOf (some call))
    (hbroker : BrokerShape t) (hreader : ReaderShape x t.reader) : Shape x t := by
  have hzero : t.calls 0 = some call := by rw [hcalls, SessionState.setCall_self]
  refine ⟨?_, ?_, ?_, ?_, ?_, hbroker, hreader⟩
  · intro k hk
    rw [hcalls, SessionState.setCall_of_ne s call hk]
    exact h.only k hk
  · intro _ hnone
    cases hnone.symm.trans hzero
  · intro call' hcall'
    obtain rfl := Option.some.inj (hzero.symm.trans hcall')
    exact hcall
  · rw [haccepts, hzero]
  · rw [hopens, hzero]

/-- The call and the tables stay as they are. -/
theorem Shape.ofSame (h : Shape x s) (hcalls : t.calls = s.calls) (hnext : t.nextId = s.nextId)
    (haccepts : t.accepts = s.accepts) (hopens : t.opens = s.opens) (hbroker : BrokerShape t)
    (hreader : ReaderShape x t.reader) : Shape x t := by
  refine ⟨?_, ?_, ?_, ?_, ?_, hbroker, hreader⟩
  · rw [hcalls]
    exact h.only
  · rw [hcalls, hnext]
    exact h.fresh
  · rw [hcalls]
    exact h.call
  · rw [haccepts, hcalls, h.accepts]
  · rw [hopens, hcalls, h.opens]

/-- The only call of a program. -/
theorem Shape.call_eq (h : Shape x s) {k : ℕ} {call : ChannelCall N}
    (hcall : s.calls k = some call) : k = 0 := by
  by_contra hk
  cases hcall.symm.trans (h.only k hk)

/-- The channel is not registered before the call returns. -/
theorem Shape.unregistered (h : Shape x s) (hregistry : s.Registry) {call : ChannelCall N}
    (hcall : s.calls 0 = some call) (hphase : call.phase ≠ .returned) (i : ℕ) :
    s.channels i = none := by
  cases hk : s.channels i with
  | none => rfl
  | some k =>
    obtain ⟨other, hother, hreturned, -⟩ := hregistry.registered i k hk
    obtain rfl := h.call_eq hother
    obtain rfl := Option.some.inj (hcall.symm.trans hother)
    exact absurd hreturned hphase

/-- The broker goes on to do the same. -/
theorem BrokerShape.congr (h : BrokerShape s) (hbroker : t.broker = s.broker)
    (hdone : s.isDone = true → t.isDone = true)
    (hawaits : (s.calls 0).any awaitsOpen = true → (t.calls 0).any awaitsOpen = true) :
    BrokerShape t := by
  unfold BrokerShape at h ⊢
  rw [hbroker]
  cases hs : s.broker with
  | ready | delivering => trivial
  | opening k i p =>
    rw [hs] at h
    exact ⟨h.1, h.2.1, h.2.2.1, hawaits h.2.2.2⟩
  | panicked =>
    rw [hs] at h
    exact h
  | stopped =>
    rw [hs] at h
    exact hdone h

/-- A broker that is ready. -/
theorem brokerShape_ready (h : t.broker = .ready) : BrokerShape t := by
  unfold BrokerShape
  rw [h]
  trivial

/-- A step that neither receives nor takes nor writes a message that creates the channel. -/
theorem Shape.advances (h : Shape x t) {event : SessionEvent N} {sent : List Session.Message}
    (hreceives : event.receives = []) (hreader : isHandshake t.reader = isHandshake s.reader)
    (hbroker : isOpening t.broker = isOpening s.broker)
    (hgot : (t.calls 0).any (hasGot x) = (s.calls 0).any (hasGot x))
    (htold : (t.calls 0).any (hasTold x) = (s.calls 0).any (hasTold x))
    (hsent : ∀ m ∈ sent, MessageShape x.peer m ∧ createsChannel m = false) :
    Advances x event sent s t where
  shape := h
  gotten := by rw [hreceives, gotten, gotten, hreader, hbroker, hgot]; rfl
  told := by
    have hnone : sent.countP createsChannel = 0 :=
      List.countP_eq_zero.mpr fun m hm => by rw [(hsent m hm).2]; decide
    rw [hnone, told, told, htold, Nat.add_zero]
  sent m hm := (hsent m hm).1

/-- A program creates its channel. -/
theorem Shape.create (h : Shape x s) (hnone : s.calls 0 = none) {call : ChannelCall N}
    (hcalls : t.calls = (s.setCall 0 call).calls) (hcall : CallShape x call)
    (hphase : call.phase = .registering) (haccepts : t.accepts = s.accepts)
    (hopens : t.opens = s.opens) (hbroker : t.broker = s.broker) (hdone : t.isDone = s.isDone)
    (hreader : t.reader = s.reader) {event : SessionEvent N} (hreceives : event.receives = []) :
    Advances x event [] s t := by
  have hzero : t.calls 0 = some call := by rw [hcalls, SessionState.setCall_self]
  have hearly := hcall.early hphase
  have hshape : Shape x t := by
    refine h.ofCall call hcalls hcall ?_ ?_ ?_ (hreader ▸ h.reader)
    · rw [haccepts, h.accepts, hnone]
      simp [acceptsOf, awaitsAccept, hphase]
    · rw [hopens, h.opens, hnone]
      simp [opensOf, awaitsOpen, hphase]
    · exact h.broker.congr hbroker (fun hs => hdone.trans hs) (fun hs => by rw [hnone] at hs; cases hs)
  refine hshape.advances hreceives (by rw [hreader]) (by rw [hbroker]) ?_ ?_ (fun m hm => by cases hm)
  · rw [hzero, hnone]
    cases x <;> simp [hasGot, hearly, hphase, isTold]
  · rw [hzero, hnone]
    cases x <;> simp [hasTold, hphase]

/-- The call goes on; what it waits for is in the tables. -/
theorem Shape.goOn (h : Shape x s) {call : ChannelCall N} (call' : ChannelCall N)
    (hcall : s.calls 0 = some call) (hcalls : t.calls = (s.setCall 0 call').calls)
    (hcall' : CallShape x call') (haccepts : t.accepts = acceptsOf (some call'))
    (hopens : t.opens = opensOf (some call')) (hbroker : BrokerShape t)
    (hopening : isOpening t.broker = isOpening s.broker) (hreader : t.reader = s.reader)
    (hgot : hasGot x call' = hasGot x call) (htold : hasTold x call' = hasTold x call)
    {event : SessionEvent N} (hreceives : event.receives = []) {sent : List Session.Message}
    (hsent : ∀ m ∈ sent, MessageShape x.peer m ∧ createsChannel m = false) :
    Advances x event sent s t := by
  have hzero : t.calls 0 = some call' := by rw [hcalls, SessionState.setCall_self]
  have hshape := h.ofCall call' hcalls hcall' haccepts hopens hbroker (hreader ▸ h.reader)
  refine hshape.advances hreceives (by rw [hreader]) hopening ?_ ?_ hsent
  · rw [hzero, hcall, Option.any_some, Option.any_some, hgot]
  · rw [hzero, hcall, Option.any_some, Option.any_some, htold]

/-- The call goes on and waits for the same. -/
theorem Shape.goOnSame (h : Shape x s) {call : ChannelCall N} (call' : ChannelCall N)
    (hcall : s.calls 0 = some call) (hcalls : t.calls = (s.setCall 0 call').calls)
    (hcall' : CallShape x call') (haccepts : t.accepts = s.accepts) (hopens : t.opens = s.opens)
    (hbroker : BrokerShape t) (hopening : isOpening t.broker = isOpening s.broker)
    (hreader : t.reader = s.reader) (hgot : hasGot x call' = hasGot x call)
    (htold : hasTold x call' = hasTold x call) (hawaits : awaitsAccept call' = awaitsAccept call)
    (hawaits' : awaitsOpen call' = awaitsOpen call) {event : SessionEvent N}
    (hreceives : event.receives = []) {sent : List Session.Message}
    (hsent : ∀ m ∈ sent, MessageShape x.peer m ∧ createsChannel m = false) :
    Advances x event sent s t := by
  refine h.goOn call' hcall hcalls hcall' ?_ ?_ hbroker hopening hreader hgot htold hreceives hsent
  · rw [haccepts, h.accepts, hcall, acceptsOf, acceptsOf, Option.any_some, Option.any_some, hawaits]
  · rw [hopens, h.opens, hcall, opensOf, opensOf, Option.any_some, Option.any_some, hawaits']

/-- A call waits for no message that opens a channel unless it has been registered. -/
theorem Shape.opens_eq_none (h : Shape x s) {call : ChannelCall N} (hcall : s.calls 0 = some call)
    (hawaits : awaitsOpen call = false) : s.opens = fun _ => none := by
  rw [h.opens, hcall, opensOf, Option.any_some, hawaits]
  rfl

/-- A call waits for no message that accepts its channel unless it has been registered. -/
theorem Shape.accepts_eq_none (h : Shape x s) {call : ChannelCall N} (hcall : s.calls 0 = some call)
    (hawaits : awaitsAccept call = false) : s.accepts = fun _ => none := by
  rw [h.accepts, hcall, acceptsOf, Option.any_some, hawaits]
  rfl

/-- A call that goes on to another phase. -/
theorem CallShape.setPhase {call : ChannelCall N} (h : CallShape x call) {phase : CallPhase}
    (hnumber : x = .initiator ∨ isTold phase = true → call.handle.id = 1)
    (hfailed : ∀ err, phase ≠ .failed err) (hearly : phase ≠ .registering)
    (hlate : x = .initiator → phase = .joining ∨ phase = .returned → call.accepted = true) :
    CallShape x { call with phase := phase } :=
  ⟨h.kind, h.protocol, h.closed, h.exited, hnumber, hfailed, fun hother => absurd hother hearly, hlate⟩

/-- The broker registers the call. -/
theorem Shape.takeWait (h : Shape x s) (hregistry : s.Registry) {k : ℕ}
    (hstep : s.step protocols (.takeWait k) = some t) : Advances x (.takeWait k) [] s t := by
  simp only [SessionState.step, Option.bind_eq_bind, Option.bind_eq_some_iff,
    Option.ite_none_right_eq_some, Broker.isReady_iff] at hstep
  obtain ⟨call, hcall, ⟨hready, hphase⟩, hstep⟩ := hstep
  obtain rfl := h.call_eq hcall
  have hshape := h.call call hcall
  have hearly := hshape.early hphase
  have hchannel := h.unregistered hregistry hcall (by rw [hphase]; decide)
  have haccepts := h.accepts_eq_none hcall (by simp [awaitsAccept, hphase])
  have hopens := h.opens_eq_none hcall (by simp [awaitsOpen, hphase])
  cases x with
  | initiator =>
    have hkind : call.kind = .opener := hshape.kind
    have hid := hshape.number (.inl rfl)
    rw [hkind] at hstep
    simp only [SessionState.waitAccept, haccepts, hchannel, Option.isSome_none, Bool.or_self,
      Bool.false_eq_true, if_false, Option.some.injEq] at hstep
    subst hstep
    refine h.goOn { call with phase := .writing } hcall (by rfl) ?_ ?_ ?_ ?_ (by rfl) (by rfl) (by rfl) ?_ (by rfl)
      (by simp)
    · refine hshape.setPhase (fun _ => hid) (fun err => ?_) (by decide) ?_
      · intro herr
        cases herr
      · rintro - (hother | hother) <;> cases hother
    · simp [acceptsOf, awaitsAccept, hkind, hearly, hid, onlyAt]
    · simp only [SessionState.setCall, hopens]
      simp [opensOf, awaitsOpen]
    · exact brokerShape_ready hready
    · simp [hasTold, hphase]
  | responder =>
    have hkind : call.kind = .acceptor := hshape.kind
    have hprotocol := hshape.protocol
    rw [hkind] at hstep
    simp only [SessionState.waitOpen, hopens, Option.isSome_none, Bool.false_eq_true, if_false,
      Option.some.injEq] at hstep
    subst hstep
    refine h.goOn { call with phase := .waiting } hcall (by rfl) ?_ ?_ ?_ ?_ (by rfl) (by rfl) ?_ ?_ (by rfl) (by simp)
    · refine hshape.setPhase ?_ (fun err => ?_) (by decide) ?_
      · rintro (hother | hother) <;> cases hother
      · intro herr
        cases herr
      · intro hother
        cases hother
    · simp only [SessionState.setCall, haccepts]
      simp [acceptsOf, awaitsAccept, hkind]
    · simp [opensOf, awaitsOpen, hkind, hprotocol, onlyAt]
    · exact brokerShape_ready hready
    · simp [hasGot, isTold, hphase]
    · simp [hasTold, hphase]

/-- The call waits for what its table holds. -/
theorem awaitsOpen_of_opens (h : Shape x s) {p : ℤ} (hsome : (s.opens p).isSome = true) :
    ∃ call, s.calls 0 = some call ∧ awaitsOpen call = true ∧ s.opens p = some 0 := by
  rw [h.opens, opensOf] at hsome ⊢
  split at hsome
  · next hany =>
    obtain ⟨call, hcall, hawaits⟩ := (Option.any_eq_true _ _).mp hany
    refine ⟨call, hcall, hawaits, ?_⟩
    rw [if_pos hany]
    rw [onlyAt, Function.update_apply] at hsome ⊢
    split at hsome
    · next hp => rw [if_pos hp]
    · cases hsome
  · cases hsome

/-- The broker takes the message that opens the channel. -/
theorem Shape.takeOpen (h : Shape x s) (hregistry : s.Registry) {i : ℕ} {p : ℤ}
    (hreader : s.reader = .inOpen i p) (hopens : (s.opens p).isSome = true)
    (hstep : s.step protocols .takeMessage = some t) :
    Advances x .takeMessage [] s t := by
  have hheld := h.reader
  rw [hreader] at hheld
  obtain ⟨-, rfl, rfl⟩ := hheld
  obtain ⟨call, hcall, hawaits, hk⟩ := awaitsOpen_of_opens h hopens
  have hphase : call.phase = .waiting := by
    simp only [awaitsOpen, Bool.and_eq_true, decide_eq_true_eq] at hawaits
    exact hawaits.2
  have hchannel := h.unregistered hregistry hcall (by rw [hphase]; decide) 1
  simp only [SessionState.step, Option.ite_none_right_eq_some, Broker.isReady_iff, hreader,
    SessionState.inOpen, hchannel, Option.isSome_none, Bool.false_eq_true, if_false, hk,
    Option.some.injEq] at hstep
  obtain ⟨hready, rfl⟩ := hstep
  refine ⟨h.ofSame rfl rfl rfl rfl ⟨rfl, rfl, rfl, ?_⟩ trivial, ?_, rfl, by simp⟩
  · rw [hcall]
    exact hawaits
  · simp only [gotten, hreader, hready]
    rfl

/-- The broker takes the message that accepts the channel. -/
theorem Shape.takeAccept (h : Shape x s) (hregistry : s.Registry) {i : ℕ}
    (hreader : s.reader = .inAccept i) {call : ChannelCall N} (hcall : s.calls 0 = some call)
    (hawaits : awaitsAccept call = true) (hstep : s.step protocols .takeMessage = some t) :
    Advances x .takeMessage [] s t := by
  have hheld := h.reader
  rw [hreader] at hheld
  obtain ⟨rfl, rfl⟩ := hheld
  have hshape := h.call call hcall
  have haccepts : s.accepts = onlyAt 1 := by rw [h.accepts, hcall, acceptsOf, Option.any_some, hawaits]; rfl
  simp only [awaitsAccept, Bool.and_eq_true, Bool.or_eq_true, decide_eq_true_eq,
    Bool.not_eq_true'] at hawaits
  obtain ⟨⟨hkind, hphase⟩, hnot⟩ := hawaits
  have hchannel := h.unregistered hregistry hcall (by rcases hphase with hphase | hphase <;> (rw [hphase]; decide)) 1
  have hopens := h.opens_eq_none hcall (by simp [awaitsOpen, hkind])
  have hk : s.accepts 1 = some 0 := by rw [haccepts, onlyAt, Function.update_self]
  simp only [SessionState.step, Option.ite_none_right_eq_some, Broker.isReady_iff, hreader,
    SessionState.inAccept, hchannel, Option.isSome_none, Bool.false_eq_true, if_false, hk, hcall,
    Option.some.injEq] at hstep
  obtain ⟨hready, rfl⟩ := hstep
  have hlate : call.phase ≠ .registering := by
    rcases hphase with hphase | hphase <;> (rw [hphase]; decide)
  have hcall' : CallShape .initiator { call with accepted := true } :=
    ⟨hshape.kind, hshape.protocol, hshape.closed, hshape.exited, hshape.number, hshape.failed,
      fun hearly => absurd hearly hlate, fun _ _ => rfl⟩
  refine ⟨h.ofCall { call with accepted := true } (by rfl) hcall' ?_ ?_ (brokerShape_ready hready)
    trivial, ?_, ?_, by simp⟩
  · simp [haccepts, acceptsOf, awaitsAccept, onlyAt]
  · simp only [SessionState.setCall, hopens]
    simp [opensOf, awaitsOpen, hkind]
  · simp [gotten, SessionState.setCall, hreader, hready, hcall, hasGot, hnot, isHandshake,
      isOpening, SessionEvent.receives]
  · simp [told, SessionState.setCall, hcall, hasTold]

/-- The broker takes data. -/
theorem Shape.takeData (h : Shape x s) {data : Data} (hreader : s.reader = .data data)
    (hstep : s.step protocols .takeMessage = some t) : Advances x .takeMessage [] s t := by
  simp only [SessionState.step, Option.ite_none_right_eq_some, Broker.isReady_iff, hreader,
    SessionState.inData] at hstep
  obtain ⟨hready, hstep⟩ := hstep
  have hdrop : Advances x .takeMessage [] s { s with reader := .reading } :=
    (h.ofSame rfl rfl rfl rfl (brokerShape_ready hready) trivial : Shape x { s with reader := .reading }).advances rfl
      (by rw [hreader]; rfl) rfl rfl rfl (by simp)
  split at hstep
  · exact Option.some.inj hstep ▸ hdrop
  · next k hk =>
    split at hstep
    · exact Option.some.inj hstep ▸ hdrop
    · next call hcall =>
      split at hstep
      · exact Option.some.inj hstep ▸ hdrop
      · next message hmessage =>
        obtain rfl := Option.some.inj hstep
        exact (h.ofSame rfl rfl rfl rfl trivial trivial :
          Shape x { s with reader := .reading, broker := .delivering k message }).advances rfl
            (by rw [hreader]; rfl) (by rw [hready]; rfl) rfl rfl (by simp)

/-- The broker takes the channel. -/
theorem Shape.takeChannel (h : Shape x s) (hregistry : s.Registry) {k : ℕ}
    (hstep : s.step protocols (.takeChannel k) = some t) : Advances x (.takeChannel k) [] s t := by
  simp only [SessionState.step, Option.bind_eq_bind, Option.bind_eq_some_iff,
    Option.ite_none_right_eq_some, Broker.isReady_iff, Option.some.injEq] at hstep
  obtain ⟨call, hcall, ⟨hready, hphase⟩, hstep⟩ := hstep
  obtain rfl := h.call_eq hcall
  have hshape := h.call call hcall
  have hchannel := h.unregistered hregistry hcall (by rw [hphase]; decide) call.handle.id
  simp only [SessionState.register, hchannel, Option.isSome_none, Bool.false_eq_true,
    if_false] at hstep
  subst hstep
  have hcall' : CallShape x { call with phase := .returned } :=
    hshape.setPhase (fun _ => hshape.number (.inr (by rw [hphase]; rfl))) (by intro err herr; cases herr) (by decide)
      (fun hx _ => hshape.late hx (.inl hphase))
  refine h.goOnSame { call with phase := .returned } hcall (by rfl) hcall' (by rfl) (by rfl)
    (by exact brokerShape_ready hready) (by rfl) (by rfl) ?_ ?_ ?_ ?_ (by rfl) (by simp)
  · cases x <;> simp [hasGot, isTold, hphase]
  · cases x <;> simp [hasTold, hphase]
  · simp [awaitsAccept, hphase]
  · simp [awaitsOpen, hphase]

/-- The call of the responder is told about its channel, or a message is queued. -/
theorem Shape.pass (h : Shape x s) (hstep : s.step protocols .pass = some t) :
    Advances x .pass [] s t := by
  simp only [SessionState.step] at hstep
  split at hstep
  · next k i p hbroker =>
    simp only [Option.bind_eq_bind, Option.bind_eq_some_iff, Option.ite_none_right_eq_some,
      Option.some.injEq] at hstep
    obtain ⟨call, hcall, hphase, rfl⟩ := hstep
    have hopening := h.broker
    unfold BrokerShape at hopening
    rw [hbroker] at hopening
    obtain ⟨rfl, rfl, rfl, hawaits⟩ := hopening
    have hshape := h.call call hcall
    rw [hcall, Option.any_some] at hawaits
    have hkind : call.kind = .acceptor := by
      simp only [awaitsOpen, Bool.and_eq_true, decide_eq_true_eq] at hawaits
      exact hawaits.1
    have hx : x = .responder := by
      cases x with
      | initiator => cases hkind.symm.trans hshape.kind
      | responder => rfl
    subst hx
    have haccepts := h.accepts_eq_none hcall (by simp [awaitsAccept, hkind])
    have hopens : s.opens = onlyAt 1 := by rw [h.opens, hcall, opensOf, Option.any_some, hawaits]; rfl
    have hcall' : CallShape .responder { call with handle := ⟨call.handle.protocolId, 1⟩, phase := .writing } :=
      ⟨hshape.kind, hshape.protocol, hshape.closed, hshape.exited, fun _ => rfl, fun _ herr => (by cases herr),
        fun hearly => (by cases hearly), fun hx => (by cases hx)⟩
    refine ⟨h.ofCall _ (by rfl) hcall' ?_ ?_ (brokerShape_ready rfl) h.reader, ?_, ?_, by simp⟩
    · simp only [SessionState.opened, SessionState.setCall, haccepts]
      simp [acceptsOf, awaitsAccept, hkind]
    · simp [SessionState.opened, hopens, opensOf, awaitsOpen, onlyAt]
    · simp [gotten, SessionState.opened, SessionState.setCall, hbroker, hcall, hasGot, hphase,
        isTold, isOpening, SessionEvent.receives]
    · simp [told, SessionState.opened, SessionState.setCall, hcall, hasTold, hphase]
  · next k message hbroker =>
    simp only [Option.bind_eq_bind, Option.bind_eq_some_iff, Option.ite_none_left_eq_some,
      Option.some.injEq, Bool.not_eq_true] at hstep
    obtain ⟨call, hcall, -, rfl⟩ := hstep
    obtain rfl := h.call_eq hcall
    have hshape := h.call call hcall
    have hcall' : CallShape x { call with queue := call.queue ++ [message] } :=
      ⟨hshape.kind, hshape.protocol, hshape.closed, hshape.exited, hshape.number, hshape.failed, hshape.early,
        hshape.late⟩
    exact h.goOnSame _ hcall (by rfl) hcall' (by rfl) (by rfl) (by exact brokerShape_ready rfl)
      (by rw [hbroker]; rfl) (by rfl) (by cases x <;> rfl) (by cases x <;> rfl) (by rfl) (by rfl) (by rfl) (by simp)
  all_goals cases hstep

/-- The call writes the message that creates the channel. -/
theorem Shape.writeCall (h : Shape x s) {k : ℕ}
    (hstep : s.step protocols (.writeCall k none) = some t) :
    Advances x (.writeCall k none) (s.sends protocols (.writeCall k none)) s t := by
  simp only [SessionState.step, Option.bind_eq_bind, Option.bind_eq_some_iff,
    Option.ite_none_right_eq_some, Option.some.injEq] at hstep
  obtain ⟨call, hcall, hphase, rfl⟩ := hstep
  obtain rfl := h.call_eq hcall
  have hshape := h.call call hcall
  have hopens := h.opens_eq_none hcall (by simp [awaitsOpen, hphase])
  have hbroker (call' : ChannelCall N) : BrokerShape (s.setCall 0 call') := by
    refine h.broker.congr (by rfl) id ?_
    rw [hcall]
    simp [awaitsOpen, hphase]
  cases x with
  | initiator =>
    have hkind : call.kind = .opener := hshape.kind
    have hid := hshape.number (.inl rfl)
    have hprotocol := hshape.protocol
    have hsends : s.sends protocols (.writeCall 0 none) = [⟨some (.openChannel 1 1)⟩] := by
      simp only [SessionState.sends, hcall, hkind, ChannelHandle.openMessage, hid, hprotocol]
    have hcall' : CallShape .initiator { call with phase := .waiting } := by
      refine hshape.setPhase (fun _ => hid) (fun _ herr => by cases herr) (by decide) ?_
      rintro - (hother | hother) <;> cases hother
    have hafter : SessionState.afterWrite call.kind = .waiting := by rw [hkind]; rfl
    rw [hsends, hafter]
    refine ⟨h.ofCall _ (by rfl) hcall' ?_ ?_ (hbroker _) h.reader, ?_, ?_, ?_⟩
    · simp [SessionState.setCall, h.accepts, hcall, acceptsOf, awaitsAccept, hkind, hphase]
    · simp [SessionState.setCall, hopens, opensOf, awaitsOpen, hkind]
    · simp [gotten, SessionState.setCall, hcall, hasGot, SessionEvent.receives]
    · have hcreates : createsChannel ⟨some (.openChannel 1 1)⟩ = true := rfl
      simp [told, SessionState.setCall, hcall, hasTold, hphase, hcreates]
    · intro m hm
      obtain rfl := List.mem_singleton.mp hm
      exact ⟨rfl, rfl, rfl⟩
  | responder =>
    have hkind : call.kind = .acceptor := hshape.kind
    have hid := hshape.number (.inr (by rw [hphase]; rfl))
    have haccepts := h.accepts_eq_none hcall (by simp [awaitsAccept, hkind])
    have hsends : s.sends protocols (.writeCall 0 none) = [⟨some (.acceptChannel 1)⟩] := by
      simp only [SessionState.sends, hcall, hkind, ChannelHandle.acceptMessage, hid]
    have hcall' : CallShape .responder { call with phase := .joining } := by
      refine hshape.setPhase (fun _ => hid) (fun _ herr => by cases herr) (by decide) ?_
      intro hx
      cases hx
    have hafter : SessionState.afterWrite call.kind = .joining := by rw [hkind]; rfl
    rw [hsends, hafter]
    refine ⟨h.ofCall _ (by rfl) hcall' ?_ ?_ (hbroker _) h.reader, ?_, ?_, ?_⟩
    · simp [SessionState.setCall, haccepts, acceptsOf, awaitsAccept, hkind]
    · simp [SessionState.setCall, hopens, opensOf, awaitsOpen]
    · simp [gotten, SessionState.setCall, hcall, hasGot, isTold, hphase, SessionEvent.receives]
    · have hcreates : createsChannel ⟨some (.acceptChannel 1)⟩ = true := rfl
      simp [told, SessionState.setCall, hcall, hasTold, hphase, hcreates]
    · intro m hm
      obtain rfl := List.mem_singleton.mp hm
      exact ⟨rfl, rfl⟩

/-- An opener finds its channel to be accepted. -/
theorem Shape.proceed (h : Shape x s) {k : ℕ} (hstep : s.step protocols (.proceed k) = some t) :
    Advances x (.proceed k) [] s t := by
  simp only [SessionState.step, Option.bind_eq_bind, Option.bind_eq_some_iff,
    Option.ite_none_right_eq_some, Option.some.injEq] at hstep
  obtain ⟨call, hcall, ⟨hkind, hphase, haccepted⟩, rfl⟩ := hstep
  obtain rfl := h.call_eq hcall
  have hshape := h.call call hcall
  have hx : x = .initiator := by
    cases x with
    | initiator => rfl
    | responder => cases hkind.symm.trans hshape.kind
  subst hx
  have hcall' : CallShape .initiator { call with phase := .joining } :=
    hshape.setPhase (fun _ => hshape.number (.inl rfl)) (fun _ herr => by cases herr) (by decide) fun _ _ => haccepted
  refine h.goOnSame { call with phase := .joining } hcall (by rfl) hcall' (by rfl) (by rfl) ?_
    (by rfl) (by rfl) ?_ ?_ ?_
    ?_ (by rfl) (by simp)
  · refine h.broker.congr (by rfl) id ?_
    rw [hcall]
    simp [awaitsOpen, hkind]
  · simp [hasGot]
  · simp [hasTold, hphase]
  · simp [awaitsAccept, haccepted]
  · simp [awaitsOpen, hkind]

/-- The reading goroutine receives a message. -/
theorem Shape.receive (h : Shape x s) {message : Session.Message}
    (hmessage : MessageShape x message) (hstep : s.step protocols (.receive message) = some t) :
    Advances x (.receive message) [] s t := by
  simp only [SessionState.step] at hstep
  split at hstep
  · next hreader =>
    obtain rfl := Option.some.inj hstep
    have hheld : ReaderShape x (readHandler message) := by
      unfold MessageShape at hmessage
      unfold ReaderShape
      split <;> simp_all
    refine ⟨h.ofSame rfl rfl rfl rfl h.broker hheld, ?_, rfl, by simp⟩
    have hcount : [message].countP createsChannel = (isHandshake (readHandler message)).toNat := by
      rcases Bool.eq_false_or_eq_true (isHandshake (readHandler message)) with hcreates | hcreates <;>
        simp [createsChannel, hcreates]
    simp only [gotten, hreader, SessionEvent.receives, hcount]
    change _ = 0 + _ + _ + _
    omega
  · cases hstep

/-- A message is written to the channel. -/
theorem Shape.write (h : Shape x s) {k : ℕ} {message : N}
    (hstep : s.step protocols (.write k message none) = some t) :
    Advances x (.write k message none) (s.sends protocols (.write k message none)) s t := by
  simp only [SessionState.step, Option.bind_eq_bind, Option.bind_eq_some_iff,
    Option.ite_none_right_eq_some] at hstep
  obtain ⟨call, hcall, ⟨hphase, -⟩, hstep⟩ := hstep
  obtain rfl := h.call_eq hcall
  have hshape := h.call call hcall
  cases hwrap : call.handle.wrapMessage protocols message with
  | error err =>
    rw [hwrap] at hstep
    obtain rfl := Option.some.inj hstep
    have hsends : s.sends protocols (.write 0 message none) = [] := by simp only [SessionState.sends, hcall, hwrap]
    rw [hsends]
    exact h.advances rfl rfl rfl rfl rfl (by simp)
  | ok data =>
    rw [hwrap] at hstep
    obtain rfl := Option.some.inj hstep
    have hsends : s.sends protocols (.write 0 message none) = [⟨some (.data data)⟩] := by
      simp only [SessionState.sends, hcall, hwrap]
    have hid : data.channelId = 1 :=
      (ChannelHandle.wrapMessage_channelId hwrap).trans (hshape.number (.inr (by rw [hphase]; rfl)))
    have hcall' : CallShape x { call with written := call.written ++ [message] } :=
      ⟨hshape.kind, hshape.protocol, hshape.closed, hshape.exited, hshape.number, hshape.failed, hshape.early,
        hshape.late⟩
    rw [hsends]
    refine h.goOnSame _ hcall (by rfl) hcall' (by rfl) (by rfl) ?_ (by rfl) (by rfl) (by cases x <;> rfl)
      (by cases x <;> rfl) (by rfl) (by rfl) (by rfl) ?_
    · refine h.broker.congr (by rfl) id ?_
      rw [hcall]
      simp [awaitsOpen, hphase]
    · intro m hm
      obtain rfl := List.mem_singleton.mp hm
      exact ⟨hid, rfl⟩

/-- A message is read from the channel. -/
theorem Shape.read (h : Shape x s) {k : ℕ} (hstep : s.step protocols (.read k) = some t) :
    Advances x (.read k) [] s t := by
  simp only [SessionState.step, Option.bind_eq_bind, Option.bind_eq_some_iff] at hstep
  obtain ⟨call, hcall, hstep⟩ := hstep
  obtain rfl := h.call_eq hcall
  have hshape := h.call call hcall
  split at hstep
  · cases hstep
  · next message rest hqueue =>
    simp only [Option.ite_none_right_eq_some, Option.some.injEq] at hstep
    obtain ⟨⟨hphase, -⟩, rfl⟩ := hstep
    have hcall' : CallShape x { call with queue := rest, read := call.read ++ [message] } :=
      ⟨hshape.kind, hshape.protocol, hshape.closed, hshape.exited, hshape.number, hshape.failed, hshape.early,
        hshape.late⟩
    refine h.goOnSame _ hcall (by rfl) hcall' (by rfl) (by rfl) ?_ (by rfl) (by rfl) (by cases x <;> rfl)
      (by cases x <;> rfl) (by rfl) (by rfl) (by rfl) (by simp)
    refine h.broker.congr (by rfl) id ?_
    rw [hcall]
    simp [awaitsOpen, hphase]

end Step

end ProjektCore.Programs
