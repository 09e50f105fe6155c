import ProjektCore.Programs.Transfer
import ProjektCore.Session.Announced
import ProjektCore.Transfer.Sturdy

/-!
# The programs do not panic

The panics of the layers are those of the brokers of the sessions and those of the two sides of the
transfer. Each program makes one call on its session, so nothing is awaited twice and the numbers of
the channels do not clash; and the sides of the transfer get only messages of each other. So a
broker or a loop panics in some state that the two programs reach exactly if the file is empty, in
any order of the steps of their goroutines. The reading goroutines of the sessions panic at an error
of the connection other than its end or its closing; runs with such an error are not considered.
-/

namespace ProjektCore.Programs

open Foundation Protocol Session

variable {M : Type} {State : End → Type}

namespace Stack

variable {c : Setup M State} {p q : Stack c}

/-- The broker of a session or the loop of a program has panicked. -/
def Panicked (p : Stack c) : Prop :=
  ∃ x, (p.link.sessions x).broker = .panicked ∨ ∃ l value, p.loops x = some l ∧ l.phase = .panicked value

/-- The sessions make their steps as sessions whose calls are kept apart, and a program that has not
made its call yet has an open session with all its numbers. -/
structure Apart (p : Stack c) : Prop where
  link : Reached (Link.step c.protocols) Link.CallsApart .new p.link
  fresh : ∀ x, (p.link.sessions x).calls 0 = none →
    (p.link.sessions x).nextId = x.firstId ∧ (p.link.sessions x).isDone = false

/-- Nothing has happened in new programs. -/
theorem apart_new : Apart (new : Stack c) := ⟨.start, fun _ _ => ⟨rfl, rfl⟩⟩

end Stack

section Session

variable {N : Type} {protocols : Protocols N} {s t : SessionState N} {event : SessionEvent N}

/-- A step that is made by a goroutine or on a channel needs no number and awaits nothing. -/
theorem callsApart_of_inner (h : isInner event = true) :
    s.AwaitsOnce event ∧ s.NumbersLeft event := by
  cases event with
  | openChannel | acceptChannel => cases h
  | _ => exact ⟨trivial, trivial⟩

/-- Such a step neither closes the session nor takes a number. -/
theorem fresh_of_inner (hinner : isInner event = true) (h : s.step protocols event = some t) :
    t.nextId = s.nextId ∧ t.isDone = s.isDone := by
  have heffect := SessionState.step_effect h
  generalize s.sends protocols event = sent at heffect
  cases heffect with
  | openChannel | closeSession => cases hinner
  | _ => exact ⟨rfl, rfl⟩

end Session

namespace Stack

variable {c : Setup M State} {p q : Stack c}

/-- A step of one session keeps the calls apart. -/
theorem Apart.act (h : p.Apart) {x : End} {event : SessionEvent c.Encoded} {link : Link c.Encoded}
    (hstep : p.link.step c.protocols (.act x event) = some link)
    (hguard : (p.link.sessions x).AwaitsOnce event ∧ (p.link.sessions x).NumbersLeft event)
    (hpeer : link.sessions x.peer = p.link.sessions x.peer)
    (hcall : ((link.sessions x).calls 0).isSome = true) {q : Stack c} (hq : q.link = link) :
    q.Apart := by
  subst hq
  refine ⟨h.link.extend (.act x event) hguard hstep, ?_⟩
  intro y hnone
  by_cases hy : y = x
  · subst hy
    rw [hnone] at hcall
    cases hcall
  · obtain rfl := End.eq_peer_of_ne hy
    rw [hpeer] at hnone ⊢
    exact h.fresh x.peer hnone

/-- The goroutines of the sessions keep the calls apart. -/
theorem Apart.session (h : p.Apart) {event : LinkEvent c.Encoded} {link : Link c.Encoded}
    (hinner : isInnerLink event = true) (hstep : p.link.step c.protocols event = some link) :
    Apart { p with link := link } := by
  have hguard : p.link.CallsApart event := by
    cases event with
    | act x event => exact callsApart_of_inner hinner
    | deliver x => trivial
  refine ⟨h.link.next hguard hstep, ?_⟩
  intro y hnone
  have hkept := kept_of_link hinner hstep y 0
  obtain ⟨x, e, s, rest, hs, hact, -, hx, hpeer, -⟩ := Link.step_eq_some hstep
  change (link.sessions y).calls 0 = none at hnone
  rw [hnone] at hkept
  have hbefore : (p.link.sessions y).calls 0 = none := by
    generalize (p.link.sessions y).calls 0 = before at hkept
    cases hkept
    rfl
  obtain ⟨hnext, hdone⟩ := h.fresh y hbefore
  by_cases hy : y = x
  · subst hy
    have hinner' : isInner e = true := by
      by_cases hreceives : e.receives = []
      · rw [hact hreceives] at hinner
        exact hinner
      · cases e with
        | receive message => rfl
        | _ => exact absurd rfl hreceives
    obtain ⟨hnext', hdone'⟩ := fresh_of_inner hinner' hs
    rw [← hx] at hnext' hdone'
    exact ⟨hnext'.trans hnext, hdone'.trans hdone⟩
  · obtain rfl := End.eq_peer_of_ne hy
    change (link.sessions x.peer).nextId = _ ∧ (link.sessions x.peer).isDone = _
    rw [hpeer]
    exact ⟨hnext, hdone⟩

/-- A program makes its call when it has made none. -/
theorem Apart.call (h : p.Apart) (hsound : p.Sound) {x : End} {link : Link c.Encoded}
    (hstep : p.link.step c.protocols (.act x (c.channelCall x)) = some link) :
    Apart { p with link := link } := by
  have hact : p.link.act c.protocols x (c.channelCall x) = some link := by cases x <;> exact hstep
  obtain ⟨hs, hpeer⟩ := act_sessions hact
  have hnone : (p.link.sessions x).calls 0 = none := by
    cases hcall : (p.link.sessions x).calls 0 with
    | none => rfl
    | some call => cases x <;> simp [Setup.channelCall, SessionState.step, hcall] at hs
  obtain ⟨hnext, hdone⟩ := h.fresh x hnone
  have hcalls (k : ℕ) (call : ChannelCall c.Encoded) : (p.link.sessions x).calls k ≠ some call := by
    intro hcall
    obtain ⟨rfl, -⟩ := hsound.calls x k call hcall
    rw [hnone] at hcall
    cases hcall
  refine h.act hstep ?_ hpeer ?_ rfl
  · cases x with
    | initiator => exact ⟨trivial, by rw [Setup.channelCall, SessionState.NumbersLeft, hnext]; decide⟩
    | responder => exact ⟨⟨hdone, fun k call hcall => absurd hcall (hcalls k call)⟩, trivial⟩
  · cases x with
    | initiator =>
      simp only [Setup.channelCall, SessionState.step, hnone, Option.some.injEq] at hs
      rw [← hs, SessionState.setCall_self]
      rfl
    | responder =>
      simp only [Setup.channelCall, SessionState.step, hnone, Option.some.injEq] at hs
      rw [← hs, SessionState.setCall_self]
      rfl

/-- Every step keeps the calls apart. -/
theorem Apart.step (h : p.Apart) (hsound : p.Sound) (hsound' : q.Sound) {event : StackEvent c}
    (hstep : p.step event = some q) : q.Apart := by
  -- a channel is used and a session is closed only while there is a loop, so the call was made before
  have hloop {x : End} {l : Loop (State x) M} {e : SessionEvent c.Encoded} {link : Link c.Encoded}
      (hlink : p.link.step c.protocols (.act x e) = some link)
      (hguard : (p.link.sessions x).AwaitsOnce e ∧ (p.link.sessions x).NumbersLeft e)
      (hpeer : link.sessions x.peer = p.link.sessions x.peer) (hq : q.link = link) (hl : q.loops x = some l) :
      q.Apart := by
    obtain ⟨call, hcall, -⟩ := hsound'.call_of_loop hl
    exact h.act hlink hguard hpeer (by rw [← hq, hcall]; rfl) hq
  cases event with
  | session event =>
    simp only [Stack.step, Option.ite_none_right_eq_some, Option.map_eq_some_iff] at hstep
    obtain ⟨hinner, link, hlink, rfl⟩ := hstep
    exact h.session hinner hlink
  | call x =>
    obtain ⟨link, hlink, rfl⟩ := Option.map_eq_some_iff.mp hstep
    exact h.call hsound hlink
  | run x =>
    simp only [Stack.step] at hstep
    split at hstep
    · obtain ⟨-, heq⟩ := Option.ite_none_right_eq_some.mp hstep
      obtain rfl := Option.some.inj heq
      exact ⟨h.link, h.fresh⟩
    · cases hstep
  | iterate x event =>
    simp only [Stack.step, Option.bind_eq_bind, Option.bind_eq_some_iff,
      Option.ite_none_right_eq_some, Option.map_eq_some_iff] at hstep
    obtain ⟨l, -, -, l', -, rfl⟩ := hstep
    exact ⟨h.link, h.fresh⟩
  | write x failure =>
    simp only [Stack.step, Option.bind_eq_bind, Option.bind_eq_some_iff] at hstep
    obtain ⟨l, -, call, -, hstep⟩ := hstep
    split at hstep
    · split at hstep
      · simp only [Option.bind_eq_some_iff, Option.some.injEq] at hstep
        obtain ⟨link, hlink, l', -, rfl⟩ := hstep
        exact hloop hlink ⟨trivial, trivial⟩ (act_sessions hlink).2 rfl (setLoop_self _ x l')
      · cases hstep
    · cases hstep
  | read x =>
    simp only [Stack.step, Option.bind_eq_bind, Option.bind_eq_some_iff] at hstep
    obtain ⟨l, -, call, -, hstep⟩ := hstep
    split at hstep
    · cases hstep
    · simp only [Option.bind_eq_some_iff, Option.some.injEq] at hstep
      obtain ⟨link, hlink, l', -, rfl⟩ := hstep
      exact hloop hlink ⟨trivial, trivial⟩ (act_sessions hlink).2 rfl (setLoop_self _ x l')
  | close x =>
    simp only [Stack.step, Option.bind_eq_bind, Option.bind_eq_some_iff] at hstep
    obtain ⟨l, hl, hstep⟩ := hstep
    split at hstep
    · obtain ⟨link, hlink, rfl⟩ := Option.map_eq_some_iff.mp hstep
      exact hloop hlink ⟨trivial, trivial⟩ (act_sessions hlink).2 rfl hl
    · cases hstep

/-- The calls of two programs are kept apart. -/
theorem apart_of_reached (h : Reached Stack.step anyStep (new : Stack c) p) : p.Apart := by
  induction h with
  | start => exact apart_new
  | next hp hguard hstep ih =>
    exact ih.step (sound_of_reached hp) (sound_of_reached (hp.next hguard hstep)) hstep

/-- A loop panics when a call of its side does. -/
theorem loop_of_panic {event : StackEvent c} (h : p.step event = some q) {x : End}
    {l' : Loop (State x) M} {value : Panic Err} (hl' : q.loops x = some l')
    (hpanic : l'.phase = .panicked value)
    (hfine : ∀ l, p.loops x = some l → l.phase ≠ .panicked value) :
    ∃ l, p.loops x = some l ∧ hasFailed l.phase = false ∧
      ((c.side x).write l.side = .error value ∨
        ∃ message, l.reader = .offering message ∧ (c.side x).read l.side message = .error value) := by
  have hloop {y : End} {l next : Loop (State y) M} {loopEvent : LoopEvent M}
      (hl : p.loops y = some l) (hstep : l.step (c.side y) loopEvent = some next)
      (hq : q.loops = (p.setLoop y next).loops) :
      ∃ l, p.loops x = some l ∧ hasFailed l.phase = false ∧
        ((c.side x).write l.side = .error value ∨
          ∃ message, l.reader = .offering message ∧ (c.side x).read l.side message = .error value) := by
    rw [hq] at hl'
    by_cases hx : x = y
    · subst hx
      rw [setLoop_self, Option.some.injEq] at hl'
      subst hl'
      refine ⟨l, hl, ?_⟩
      cases Loop.step_effect hstep with
      | finish | fail => cases hpanic
      | @send message err => cases err <;> cases hpanic
      | arrive | lose | quit => exact absurd hpanic (hfine l hl)
      | write hphase =>
        refine ⟨by rw [hphase]; rfl, .inl ?_⟩
        rcases hwrite : (c.side x).write l.side with value' | ⟨side, message, _ | err⟩
        · rw [hwrite] at hpanic
          rw [LoopPhase.panicked.inj hpanic]
        · rw [hwrite] at hpanic
          cases hpanic
        · rw [hwrite] at hpanic
          cases hpanic
      | @read message hphase hreader =>
        refine ⟨by rw [hphase]; rfl, .inr ⟨message, hreader, ?_⟩⟩
        rcases hread : (c.side x).read l.side message with value' | ⟨side, _ | err⟩
        · rw [hread] at hpanic
          rw [LoopPhase.panicked.inj hpanic]
        · rw [hread] at hpanic
          exact absurd hpanic (hfine l hl)
        · rw [hread] at hpanic
          cases hpanic
    · rw [setLoop_of_ne _ next hx] at hl'
      exact absurd hpanic (hfine l' hl')
  cases step_effect h with
  | sessions | call => exact absurd hpanic (hfine l' hl')
  | @run y call hnone =>
    by_cases hx : x = y
    · subst hx
      rw [setLoop_self, Option.some.injEq] at hl'
      subst hl'
      cases hpanic
    · rw [setLoop_of_ne _ _ hx] at hl'
      exact absurd hpanic (hfine l' hl')
  | @iterate y l next loopEvent hl _ hstep => exact hloop hl hstep rfl
  | write hl _ _ _ hsend => exact hloop hl hsend rfl
  | read hl _ _ _ harrive => exact hloop hl harrive rfl

/-- A step of a loop is a step of the programs. -/
theorem step_iterate {x : End} {l l' : Loop (State x) M} {event : LoopEvent M}
    (hl : p.loops x = some l) (hinner : isInnerLoop event = true)
    (hstep : l.step (c.side x) event = some l') :
    p.step (.iterate x event) = some (p.setLoop x l') := by
  simp only [step, hl, hinner, hstep, Option.bind_eq_bind, Option.bind_some, if_true,
    Option.map_some]

/-- The channel takes a message that it can wrap. -/
theorem step_write {x : End} {l : Loop (State x) M} (hl : p.loops x = some l)
    {call : ChannelCall c.Encoded} (hcall : (p.link.sessions x).calls 0 = some call)
    (hreturned : call.phase = .returned) (hopen : call.isClosed = false) {message : c.Encoded}
    (hphase : l.phase = .sending (some message.val)) {data : Data}
    (hwrap : call.handle.wrapMessage c.protocols message = .ok data) :
    ∃ link, p.step (.write x none) =
      some ({ p with link := link }.setLoop x (l.afterSend (some message.val) none)) := by
  obtain ⟨message, hencodable⟩ := message
  simp only [step, hl, hcall, hphase, hencodable, dite_true, Link.step, Link.act, SessionState.step,
    hreturned, hopen, hwrap, Loop.step, writeError, Option.bind_eq_bind, Option.bind_some, and_self,
    if_true]
  exact ⟨_, rfl⟩

end Stack

section Transfer

open Transfer

variable {decoder : Decoder} {sha256 : Bytes → Bytes} {data : Bytes} {filename : Bytes}
  {client : Client MessageType Transfer.Message SenderFields}
  {client' : Client MessageType Transfer.Message ReceiverFields}
  (ha : (senderMachine sha256).side.Embeds Peer.side ((senderMachine sha256).peer client))
  (hb : (receiverMachine sha256).side.Embeds Peer.side ((receiverMachine sha256).peer client'))

include ha hb in
/-- The loops of a transfer of some data do not panic. -/
theorem loops_never_panic (hdata : data ≠ []) (hfits : blockSize.Fits data.length)
    {p : Stack (clientSetup decoder sha256 client client' filename data)}
    (h : Reached Stack.step anyStep .new p) (x : End) (value : Panic Err) :
    ∀ l, p.loops x = some l → l.phase ≠ .panicked value := by
  have hfresh : Fresh bufferFactory := fun _ size => ⟨.make size, rfl, by simp [Store.make, Store.ofBytes], rfl⟩
  induction h with
  | start =>
    intro l hl
    cases hl
  | @next p q event hp _ hstep ih =>
    intro l' hl' hpanic
    obtain ⟨l, hl, hfine, hcause⟩ := Stack.loop_of_panic hstep hl' hpanic ih
    have hsound := Stack.sound_of_reached hp
    obtain ⟨n, hn, hrefines⟩ := refines_of_reached _ hp
    obtain ⟨m, rfl, hsturdy⟩ := sturdy_of_reached hfits hfresh ha hb hn
    cases x with
    | initiator =>
      have hside : (senderMachine sha256).peer client m.left = l.side := hrefines.left.eq_side hl hfine
      rcases hcause with hwrite | ⟨message, hreader, hread⟩
      · exact hsturdy.leftWrites hdata value (ha.write_panics.mp (hside ▸ hwrite))
      · have hmem : message ∈ m.toLeft := hrefines.toLeft ▸ hsound.offered_mem hl hreader
        exact hsturdy.leftReads hmem value (ha.read_panics.mp (hside ▸ hread))
    | responder =>
      have hside : (receiverMachine sha256).peer client' m.right = l.side := hrefines.right.eq_side hl hfine
      rcases hcause with hwrite | ⟨message, hreader, hread⟩
      · exact hsturdy.rightWrites value (hb.write_panics.mp (hside ▸ hwrite))
      · have hmem : message ∈ m.toRight := hrefines.toRight ▸ hsound.offered_mem hl hreader
        exact hsturdy.rightReads hfits hmem value (hb.read_panics.mp (hside ▸ hread))

include ha in
/-- The loop of the sender of an empty file panics once the header is sent. -/
theorem empty_file_panics (hname : Metadata.NameFits ⟨filename⟩) (receiver : Receiver) :
    ∃ p : Stack (transferSetup decoder ((senderMachine sha256).peer client
      (transferStart (some ⟨filename⟩) bufferFactory [] blockSize).left) receiver),
      Reached Stack.step anyStep .new p ∧ p.Panicked := by
  let side := (transferStart (some ⟨filename⟩) bufferFactory [] blockSize).left
  let c := transferSetup decoder ((senderMachine sha256).peer client side) receiver
  -- the loop of the sender has started
  obtain ⟨p, hp, hloop, call, hcall, hreturned, hopen⟩ : ∃ p : Stack c,
      execute Stack.step anyStep (startedLoops c) .new = some p ∧
      p.loops .initiator = some ((Loop.new side).map ((senderMachine sha256).peer client)) ∧
      ∃ call, (p.link.sessions .initiator).calls 0 = some call ∧ call.phase = .returned ∧ call.isClosed = false :=
    ⟨_, rfl, rfl, _, rfl, rfl, rfl⟩
  have hstarted := reached_of_execute _ hp
  -- its side returns the header, which fits
  obtain ⟨l, hwrite, hphase, value, l', hpanics, hpanic⟩ :
      ∃ l, (Loop.new side).step (senderMachine sha256).side .write = some l ∧
        l.phase = .sending (some (.header (headerOf [] blockSize (some ⟨filename⟩)))) ∧
        ∃ value l', (l.afterSend (some (.header (headerOf [] blockSize (some ⟨filename⟩)))) none).step
          (senderMachine sha256).side .write = some l' ∧ l'.phase = .panicked value :=
    ⟨_, rfl, rfl, _, _, rfl, rfl⟩
  have hfits : (Message.header (headerOf [] blockSize (some ⟨filename⟩))).Fits :=
    header_fits ⟨by decide, by decide⟩ hname
  obtain ⟨hencodable, data, hwrap⟩ := wraps_of_fits decoder hfits call.handle
  have hfirst : ((Loop.new side).map ((senderMachine sha256).peer client)).step Peer.side .write =
      some (l.map ((senderMachine sha256).peer client)) := by
    rw [Loop.step_map ha, hwrite]
    rfl
  have hsends := hstarted.extend (.iterate .initiator .write) trivial (Stack.step_iterate hloop rfl hfirst)
  have hsending : (l.map ((senderMachine sha256).peer client)).phase =
      .sending (some (.header (headerOf [] blockSize (some ⟨filename⟩)))) := hphase
  obtain ⟨link, hlink⟩ :=
    Stack.step_write (Stack.setLoop_self p .initiator _) hcall hreturned hopen hsending hwrap
  have hdecides := hsends.extend (.write .initiator none) trivial hlink
  -- there is no block to be written
  have hsecond : ((l.afterSend (some (.header (headerOf [] blockSize (some ⟨filename⟩)))) none).map
      ((senderMachine sha256).peer client)).step Peer.side .write =
        some (l'.map ((senderMachine sha256).peer client)) := by
    rw [Loop.step_map ha, hpanics]
    rfl
  have hpanicked := hdecides.extend (.iterate .initiator .write) trivial
    (Stack.step_iterate (Stack.setLoop_self _ .initiator _) rfl hsecond)
  exact ⟨_, hpanicked, .initiator, .inr ⟨_, value, Stack.setLoop_self _ .initiator _, hpanic⟩⟩

/-- A broker or a loop of the programs that send and receive a file panics in some state that they
reach exactly if the file is empty, for every name that is a text and fits. The goroutines make
their steps in any order, writing to the connection may fail, and reading from it ends only with its
end or its closing. -/
theorem programs_panic_iff (decoder : Decoder) (sha256 : Bytes → Bytes) (data : Bytes)
    (hdata : data.length < 2 ^ 63) (filename : Bytes) (hname : Metadata.NameFits ⟨filename⟩) :
    ∃ sender receiver,
      newSender sha256 (some ⟨filename⟩) (newBlockReader (.ofBytes data) data.length blockSize) = .ok sender ∧
      newReceiver sha256 bufferFactory = .ok receiver ∧
      ((∃ p, Reached Stack.step anyStep (.new : Stack (transferSetup decoder sender receiver)) p ∧ p.Panicked) ↔
        data = []) := by
  have hfits : blockSize.Fits data.length := ⟨hdata, by decide⟩
  obtain ⟨client, client', hsender, hreceiver, ha, hb⟩ :=
    transferStart_embeds sha256 (some ⟨filename⟩) bufferFactory data blockSize
  refine ⟨_, _, hsender, hreceiver, ?_, ?_⟩
  · rintro ⟨p, hp, x, hbroker | ⟨l, value, hl, hphase⟩⟩
    · exact absurd hbroker (Link.peaceful_of_reached (Stack.apart_of_reached hp).link x).running
    · by_contra hdata
      exact loops_never_panic ha hb hdata hfits hp x value l hl hphase
  · rintro rfl
    exact empty_file_panics ha hname _

/-- The programs that send and receive a file of one byte do not panic. -/
theorem programs_panic_iff_one_byte :
    ∃ sender receiver,
      newSender (fun _ => []) (some ⟨[]⟩) (newBlockReader (.ofBytes [1]) 1 blockSize) = .ok sender ∧
      newReceiver (fun _ => []) bufferFactory = .ok receiver ∧
      ∀ p, Reached Stack.step anyStep (.new : Stack (transferSetup parser sender receiver)) p → ¬ p.Panicked := by
  obtain ⟨sender, receiver, hsender, hreceiver, hiff⟩ :=
    programs_panic_iff parser (fun _ => []) [1] (by decide) [] ⟨by decide, by decide⟩
  refine ⟨sender, receiver, hsender, hreceiver, fun p hp hpanicked => ?_⟩
  exact absurd (hiff.mp ⟨p, hp, hpanicked⟩) (by decide)

end Transfer

end ProjektCore.Programs
