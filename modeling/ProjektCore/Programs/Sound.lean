import ProjektCore.Programs.Stack
import ProjektCore.Session.Loss

/-!
# What the loops of two programs exchange

The loop of each program and its channel agree about what was read and written, and both programs
speak the same protocol on their channel. So what a loop has got was passed on by the other loop.
Nothing is assumed about the order in which the sessions register their channels, so the first
messages of a channel may be lost.
-/

namespace ProjektCore.Programs

open Foundation Protocol Session

variable {M : Type} {State : End → Type}

namespace Stack

variable {c : Setup M State} {p q : Stack c}

/-- What holds in every state of the two programs. -/
structure Sound (p : Stack c) : Prop where
  link : Reached (Link.step c.protocols) Link.Matched .new p.link
  calls : ∀ x k call, (p.link.sessions x).calls k = some call → k = 0 ∧ call.handle.protocolId = c.protocolId
  loop : ∀ x l, p.loops x = some l → Reached (Loop.step (c.side x)) anyStep (.new (c.start x)) l
  channel : ∀ x, Joined Subtype.val (p.loops x) ((p.link.sessions x).calls 0)

/-- Nothing has happened in new programs. -/
theorem sound_new : Sound (new : Stack c) where
  link := .start
  calls _ _ _ h := by cases h
  loop _ _ h := by cases h
  channel _ := trivial

/-- Both ends of a channel speak the protocol of the programs. -/
theorem Sound.matched (h : p.Sound) (event : LinkEvent c.Encoded) : p.link.Matched event := by
  have hprotocol {x : End} {i : ℕ} {handle : ChannelHandle} (hhandle : (p.link.sessions x).handleAt i = some handle) :
      handle.protocolId = c.protocolId := by
    simp only [SessionState.handleAt, SessionState.logAt, Option.map_eq_some_iff,
      Option.bind_eq_some_iff] at hhandle
    obtain ⟨log, ⟨k, -, call, hcall, rfl⟩, rfl⟩ := hhandle
    exact (h.calls x k call hcall).2
  unfold Link.Matched Link.isMatched
  split
  · split
    · simp only [Option.all_eq_true, decide_eq_true_eq]
      intro handle hhandle handle' hhandle'
      exact (hprotocol hhandle').trans (hprotocol hhandle).symm
    · rfl
  · rfl

/-- The sessions of two programs make the steps of two sessions. -/
theorem Sound.linkStep (h : p.Sound) {event : LinkEvent c.Encoded} {link : Link c.Encoded}
    (hstep : p.link.step c.protocols event = some link) :
    Reached (Link.step c.protocols) Link.Matched .new link :=
  h.link.next (h.matched event) hstep

/-- The goroutines of the sessions go on, or a session is closed. -/
theorem Sound.keep (h : p.Sound) {event : LinkEvent c.Encoded} {link : Link c.Encoded}
    (hstep : p.link.step c.protocols event = some link)
    (hkept : ∀ x k, Kept ((p.link.sessions x).calls k) ((link.sessions x).calls k)) :
    Sound { p with link := link } where
  link := h.linkStep hstep
  calls x k call' hcall' := by
    have hk := hkept x k
    rw [hcall'] at hk
    cases hcall : (p.link.sessions x).calls k with
    | none =>
      rw [hcall] at hk
      cases hk
    | some call =>
      rw [hcall] at hk
      obtain ⟨hzero, hprotocol⟩ := h.calls x k call hcall
      cases hk with
      | some _ _ hsame _ => exact ⟨hzero, hsame.trans hprotocol⟩
  loop := h.loop
  channel x := (h.channel x).keep (hkept x 0)

/-- The replaced loop. -/
theorem setLoop_self (p : Stack c) (x : End) (l : Loop (State x) M) :
    (p.setLoop x l).loops x = some l :=
  Function.update_self ..

/-- The loop of the other program. -/
theorem setLoop_of_ne (p : Stack c) {x y : End} (l : Loop (State x) M) (h : y ≠ x) :
    (p.setLoop x l).loops y = p.loops y :=
  Function.update_of_ne h ..

/-- One program goes on, and the other one stays as it is. -/
theorem Sound.update (h : p.Sound) {x : End}
    (hlink : Reached (Link.step c.protocols) Link.Matched .new q.link)
    (hpeer : q.link.sessions x.peer = p.link.sessions x.peer)
    (hother : q.loops x.peer = p.loops x.peer)
    (hcalls : ∀ k call, (q.link.sessions x).calls k = some call → k = 0 ∧ call.handle.protocolId = c.protocolId)
    (hloop : ∀ l, q.loops x = some l → Reached (Loop.step (c.side x)) anyStep (.new (c.start x)) l)
    (hjoined : Joined Subtype.val (q.loops x) ((q.link.sessions x).calls 0)) : q.Sound where
  link := hlink
  calls y := by
    by_cases hy : y = x
    · subst hy
      exact hcalls
    · obtain rfl := End.eq_peer_of_ne hy
      rw [hpeer]
      exact h.calls x.peer
  loop y := by
    by_cases hy : y = x
    · subst hy
      exact hloop
    · obtain rfl := End.eq_peer_of_ne hy
      rw [hother]
      exact h.loop x.peer
  channel y := by
    by_cases hy : y = x
    · subst hy
      exact hjoined
    · obtain rfl := End.eq_peer_of_ne hy
      rw [hpeer, hother]
      exact h.channel x.peer

/-- The calls of a program that has replaced its call. -/
theorem Sound.calls_setCall (h : p.Sound) {x : End} {s : SessionState c.Encoded}
    {call : ChannelCall c.Encoded} (hcalls : s.calls = ((p.link.sessions x).setCall 0 call).calls)
    (hprotocol : call.handle.protocolId = c.protocolId) (k : ℕ) (call' : ChannelCall c.Encoded)
    (hcall' : s.calls k = some call') : k = 0 ∧ call'.handle.protocolId = c.protocolId := by
  rw [hcalls] at hcall'
  rcases SessionState.setCall_cases hcall' with ⟨hk, rfl⟩ | ⟨-, hcall'⟩
  · exact ⟨hk, hprotocol⟩
  · exact h.calls x k call' hcall'

/-- A program replaces its call and its loop. -/
theorem Sound.replace (h : p.Sound) {x : End} {event : LinkEvent c.Encoded} {link : Link c.Encoded}
    (hstep : p.link.step c.protocols event = some link)
    (hpeer : link.sessions x.peer = p.link.sessions x.peer) {call : ChannelCall c.Encoded}
    (hcalls : (link.sessions x).calls = ((p.link.sessions x).setCall 0 call).calls)
    (hprotocol : call.handle.protocolId = c.protocolId) {l : Loop (State x) M}
    (hloop : Reached (Loop.step (c.side x)) anyStep (.new (c.start x)) l)
    (hjoined : Joined Subtype.val (some l) (some call)) :
    Sound ({ p with link := link }.setLoop x l) := by
  refine h.update (h.linkStep hstep) hpeer (setLoop_of_ne _ l x.peer_ne) (h.calls_setCall hcalls hprotocol) ?_ ?_
  · intro l' hl'
    rw [setLoop_self, Option.some.injEq] at hl'
    exact hl' ▸ hloop
  · rw [setLoop_self]
    change Joined Subtype.val (some l) ((link.sessions x).calls 0)
    rw [hcalls, SessionState.setCall_self]
    exact hjoined

/-- A program replaces its loop. -/
theorem Sound.setLoop (h : p.Sound) {x : End} {l : Loop (State x) M}
    (hloop : Reached (Loop.step (c.side x)) anyStep (.new (c.start x)) l)
    (hjoined : Joined Subtype.val (some l) ((p.link.sessions x).calls 0)) :
    (p.setLoop x l).Sound := by
  refine h.update h.link rfl (setLoop_of_ne p l x.peer_ne) (h.calls x) ?_ ?_
  · intro l' hl'
    rw [setLoop_self, Option.some.injEq] at hl'
    exact hl' ▸ hloop
  · rw [setLoop_self]
    exact hjoined

/-- A program creates its channel. -/
theorem Sound.call (h : p.Sound) {x : End} {link : Link c.Encoded}
    (hstep : p.link.step c.protocols (.act x (c.channelCall x)) = some link) :
    Sound { p with link := link } := by
  have hact : p.link.act c.protocols x (c.channelCall x) = some link := by cases x <;> exact hstep
  obtain ⟨hs, hpeer⟩ := act_sessions hact
  obtain ⟨call, hnone, hcalls, hprotocol, hread, hwritten⟩ :
      ∃ call, (p.link.sessions x).calls 0 = none ∧
        (link.sessions x).calls = ((p.link.sessions x).setCall 0 call).calls ∧
        call.handle.protocolId = c.protocolId ∧ call.read = [] ∧ call.written = [] := by
    cases x with
    | initiator =>
      simp only [Setup.channelCall, SessionState.step] at hs
      split at hs
      · cases hs
      · next hnone =>
        exact ⟨.new .opener c.protocolId (p.link.sessions .initiator).nextId, hnone, by rw [← Option.some.inj hs]; rfl,
          rfl, rfl, rfl⟩
    | responder =>
      simp only [Setup.channelCall, SessionState.step] at hs
      split at hs
      · cases hs
      · next hnone =>
        exact ⟨.new .acceptor c.protocolId 0, hnone, by rw [← Option.some.inj hs], rfl, rfl, rfl⟩
  have hchannel := h.channel x
  rw [hnone] at hchannel
  have hloop : p.loops x = none := by
    cases hl : p.loops x with
    | none => rfl
    | some l =>
      rw [hl] at hchannel
      exact hchannel.elim
  refine h.update (h.linkStep hstep) hpeer rfl (h.calls_setCall hcalls hprotocol) (h.loop x) ?_
  · change Joined Subtype.val (p.loops x) ((link.sessions x).calls 0)
    rw [hloop, hcalls, SessionState.setCall_self]
    exact ⟨hread, hwritten⟩

/-- A channel takes the message of a loop, or refuses it. -/
theorem Sound.write (h : p.Sound) {x : End} {l l' : Loop (State x) M} (hl : p.loops x = some l)
    {call : ChannelCall c.Encoded} (hcall : (p.link.sessions x).calls 0 = some call)
    {message : c.Encoded} (hphase : l.phase = .sending (some message.val)) {failure : Option Err}
    {link : Link c.Encoded}
    (hstep : p.link.step c.protocols (.act x (.write 0 message failure)) = some link)
    (hsend : l.step (c.side x) (.send (writeError (call.handle.wrapMessage c.protocols message) failure)) = some l') :
    Sound ({ p with link := link }.setLoop x l') := by
  obtain ⟨hs, hpeer⟩ := act_sessions hstep
  obtain ⟨hreturned, harrived, -, hall⟩ : Joined Subtype.val (some l) (some call) := hl ▸ hcall ▸ h.channel x
  have hwritten := hall (by rw [hphase]; rfl)
  have hprotocol := (h.calls x 0 call hcall).2
  have hloop := (h.loop x l hl).next trivial hsend
  simp only [Loop.step, hphase, Option.some.injEq] at hsend
  simp only [SessionState.step, hcall, Option.bind_eq_bind, Option.bind_some,
    Option.ite_none_right_eq_some] at hs
  obtain ⟨-, hs⟩ := hs
  have hrefused (hsame : link.sessions x = p.link.sessions x) {err : Err}
      (herr : l.afterSend (some message.val) (some err) = l') : Sound ({ p with link := link }.setLoop x l') := by
    refine h.replace hstep hpeer ?_ hprotocol hloop ?_
    · rw [hsame, SessionState.setCall, ← hcall, Function.update_eq_self]
    · rw [← herr]
      refine ⟨hreturned, harrived, ?_, fun hfine => (by cases hfine)⟩
      rw [hwritten]
      exact List.prefix_append ..
  cases hwrap : call.handle.wrapMessage c.protocols message with
  | error err =>
    rw [hwrap] at hs hsend
    exact hrefused (Option.some.inj hs).symm hsend
  | ok data =>
    rw [hwrap] at hs hsend
    cases failure with
    | some err => exact hrefused (Option.some.inj hs).symm hsend
    | none =>
      refine h.replace hstep hpeer (congrArg SessionState.calls (Option.some.inj hs).symm) hprotocol hloop ?_
      have hboth : (call.written ++ [message]).map Subtype.val = l.sent ++ [message.val] := by
        rw [List.map_append, hwritten]
        rfl
      rw [← hsend]
      exact ⟨hreturned, harrived, hboth ▸ List.prefix_rfl, fun _ => hboth⟩

/-- A channel returns a message to a loop. -/
theorem Sound.read (h : p.Sound) {x : End} {l l' : Loop (State x) M} (hl : p.loops x = some l)
    {call : ChannelCall c.Encoded} (hcall : (p.link.sessions x).calls 0 = some call)
    {message : c.Encoded} {rest : List c.Encoded} (hqueue : call.queue = message :: rest)
    {link : Link c.Encoded} (hstep : p.link.step c.protocols (.act x (.read 0)) = some link)
    (harrive : l.step (c.side x) (.arrive message.val) = some l') :
    Sound ({ p with link := link }.setLoop x l') := by
  obtain ⟨hs, hpeer⟩ := act_sessions hstep
  obtain ⟨hreturned, harrived, hprefix, hall⟩ : Joined Subtype.val (some l) (some call) := hl ▸ hcall ▸ h.channel x
  have hloop := (h.loop x l hl).next trivial harrive
  simp only [SessionState.step, hcall, hqueue, Option.bind_eq_bind, Option.bind_some,
    Option.ite_none_right_eq_some] at hs
  obtain ⟨-, hs⟩ := hs
  refine h.replace hstep hpeer (congrArg SessionState.calls (Option.some.inj hs).symm) (h.calls x 0 call hcall).2
    hloop ?_
  cases Loop.step_effect harrive with
  | arrive =>
    refine ⟨hreturned, ?_, hprefix, hall⟩
    rw [List.map_append, harrived]
    rfl

/-- Every step keeps what holds. -/
theorem Sound.step (h : p.Sound) {event : StackEvent c} (hstep : p.step event = some q) :
    q.Sound := by
  cases step_effect hstep with
  | sessions hlink hkept => exact h.keep hlink hkept
  | call hlink => exact h.call hlink
  | @run x call hloop hcall hreturned =>
    refine h.setLoop .start ?_
    obtain ⟨hread, hwritten⟩ : Joined Subtype.val none (some call) := hloop ▸ hcall ▸ h.channel x
    rw [hcall]
    exact ⟨hreturned, by rw [hread]; rfl, by rw [hwritten]; exact List.nil_prefix, fun _ => by rw [hwritten]; rfl⟩
  | @iterate x l l' event hl hinner hiterate =>
    exact h.setLoop ((h.loop x l hl).next trivial hiterate) ((hl ▸ h.channel x).iterate hinner hiterate)
  | write hl hcall hphase hlink hsend => exact h.write hl hcall hphase hlink hsend
  | read hl hcall hqueue hlink harrive => exact h.read hl hcall hqueue hlink harrive

/-- What holds in every state that two programs reach. -/
theorem sound_of_reached (h : Reached Stack.step anyStep (new : Stack c) p) : p.Sound :=
  h.invariant Sound sound_new fun _ _ _ h _ hstep => h.step hstep

/-- If what is read on a channel is a part of what was written to it, what a loop has got is a part
of what the other loop has passed on. -/
theorem Sound.arrived_of_read (h : p.Sound) {x : End} {l : Loop (State x) M}
    (hl : p.loops x = some l) (hsome : l.arrived ≠ []) {call : ChannelCall c.Encoded}
    (hcall : (p.link.sessions x).calls 0 = some call) {lost : List c.Encoded}
    (hpart : lost ++ call.read <+: (p.link.sessions x.peer).written call.handle.id) :
    ∃ other, p.loops x.peer = some other ∧ lost.map Subtype.val ++ l.arrived <+: other.sent := by
  obtain ⟨-, harrived, -, -⟩ : Joined Subtype.val (some l) (some call) := hl ▸ hcall ▸ h.channel x
  have hread : call.read ≠ [] := by
    intro hnone
    rw [← harrived, hnone] at hsome
    exact hsome rfl
  -- the messages were written on the channel of the only call of the other program
  obtain ⟨other, hother, hwritten⟩ : ∃ other, (p.link.sessions x.peer).calls 0 = some other ∧
      lost ++ call.read <+: other.written := by
    simp only [SessionState.written, SessionState.logAt] at hpart
    split at hpart
    · exact absurd (List.append_eq_nil_iff.mp (List.prefix_nil.mp hpart)).2 hread
    · next log hlog =>
      simp only [Option.bind_eq_some_iff, Option.map_eq_some_iff] at hlog
      obtain ⟨k, -, other, hother, rfl⟩ := hlog
      obtain ⟨rfl, -⟩ := h.calls x.peer k other hother
      exact ⟨other, hother, hpart⟩
  have hjoined := h.channel x.peer
  rw [hother] at hjoined
  cases hloop : p.loops x.peer with
  | none =>
    rw [hloop] at hjoined
    rw [hjoined.2, List.prefix_nil] at hwritten
    exact absurd (List.append_eq_nil_iff.mp hwritten).2 hread
  | some l' =>
    rw [hloop] at hjoined
    refine ⟨l', rfl, ?_⟩
    rw [← harrived, ← List.map_append]
    exact (hwritten.map Subtype.val).trans hjoined.2.2.1

/-- A loop has a channel, whose call has returned. -/
theorem Sound.call_of_loop (h : p.Sound) {x : End} {l : Loop (State x) M}
    (hl : p.loops x = some l) :
    ∃ call, (p.link.sessions x).calls 0 = some call ∧ Joined Subtype.val (some l) (some call) := by
  have hjoined := h.channel x
  rw [hl] at hjoined
  cases hcall : (p.link.sessions x).calls 0 with
  | none =>
    rw [hcall] at hjoined
    exact hjoined.elim
  | some call => exact ⟨call, rfl, hcall ▸ hjoined⟩

/-- What a loop has got is a part of what the other loop has passed on; only the first messages may
be missing. -/
theorem Sound.arrived_part (h : p.Sound) {x : End} {l : Loop (State x) M} (hl : p.loops x = some l)
    (hsome : l.arrived ≠ []) :
    ∃ other lost, p.loops x.peer = some other ∧ lost ++ l.arrived <+: other.sent := by
  obtain ⟨call, hcall, hreturned, -⟩ := h.call_of_loop hl
  obtain ⟨hregistry, hall⟩ := Link.remains_of_reached h.link
  obtain ⟨lost, taken, rest, hwritten, htaken, -, -⟩ := hall x call.handle.id
  have hkept : call.read <+: (p.link.sessions x).kept call.handle.id := by
    rw [SessionState.kept, (hregistry x).logAt_eq hcall hreturned]
    exact List.prefix_append ..
  have hpart : lost ++ call.read <+: (p.link.sessions x.peer).written call.handle.id := by
    rw [hwritten, List.prefix_append_right_inj]
    exact hkept.trans (htaken.kept.trans (List.prefix_append ..))
  obtain ⟨other, hother, hsent⟩ := h.arrived_of_read hl hsome hcall hpart
  exact ⟨other, _, hother, hsent⟩

end Stack

end ProjektCore.Programs
