import ProjektCore.Programs.Refinement

/-!
# Two programs over a connection that does not fail

In a calm run the connection takes and delivers every message, and the brokers take what is in time:
the message that opens the channel once the responder waits for it, and data once the channel is
registered. Two programs whose sides succeed in all their turns over an ordered network then make
these turns: no loop returns an error, and the messages on their way to a side are exactly those
that the other side has written and this one has not read.
-/

namespace ProjektCore.Programs

open Foundation Protocol Session

variable {M : Type} {State : End → Type}

/-- Whether no call that creates a channel fails, a message that opens a channel is taken once it is
waited for, and a session that is not closed finds the end of the connection only behind the last
message. -/
def isOrderly {N : Type} (l : Link N) : LinkEvent N → Bool
  | .act x .takeMessage =>
    match (l.sessions x).reader with
    | .inOpen _ protocolId => ((l.sessions x).opens protocolId).isSome
    | _ => true
  | .act _ (.writeCall _ failure) => failure.isNone
  | .act x .stopReader => (l.sessions x).isDone || (l.incoming x).isEmpty
  | _ => true

/-- An orderly step, as a guard on runs. -/
def Orderly {N : Type} (l : Link N) (event : LinkEvent N) : Prop := isOrderly l event = true

instance {N : Type} (l : Link N) (event : LinkEvent N) : Decidable (Orderly l event) :=
  inferInstanceAs (Decidable (isOrderly l event = true))

/-- The connection takes every message of the loops, and the brokers take what is in time. -/
def Stack.Calm {c : Setup M State} (p : Stack c) : StackEvent c → Prop
  | .session event => p.link.InTime event ∧ Orderly p.link event
  | .write _ failure => failure = none
  | _ => True

instance {c : Setup M State} (p : Stack c) (event : StackEvent c) : Decidable (p.Calm event) := by
  unfold Stack.Calm
  split <;> infer_instance

section Pair

variable {c : Setup M State} {n n' : Pair (State .initiator) (State .responder) M}

/-- The side of a pair that a program runs. -/
def sideAt (n : Pair (State .initiator) (State .responder) M) : (x : End) → State x
  | .initiator => n.left
  | .responder => n.right

/-- The messages on their way to the side of a program. -/
def queueAt (n : Pair (State .initiator) (State .responder) M) : End → List M
  | .initiator => n.toLeft
  | .responder => n.toRight

/-- The turn in which the side of a program writes. -/
def writeTurn : End → Turn
  | .initiator => .leftWrites
  | .responder => .rightWrites

/-- The turn in which the side of a program reads. -/
def readTurn : End → Turn
  | .initiator => .leftReads
  | .responder => .rightReads

/-- The loop of a program takes the turn to write if its side can or must. -/
theorem loopTakes_writeTurn (x : End) :
    n.loopTakes (c.side .initiator) (c.side .responder) (writeTurn x) =
    (!(c.side x).isDone (sideAt n x) && ((c.side x).mustWrite (sideAt n x) || (c.side x).canWrite (sideAt n x))) := by
  cases x <;> rfl

/-- The loop of a program takes the turn to read if there is a message. -/
theorem loopTakes_readTurn (x : End) :
    n.loopTakes (c.side .initiator) (c.side .responder) (readTurn x) =
    (!(c.side x).isDone (sideAt n x) && !(c.side x).mustWrite (sideAt n x) && !(queueAt n x).isEmpty) := by
  cases x <;> rfl

/-- What the turn to write does. -/
theorem step_writeTurn {x : End}
    (h : n.step (c.side .initiator) (c.side .responder) (writeTurn x) = some n') :
    ∃ message, (c.side x).write (sideAt n x) = .ok (sideAt n' x, message, none) ∧
      sideAt n' x.peer = sideAt n x.peer ∧ queueAt n' x = queueAt n x ∧
      queueAt n' x.peer = queueAt n x.peer ++ message.toList := by
  cases x with
  | initiator =>
    obtain ⟨left, message, hwrite, rfl⟩ := Pair.step_leftWrites.mp h
    exact ⟨message, hwrite, rfl, rfl, rfl⟩
  | responder =>
    obtain ⟨right, message, hwrite, rfl⟩ := Pair.step_rightWrites.mp h
    exact ⟨message, hwrite, rfl, rfl, rfl⟩

/-- What the turn to read does. -/
theorem step_readTurn {x : End}
    (h : n.step (c.side .initiator) (c.side .responder) (readTurn x) = some n') :
    ∃ message, queueAt n x = message :: queueAt n' x ∧
      (c.side x).read (sideAt n x) message = .ok (sideAt n' x, none) ∧
      sideAt n' x.peer = sideAt n x.peer ∧ queueAt n' x.peer = queueAt n x.peer := by
  cases x with
  | initiator =>
    obtain ⟨message, rest, left, hqueue, hread, rfl⟩ := Pair.step_leftReads.mp h
    exact ⟨message, hqueue, hread, rfl, rfl⟩
  | responder =>
    obtain ⟨message, rest, right, hqueue, hread, rfl⟩ := Pair.step_rightReads.mp h
    exact ⟨message, hqueue, hread, rfl, rfl⟩

end Pair

instance {S T : Type} (a : Side S M) (b : Side T M) (n : Pair S T M) (turn : Turn) :
    Decidable (n.Driven a b turn) :=
  inferInstanceAs (Decidable (n.loopTakes a b turn = true))

/-- The pair after the loops of two programs have made their turns over an ordered network. -/
def pairAfter (c : Setup M State) (turns : List Turn) :
    Option (Pair (State .initiator) (State .responder) M) :=
  execute (Pair.step (c.side .initiator) (c.side .responder)) (Pair.Driven (c.side .initiator) (c.side .responder))
    turns (Stack.pairStart c)

/-- The two sides of a setup can rely on their loops: over an ordered network all turns of the loops
succeed, the number of turns is bounded, and only two sides that are done have no turn. What they
write is a message that every channel wraps. -/
structure Dependable (c : Setup M State) (bound : ℕ) : Prop where
  succeeds : ∀ turns n turn, pairAfter c turns = some n →
    n.loopTakes (c.side .initiator) (c.side .responder) turn = true →
    ∃ n', n.step (c.side .initiator) (c.side .responder) turn = some n'
  enabled : ∀ turns n, pairAfter c turns = some n → (∃ x, (c.side x).isDone (sideAt n x) = false) →
    ∃ turn, n.loopTakes (c.side .initiator) (c.side .responder) turn = true
  bounded : ∀ turns n, pairAfter c turns = some n → turns.length ≤ bound
  writes : ∀ turns n x side message, pairAfter c turns = some n →
    (c.side x).write (sideAt n x) = .ok (side, message, none) → ∃ m : c.Encoded, message = some m.val
  wraps : ∀ turns n x, pairAfter c turns = some n → ∀ m : c.Encoded, m.val ∈ queueAt n x →
    ∀ handle : ChannelHandle, ∃ data, handle.wrapMessage c.protocols m = .ok data

namespace Stack

variable {c : Setup M State} {p q : Stack c}

/-- The side that a program runs. -/
def sideOf (p : Stack c) (x : End) : State x :=
  match p.loops x with
  | none => c.start x
  | some l => l.side

/-- The messages that the side of a program has been given. -/
def took (p : Stack c) (x : End) : List M :=
  match p.loops x with
  | none => []
  | some l => l.taken

/-- A loop that goes on or has returned without an error. What it passes on can be encoded, and its
goroutine that reads only stops behind it. -/
structure Fine {S : Type} (isEncodable : M → Bool) (l : Loop S M) : Prop where
  errs : l.errs = none
  phase : hasFailed l.phase = false
  closed : l.isClosed = true → l.phase = .returned none
  stopped : l.reader = .stopped → l.phase = .returned none
  sending : ∀ message, l.phase = .sending message → ∃ m, message = some m ∧ isEncodable m = true

/-- What holds in every state of a calm run. -/
structure Prompt (p : Stack c) : Prop where
  sound : p.Sound
  delivers : ∀ x, Link.Delivers c.protocols p.link x
  fine : ∀ x l, p.loops x = some l → Fine c.isEncodable l

/-- The two programs are at a state of the pair: they run its sides, and the messages on their way
to a side are those that the other side has written and this one has not read. -/
structure Follows (p : Stack c) (n : Pair (State .initiator) (State .responder) M) : Prop where
  side : ∀ x, sideAt n x = p.sideOf x
  queue : ∀ x, queueAt n x = (p.wrote x.peer).drop (p.took x).length

/-- Nothing has happened in new programs. -/
theorem prompt_new : Prompt (new : Stack c) where
  sound := sound_new
  delivers := Link.delivers_new
  fine _ _ h := by cases h

/-- New programs are at the start of the pair. -/
theorem follows_new : Follows (new : Stack c) (pairStart c) where
  side x := by cases x <;> rfl
  queue x := by cases x <;> rfl

/-- What a loop has got is what the other loop has passed on first. -/
theorem Prompt.arrived_prefix (h : p.Prompt) {x : End} {l : Loop (State x) M}
    (hl : p.loops x = some l) (hsome : l.arrived ≠ []) :
    ∃ other, p.loops x.peer = some other ∧ l.arrived <+: other.sent := by
  obtain ⟨call, hcall, hreturned, -⟩ := h.sound.call_of_loop hl
  obtain ⟨taken, rest, hwritten, htaken, -⟩ := (h.delivers x).remains call.handle.id
  have hkept : call.read <+: (p.link.sessions x).kept call.handle.id := by
    rw [SessionState.kept, (h.delivers x).registry.logAt_eq hcall hreturned]
    exact List.prefix_append ..
  have hpart : [] ++ call.read <+: (p.link.sessions x.peer).written call.handle.id := by
    rw [hwritten]
    exact hkept.trans (htaken.kept.trans (List.prefix_append ..))
  obtain ⟨other, hother, hsent⟩ := h.sound.arrived_of_read hl hsome hcall hpart
  exact ⟨other, hother, hsent⟩

/-- The messages that the side of a loop has been given. -/
theorem took_eq {x : End} {l : Loop (State x) M} (hl : p.loops x = some l) :
    p.took x = l.taken := by
  rw [took, hl]

/-- The side of a loop. -/
theorem sideOf_eq {x : End} {l : Loop (State x) M} (hl : p.loops x = some l) :
    p.sideOf x = l.side := by
  rw [sideOf, hl]

/-- What a side has been given is what the other loop has passed on first. -/
theorem Prompt.took_prefix (h : p.Prompt) {x : End} {l : Loop (State x) M}
    (hl : p.loops x = some l) :
    p.took x.peer <+: l.sent := by
  cases hpeer : p.loops x.peer with
  | none =>
    rw [took, hpeer]
    exact List.nil_prefix
  | some other =>
    have htaken := (ordered_of_reached (h.sound.loop x.peer other hpeer)).taken
    rw [took_eq hpeer]
    by_cases hsome : other.arrived = []
    · rw [hsome, List.prefix_nil] at htaken
      rw [htaken]
      exact List.nil_prefix
    · obtain ⟨l', hl', hsent⟩ := h.arrived_prefix hpeer hsome
      have hsame : l'.sent = l.sent := by cases x <;> exact congrArg Loop.sent (Option.some.inj (hl'.symm.trans hl))
      exact htaken.trans (hsame ▸ hsent)

/-- A message that is offered to a loop is the next one on its way. -/
theorem Prompt.offered (h : p.Prompt) {x : End} {l : Loop (State x) M} (hl : p.loops x = some l)
    {message : M} (hreader : l.reader = .offering message) :
    ∃ rest, (p.wrote x.peer).drop (p.took x).length = message :: rest ∧
      (p.wrote x.peer).drop (p.took x ++ [message]).length = rest := by
  have harrived := (ordered_of_reached (h.sound.loop x l hl)).offered message hreader
  obtain ⟨other, hother, rest, hsent⟩ := h.arrived_prefix hl (by rw [harrived]; simp)
  have hwrote : p.wrote x.peer = l.taken ++ (message :: (rest ++ other.phase.pending)) := by
    rw [wrote_eq hother, (ordered_of_reached (h.sound.loop x.peer other hother)).written, ← hsent,
      harrived]
    simp
  refine ⟨rest ++ other.phase.pending, ?_, ?_⟩
  · rw [took_eq hl, hwrote, List.drop_left]
  · have hsplit : p.wrote x.peer = (l.taken ++ [message]) ++ (rest ++ other.phase.pending) := by
      rw [hwrote, List.append_assoc, List.singleton_append]
    rw [took_eq hl, hsplit, List.drop_left]

section Turns

variable {n : Pair (State .initiator) (State .responder) M}

/-- One loop goes on together with the pair. -/
theorem Follows.update {n' : Pair (State .initiator) (State .responder) M} (h : p.Follows n)
    {x : End} {l' : Loop (State x) M} (hq : q.loops x = some l')
    (hpeer : q.loops x.peer = p.loops x.peer) (hside : sideAt n' x = l'.side)
    (hpeerSide : sideAt n' x.peer = sideAt n x.peer)
    (hqueue : queueAt n' x = (p.wrote x.peer).drop l'.taken.length)
    (hpeerQueue : queueAt n' x.peer = l'.written.drop (p.took x.peer).length) : q.Follows n' := by
  have hsideOf : q.sideOf x.peer = p.sideOf x.peer := by rw [sideOf, hpeer, sideOf]
  have hwrote : q.wrote x.peer = p.wrote x.peer := by rw [wrote, hpeer, wrote]
  have htook : q.took x.peer = p.took x.peer := by rw [took, hpeer, took]
  refine ⟨fun y => ?_, fun y => ?_⟩
  · by_cases hy : y = x
    · subst hy
      rw [sideOf_eq hq, hside]
    · obtain rfl := End.eq_peer_of_ne hy
      rw [hsideOf, hpeerSide, h.side]
  · by_cases hy : y = x
    · subst hy
      rw [hwrote, took_eq hq, hqueue]
    · obtain rfl := End.eq_peer_of_ne hy
      rw [End.peer_peer, wrote_eq hq, htook, hpeerQueue]

/-- A loop goes on, and its side has not been called. -/
theorem Follows.same (h : p.Follows n) {x : End} {l l' : Loop (State x) M} (hl : p.loops x = some l)
    (hq : q.loops x = some l') (hpeer : q.loops x.peer = p.loops x.peer) (hside : l'.side = l.side)
    (hwritten : l'.written = l.written) (htaken : l'.taken = l.taken) : q.Follows n := by
  refine h.update hq hpeer ?_ rfl ?_ ?_
  · rw [h.side, sideOf_eq hl, hside]
  · rw [h.queue, took_eq hl, htaken]
  · rw [h.queue, End.peer_peer, wrote_eq hl, hwritten]

/-- The side of a loop is asked for a message, which is a turn of the pair. -/
theorem Follows.write {bound : ℕ} (hc : Dependable c bound) (hp : p.Prompt) (h : p.Follows n)
    {turns : List Turn} (hn : pairAfter c turns = some n) {x : End} {l l' : Loop (State x) M}
    (hl : p.loops x = some l) (hstep : l.step (c.side x) .write = some l') :
    ∃ n', pairAfter c (turns ++ [writeTurn x]) = some n' ∧ (p.setLoop x l').Follows n' ∧ Fine c.isEncodable l' := by
  have hfine := hp.fine x l hl
  cases Loop.step_effect hstep with
  | write hphase hmay =>
    have hside : sideAt n x = l.side := (h.side x).trans (sideOf_eq hl)
    -- the loop makes the turn of the pair
    have hturn : n.loopTakes (c.side .initiator) (c.side .responder) (writeTurn x) = true := by
      rw [loopTakes_writeTurn, hside]
      simp only [Loop.mayWrite, Bool.and_eq_true, Bool.or_eq_true] at hmay ⊢
      exact ⟨hmay.1, hmay.2.imp_right And.left⟩
    obtain ⟨n', hn'⟩ := hc.succeeds turns n _ hn hturn
    obtain ⟨message, hwrite, hpeer, hqueue, hqueuePeer⟩ := step_writeTurn hn'
    obtain ⟨m, rfl⟩ := hc.writes turns n x _ _ hn hwrite
    rw [hside] at hwrite
    have hafter : l.afterWrite ((c.side x).write l.side) = { l with
        side := sideAt n' x, phase := .sending (some m.val), written := l.written ++ [m.val] } := by
      rw [hwrite]
      rfl
    refine ⟨n', execute_concat hn hturn hn', ?_, ?_⟩
    · refine h.update (setLoop_self p x _) (setLoop_of_ne p _ x.peer_ne) ?_ hpeer ?_ ?_
      · rw [hafter]
      · rw [hafter, hqueue, h.queue, took_eq hl]
      · have hle : (p.took x.peer).length ≤ l.written.length := by
          rw [(ordered_of_reached (hp.sound.loop x l hl)).written]
          exact ((hp.took_prefix hl).trans (List.prefix_append ..)).length_le
        rw [hafter, hqueuePeer, h.queue, End.peer_peer, wrote_eq hl]
        exact (List.drop_append_of_le_length hle).symm
    · rw [hafter]
      refine ⟨hfine.errs, rfl, fun hclosed => ?_, fun hstopped => ?_, fun message hmessage => ?_⟩
      · cases hphase.symm.trans (hfine.closed hclosed)
      · cases hphase.symm.trans (hfine.stopped hstopped)
      · obtain rfl := LoopPhase.sending.inj hmessage
        exact ⟨m.val, rfl, m.property⟩

/-- The side of a loop is given a message, which is a turn of the pair. -/
theorem Follows.read {bound : ℕ} (hc : Dependable c bound) (hp : p.Prompt) (h : p.Follows n)
    {turns : List Turn} (hn : pairAfter c turns = some n) {x : End} {l l' : Loop (State x) M}
    (hl : p.loops x = some l) (hstep : l.step (c.side x) .read = some l') :
    ∃ n', pairAfter c (turns ++ [readTurn x]) = some n' ∧ (p.setLoop x l').Follows n' ∧ Fine c.isEncodable l' := by
  have hfine := hp.fine x l hl
  cases Loop.step_effect hstep with
  | @read message hphase hreader hmay =>
    have hside : sideAt n x = l.side := (h.side x).trans (sideOf_eq hl)
    obtain ⟨rest, hnext, hrest⟩ := hp.offered hl hreader
    rw [← h.queue] at hnext
    have hturn : n.loopTakes (c.side .initiator) (c.side .responder) (readTurn x) = true := by
      rw [loopTakes_readTurn, hside, hnext]
      simp only [Loop.mayTake, Bool.and_eq_true] at hmay ⊢
      exact ⟨hmay, rfl⟩
    obtain ⟨n', hn'⟩ := hc.succeeds turns n _ hn hturn
    obtain ⟨message', hqueue, hread, hpeer, hqueuePeer⟩ := step_readTurn hn'
    rw [hnext, List.cons.injEq] at hqueue
    obtain ⟨rfl, hqueue⟩ := hqueue
    rw [hside] at hread
    have hafter : (l.take message).afterRead ((c.side x).read l.side message) =
        { l.take message with side := sideAt n' x } := by
      rw [hread]
      rfl
    refine ⟨n', execute_concat hn hturn hn', ?_, ?_⟩
    · refine h.update (setLoop_self p x _) (setLoop_of_ne p _ x.peer_ne) ?_ hpeer ?_ ?_
      · rw [hafter]
      · rw [took_eq hl] at hrest
        rw [hafter, ← hqueue, ← hrest]
        rfl
      · rw [hafter, hqueuePeer, h.queue, End.peer_peer, wrote_eq hl]
        rfl
    · rw [hafter]
      refine ⟨hfine.errs, hfine.phase, fun hclosed => ?_, fun hstopped => ?_, fun message hmessage => ?_⟩
      · exact hfine.closed hclosed
      · cases hstopped
      · cases hphase.symm.trans hmessage

/-- The message that a loop passes on is on its way. -/
theorem Follows.sending (hp : p.Prompt) (h : p.Follows n) {x : End} {l : Loop (State x) M}
    (hl : p.loops x = some l) {message : M} (hphase : l.phase = .sending (some message)) :
    message ∈ queueAt n x.peer := by
  have hwritten : l.written = l.sent ++ [message] := by
    rw [(ordered_of_reached (hp.sound.loop x l hl)).written, hphase]
    rfl
  obtain ⟨rest, hrest⟩ := hp.took_prefix hl
  rw [h.queue, End.peer_peer, wrote_eq hl, hwritten, ← hrest, List.append_assoc, List.drop_left]
  exact List.mem_append_right _ List.mem_cons_self

/-- The channel takes the message of a loop. -/
theorem Follows.pass {bound : ℕ} (hc : Dependable c bound) (hp : p.Prompt) (h : p.Follows n)
    {turns : List Turn} (hn : pairAfter c turns = some n) {x : End} {l l' : Loop (State x) M}
    (hl : p.loops x = some l) {call : ChannelCall c.Encoded} {message : c.Encoded}
    (hphase : l.phase = .sending (some message.val))
    (hsend : l.step (c.side x) (.send (writeError (call.handle.wrapMessage c.protocols message) none)) = some l')
    (link : Link c.Encoded) :
    Follows ({ p with link := link }.setLoop x l') n ∧ Fine c.isEncodable l' := by
  have hfine := hp.fine x l hl
  obtain ⟨data, hwrap⟩ := hc.wraps turns n x.peer hn message (h.sending hp hl hphase) call.handle
  rw [hwrap] at hsend
  simp only [Loop.step, hphase, writeError, Option.some.injEq] at hsend
  refine ⟨?_, ?_⟩
  · rw [← hsend]
    exact h.same hl (setLoop_self _ x _) (setLoop_of_ne _ _ x.peer_ne) rfl rfl rfl
  · rw [← hsend]
    refine ⟨hfine.errs, rfl, fun hclosed => ?_, fun hstopped => ?_, fun message hmessage => by cases hmessage⟩
    · cases hphase.symm.trans (hfine.closed hclosed)
    · cases hphase.symm.trans (hfine.stopped hstopped)

end Turns

/-- The loops stay as they are. -/
theorem Prompt.keepLoops (h : p.Prompt) (hloops : q.loops = p.loops) (hsound : q.Sound)
    (hdelivers : ∀ x, Link.Delivers c.protocols q.link x) : q.Prompt where
  sound := hsound
  delivers := hdelivers
  fine x l hl := h.fine x l (by rw [← hloops, hl])

/-- One loop goes on. -/
theorem Prompt.setLoop (h : p.Prompt) {link : Link c.Encoded} {x : End} {l : Loop (State x) M}
    (hsound : Sound ({ p with link := link }.setLoop x l))
    (hdelivers : ∀ x, Link.Delivers c.protocols link x) (hfine : Fine c.isEncodable l) :
    Prompt ({ p with link := link }.setLoop x l) where
  sound := hsound
  delivers := hdelivers
  fine y l' hl' := by
    by_cases hy : y = x
    · subst hy
      rw [setLoop_self, Option.some.injEq] at hl'
      exact hl' ▸ hfine
    · rw [setLoop_of_ne _ l hy] at hl'
      exact h.fine y l' hl'

end Stack

/-- The turns of the pair that a step of the two programs makes. -/
def StackEvent.turns {c : Setup M State} : StackEvent c → List Turn
  | .iterate x .write => [writeTurn x]
  | .iterate x .read => [readTurn x]
  | _ => []

namespace Stack

variable {c : Setup M State} {p q : Stack c} {n : Pair (State .initiator) (State .responder) M}

/-- A step of a loop alone. -/
theorem Prompt.iterate {bound : ℕ} (hc : Dependable c bound) (hp : p.Prompt) (h : p.Follows n)
    {turns : List Turn} (hn : pairAfter c turns = some n) {x : End} {l l' : Loop (State x) M}
    {event : LoopEvent M} (hl : p.loops x = some l) (hinner : isInnerLoop event = true)
    (hstep : l.step (c.side x) event = some l') :
    Fine c.isEncodable l' ∧ ∃ n', pairAfter c (turns ++ (StackEvent.iterate x event : StackEvent c).turns) = some n' ∧
      (p.setLoop x l').Follows n' := by
  have hfine := hp.fine x l hl
  have hsame (hside : l'.side = l.side) (hwritten : l'.written = l.written) (htaken : l'.taken = l.taken) :
      ∃ n', pairAfter c (turns ++ []) = some n' ∧ (p.setLoop x l').Follows n' :=
    ⟨n, by rw [List.append_nil, hn],
      h.same hl (setLoop_self p x l') (setLoop_of_ne p l' x.peer_ne) hside hwritten htaken⟩
  cases event with
  | send | arrive | lose => cases hinner
  | write =>
    obtain ⟨n', hn', hfollows, hfine'⟩ := h.write hc hp hn hl hstep
    exact ⟨hfine', n', hn', hfollows⟩
  | read =>
    obtain ⟨n', hn', hfollows, hfine'⟩ := h.read hc hp hn hl hstep
    exact ⟨hfine', n', hn', hfollows⟩
  | finish =>
    cases Loop.step_effect hstep with
    | finish hphase =>
      exact ⟨⟨hfine.errs, rfl, fun _ => rfl, fun _ => rfl, fun _ hsending => (by cases hsending)⟩, hsame rfl rfl rfl⟩
  | fail =>
    cases Loop.step_effect hstep with
    | fail _ herrs => cases hfine.errs.symm.trans herrs
  | quit =>
    cases Loop.step_effect hstep with
    | quit _ hclosed =>
      exact ⟨⟨hfine.errs, hfine.phase, hfine.closed, fun _ => hfine.closed hclosed, hfine.sending⟩, hsame rfl rfl rfl⟩

/-- Every calm step keeps what holds, and the pair follows it by the turns of the step. -/
theorem Prompt.step {bound : ℕ} (hc : Dependable c bound) (hp : p.Prompt) (h : p.Follows n)
    {turns : List Turn} (hn : pairAfter c turns = some n) {event : StackEvent c}
    (hcalm : p.Calm event) (hstep : p.step event = some q) :
    q.Prompt ∧ ∃ n', pairAfter c (turns ++ event.turns) = some n' ∧ q.Follows n' := by
  have hsound := hp.sound.step hstep
  have hpair : pairAfter c (turns ++ []) = some n := by rw [List.append_nil, hn]
  cases event with
  | session event =>
    simp only [Stack.step, Option.ite_none_right_eq_some, Option.map_eq_some_iff] at hstep
    obtain ⟨-, link, hlink, rfl⟩ := hstep
    exact ⟨hp.keepLoops rfl hsound (Link.delivers_step hp.delivers hcalm.1 hlink), n, hpair, h.side, h.queue⟩
  | call x =>
    obtain ⟨link, hlink, rfl⟩ := Option.map_eq_some_iff.mp hstep
    have hintime : p.link.InTime (.act x (c.channelCall x)) := by cases x <;> trivial
    exact ⟨hp.keepLoops rfl hsound (Link.delivers_step hp.delivers hintime hlink), n, hpair, h.side, h.queue⟩
  | run x =>
    simp only [Stack.step] at hstep
    split at hstep
    · next call hloop hcall =>
      obtain ⟨-, heq⟩ := Option.ite_none_right_eq_some.mp hstep
      obtain rfl := Option.some.inj heq
      have hfine : Fine c.isEncodable (.new (c.start x) : Loop (State x) M) :=
        ⟨rfl, rfl, fun hclosed => (by cases hclosed), fun hstopped => (by cases hstopped),
          fun _ hsending => (by cases hsending)⟩
      refine ⟨hp.setLoop hsound hp.delivers hfine, n, hpair, ?_⟩
      refine h.update (setLoop_self p x _) (setLoop_of_ne p _ x.peer_ne) ?_ rfl ?_ ?_
      · rw [h.side, sideOf, hloop]
        rfl
      · rw [h.queue, took, hloop]
        rfl
      · rw [h.queue, End.peer_peer, wrote, hloop]
        rfl
    · cases hstep
  | iterate x event =>
    simp only [Stack.step, Option.bind_eq_bind, Option.bind_eq_some_iff,
      Option.ite_none_right_eq_some, Option.map_eq_some_iff] at hstep
    obtain ⟨l, hl, hinner, l', hiterate, rfl⟩ := hstep
    obtain ⟨hfine, hfollows⟩ := hp.iterate hc h hn hl hinner hiterate
    exact ⟨hp.setLoop hsound hp.delivers hfine, hfollows⟩
  | write x failure =>
    obtain rfl : failure = none := hcalm
    simp only [Stack.step, Option.bind_eq_bind, Option.bind_eq_some_iff] at hstep
    obtain ⟨l, hl, call, hcall, hstep⟩ := hstep
    split at hstep
    · next message hphase =>
      split at hstep
      · next hencodable =>
        simp only [Option.bind_eq_some_iff, Option.some.injEq] at hstep
        obtain ⟨link, hlink, l', hsend, rfl⟩ := hstep
        have hencoded : l.phase = .sending (some (⟨message, hencodable⟩ : c.Encoded).val) := hphase
        obtain ⟨hfollows, hfine⟩ := h.pass hc hp hn hl hencoded hsend link
        have hintime : p.link.InTime (.act x (.write 0 ⟨message, hencodable⟩ none)) := trivial
        exact ⟨hp.setLoop hsound (Link.delivers_step hp.delivers hintime hlink) hfine, n, hpair, hfollows⟩
      · cases hstep
    · cases hstep
  | read x =>
    simp only [Stack.step, Option.bind_eq_bind, Option.bind_eq_some_iff] at hstep
    obtain ⟨l, hl, call, hcall, hstep⟩ := hstep
    have hfine := hp.fine x l hl
    split at hstep
    · cases hstep
    · next message rest hqueue =>
      simp only [Option.bind_eq_some_iff, Option.some.injEq] at hstep
      obtain ⟨link, hlink, l', harrive, rfl⟩ := hstep
      cases Loop.step_effect harrive with
      | arrive =>
        have hintime : p.link.InTime (.act x (.read 0)) := trivial
        refine ⟨hp.setLoop hsound (Link.delivers_step hp.delivers hintime hlink)
          ⟨hfine.errs, hfine.phase, hfine.closed, fun hstopped => (by cases hstopped), hfine.sending⟩, n, hpair, ?_⟩
        exact h.same hl (setLoop_self _ x _) (setLoop_of_ne _ _ x.peer_ne) rfl rfl rfl
  | close x =>
    simp only [Stack.step, Option.bind_eq_bind, Option.bind_eq_some_iff] at hstep
    obtain ⟨l, hl, hstep⟩ := hstep
    split at hstep
    · obtain ⟨link, hlink, rfl⟩ := Option.map_eq_some_iff.mp hstep
      have hintime : p.link.InTime (.act x .closeSession) := trivial
      exact ⟨hp.keepLoops rfl hsound (Link.delivers_step hp.delivers hintime hlink), n, hpair, h.side, h.queue⟩
    · cases hstep

end Stack

end ProjektCore.Programs
