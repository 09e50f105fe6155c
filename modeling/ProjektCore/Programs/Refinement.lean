import ProjektCore.Programs.Sound
import ProjektCore.Protocol.LoopOrder
import ProjektCore.Protocol.Network

/-!
# Two programs refine an unreliable network

The state of both programs refines the two sides of their protocol over an unreliable network. A
call of a side that succeeds is a call of the pair; a call that fails ends the loop and is none.
Since all that a side has written stays on its way in the pair, whatever the channels deliver of it
can be read there.
-/

namespace ProjektCore.Programs

open Foundation Protocol Session

variable {M : Type} {State : End → Type}

namespace Stack

variable {c : Setup M State} {p q : Stack c}

/-- A side that a loop runs. A loop whose last call has failed ran a side that was not done before
it. -/
def Runs (p : Stack c) (x : End) (s : State x) : Prop :=
  match p.loops x with
  | none => s = c.start x
  | some l => s = l.side ∨ hasFailed l.phase = true ∧ (c.side x).isDone s = false

/-- The messages that the side of a program has written. -/
def wrote (p : Stack c) (x : End) : List M :=
  match p.loops x with
  | none => []
  | some l => l.written

/-- The two programs run the sides of a pair, and all that these have written is on its way. -/
structure Refines (p : Stack c) (n : Pair (State .initiator) (State .responder) M) : Prop where
  left : p.Runs .initiator n.left
  right : p.Runs .responder n.right
  toRight : n.toRight = p.wrote .initiator
  toLeft : n.toLeft = p.wrote .responder

/-- The pair at the start of the two programs. -/
def pairStart (c : Setup M State) : Pair (State .initiator) (State .responder) M :=
  ⟨c.start .initiator, c.start .responder, [], []⟩

/-- The side of a loop that has not failed. -/
theorem Runs.eq_side {x : End} {s : State x} (h : p.Runs x s) {l : Loop (State x) M}
    (hl : p.loops x = some l) (hfine : hasFailed l.phase = false) : s = l.side := by
  unfold Runs at h
  rw [hl] at h
  rcases h with h | ⟨hfailed, -⟩
  · exact h
  · rw [hfine] at hfailed
    cases hfailed

/-- The same loops run the same sides. -/
theorem Runs.congr {x : End} {s : State x} (h : p.Runs x s) (hloops : q.loops x = p.loops x) :
    q.Runs x s := by
  unfold Runs
  rw [hloops]
  exact h

/-- A replaced loop runs the side that it has. -/
theorem runs_setLoop (p : Stack c) (x : End) {l : Loop (State x) M} {s : State x}
    (h : s = l.side ∨ hasFailed l.phase = true ∧ (c.side x).isDone s = false) :
    (p.setLoop x l).Runs x s := by
  unfold Runs
  rw [setLoop_self]
  exact h

/-- What the side of a loop has written. -/
theorem wrote_eq {x : End} {l : Loop (State x) M} (hl : p.loops x = some l) :
    p.wrote x = l.written := by
  rw [wrote, hl]

/-- What the side of a replaced loop has written. -/
theorem wrote_setLoop (p : Stack c) (x : End) (l : Loop (State x) M) :
    (p.setLoop x l).wrote x = l.written :=
  wrote_eq (setLoop_self p x l)

/-- What the side of the other loop has written. -/
theorem wrote_setLoop_of_ne (p : Stack c) {x y : End} (l : Loop (State x) M) (h : y ≠ x) :
    (p.setLoop x l).wrote y = p.wrote y := by
  rw [wrote, setLoop_of_ne p l h, wrote]

end Stack

/-- What a step of a loop means for its side: the side stays as it is, it makes a call that
succeeds, or it makes a call that fails, which ends the loop. -/
inductive SideEffect {S : Type} (a : Side S M) (l l' : Loop S M) : Prop
  | same : l'.side = l.side → l'.written = l.written → (hasFailed l.phase = true → hasFailed l'.phase = true) →
      SideEffect a l l'
  | wrote {message : Any M} :
      hasFailed l.phase = false → a.write l.side = .ok (l'.side, message, none) →
      l'.written = l.written ++ message.toList → SideEffect a l l'
  | read {message : M} : hasFailed l.phase = false → l.reader = .offering message →
      a.read l.side message = .ok (l'.side, none) → l'.written = l.written → SideEffect a l l'
  | failed : hasFailed l.phase = false → a.isDone l.side = false → hasFailed l'.phase = true →
      l'.written = l.written → SideEffect a l l'

/-- Every step of a loop is one of them. -/
theorem side_effect {S : Type} {a : Side S M} {l l' : Loop S M} {event : LoopEvent M}
    (h : l.step a event = some l') : SideEffect a l l' := by
  cases Loop.step_effect h with
  | finish hphase | fail hphase => exact .same rfl rfl fun hfailed => (by rw [hphase] at hfailed; cases hfailed)
  | arrive | lose | quit => exact .same rfl rfl id
  | @send message err hphase =>
    cases err <;> exact .same rfl rfl fun hfailed => (by rw [hphase] at hfailed; cases hfailed)
  | write hphase hmay =>
    have hfine : hasFailed l.phase = false := by rw [hphase]; rfl
    rcases hwrite : a.write l.side with value | ⟨side, message, _ | err⟩
    · exact .same rfl rfl fun _ => rfl
    · exact .wrote hfine hwrite rfl
    · exact .failed hfine (Loop.isDone_of_mayWrite hmay) rfl rfl
  | @read message hphase hreader hmay =>
    have hfine : hasFailed l.phase = false := by rw [hphase]; rfl
    rcases hread : a.read l.side message with value | ⟨side, _ | err⟩
    · exact .same rfl rfl fun _ => rfl
    · exact .read hfine hreader hread rfl
    · exact .failed hfine (Loop.isDone_of_mayTake hmay) rfl rfl

/-- The messages of a loop are in order: those passed to its side were delivered first, and those
passed to the connection were written by its side first. -/
structure InOrder {S : Type} (l : Loop S M) : Prop where
  taken : l.taken <+: l.arrived
  awaited : l.reader = .reading → l.taken = l.arrived
  offered : ∀ message, l.reader = .offering message → l.arrived = l.taken ++ [message]
  written : l.written = l.sent ++ l.phase.pending

/-- The messages of a loop that has been started are in order. -/
theorem ordered_of_reached {S : Type} {a : Side S M} {start : S} {l : Loop S M}
    (h : Reached (Loop.step a) anyStep (.new start) l) : InOrder l := by
  obtain ⟨r, rfl, hr⟩ := Loop.reached_of_map a.recording_embeds (Loop.new (.new start)) h
  have hordered := hr.invariant Loop.Ordered (Loop.ordered_new start) fun _ _ _ h _ hstep => h.step hstep
  exact ⟨hordered.taken_prefix, hordered.awaited, hordered.offered, hordered.written.trans hordered.wrote⟩

/-- What the phase of a loop says about its side: a loop that has returned without an error has a
side that is done, and what it passes on was written by its side. -/
def PhaseHolds {S : Type} (a : Side S M) (l : Loop S M) : Prop :=
  match l.phase with
  | .returned none => a.isDone l.side = true
  | .sending message => ∃ side, a.write side = .ok (l.side, message, none)
  | .deciding | .returned (some _) | .panicked _ => True

/-- The phase of a loop that has been started says this. -/
theorem phaseHolds_of_reached {S : Type} {a : Side S M} {start : S} {l : Loop S M}
    (h : Reached (Loop.step a) anyStep (.new start) l) : PhaseHolds a l := by
  have hnew : PhaseHolds a (.new start : Loop S M) := trivial
  refine h.invariant (PhaseHolds a) hnew ?_
  intro l event l' ih _ hstep
  cases Loop.step_effect hstep with
  | finish _ hdone => exact hdone
  | write =>
    rcases hwrite : a.write l.side with value | ⟨side, message, _ | err⟩
    · trivial
    · exact ⟨l.side, hwrite⟩
    · trivial
  | @send message err => cases err <;> trivial
  | @read message hphase =>
    rcases a.read l.side message with value | ⟨side, _ | err⟩
    · trivial
    · change PhaseHolds a { l.take message with side := side }
      unfold PhaseHolds
      rw [show ({ l.take message with side := side } : Loop S M).phase = .deciding from hphase]
      trivial
    · trivial
  | fail => trivial
  | arrive | lose | quit => exact ih

/-- A message that is offered to a loop was written by the side of the other loop. -/
theorem Stack.Sound.offered_mem {c : Setup M State} {p : Stack c} (h : p.Sound) {x : End}
    {l : Loop (State x) M} (hl : p.loops x = some l) {message : M}
    (hreader : l.reader = .offering message) :
    message ∈ p.wrote x.peer := by
  have harrived := (ordered_of_reached (h.loop x l hl)).offered message hreader
  have hmem : message ∈ l.arrived := by
    rw [harrived]
    exact List.mem_append_right _ List.mem_cons_self
  obtain ⟨other, lost, hother, hpart⟩ := h.arrived_part hl (List.ne_nil_of_mem hmem)
  have hsent : message ∈ other.sent := hpart.subset (List.mem_append_right _ hmem)
  rw [Stack.wrote_eq hother, (ordered_of_reached (h.loop x.peer other hother)).written]
  exact List.mem_append_left _ hsent

section Refinement

variable [DecidableEq M] {c : Setup M State} {p : Stack c} {n : Pair (State .initiator) (State .responder) M}

open Stack

/-- A step of a loop is a step of the pair, or none. -/
theorem Stack.Refines.loop (q : Stack c) (h : p.Refines n)
    (hn : Reached (Pair.networkStep (c.side .initiator) (c.side .responder)) anyStep (pairStart c) n)
    (hloops : q.loops = p.loops) {x : End} {l l' : Loop (State x) M} (hl : p.loops x = some l)
    (heffect : SideEffect (c.side x) l l')
    (hoffered : ∀ message, l.reader = .offering message → message ∈ p.wrote x.peer) :
    ∃ n', Reached (Pair.networkStep (c.side .initiator) (c.side .responder)) anyStep (pairStart c) n' ∧
      (q.setLoop x l').Refines n' := by
  have hwrote := wrote_eq hl
  have hqwrote (y : End) : q.wrote y = p.wrote y := by rw [wrote, hloops, wrote]
  cases x with
  | initiator =>
    have hright : (q.setLoop .initiator l').Runs .responder n.right :=
      h.right.congr ((setLoop_of_ne q l' (by decide)).trans (congrFun hloops _))
    have htoLeft : n.toLeft = (q.setLoop .initiator l').wrote .responder := by
      rw [wrote_setLoop_of_ne q l' (by decide), hqwrote, h.toLeft]
    cases heffect with
    | same hside hwritten hfailed =>
      refine ⟨n, hn, runs_setLoop q _ ?_, hright, ?_, htoLeft⟩
      · have hruns := h.left
        unfold Runs at hruns
        rw [hl] at hruns
        rcases hruns with hruns | ⟨hold, hdone⟩
        · exact .inl (hruns.trans hside.symm)
        · exact .inr ⟨hfailed hold, hdone⟩
      · rw [wrote_setLoop, hwritten, h.toRight, hwrote]
    | @wrote message hfine hwrite hwritten =>
      have hside := h.left.eq_side hl hfine
      have hstep : n.networkStep (c.side .initiator) (c.side .responder) (.turn .leftWrites) =
          some { n with left := l'.side, toRight := n.toRight ++ message.toList } :=
        Pair.step_leftWrites.mpr ⟨l'.side, message, hside ▸ hwrite, rfl⟩
      refine ⟨_, hn.next trivial hstep, runs_setLoop q _ (.inl rfl), hright, ?_, htoLeft⟩
      rw [wrote_setLoop, hwritten, ← hwrote, ← h.toRight]
    | @read message hfine hreader hread hwritten =>
      have hside := h.left.eq_side hl hfine
      have hmem : message ∈ n.toLeft := h.toLeft ▸ hoffered message hreader
      have hread' : (c.side .initiator).read n.left message = .ok (l'.side, none) := by rw [hside, hread]
      refine ⟨_, Pair.reached_leftReads hn hmem hread', runs_setLoop q _ (.inl rfl), hright, ?_, htoLeft⟩
      rw [wrote_setLoop, hwritten, ← hwrote, ← h.toRight]
    | failed hfine hdone hfailed hwritten =>
      have hside := h.left.eq_side hl hfine
      refine ⟨n, hn, runs_setLoop q _ (.inr ⟨hfailed, hside ▸ hdone⟩), hright, ?_, htoLeft⟩
      rw [wrote_setLoop, hwritten, h.toRight, hwrote]
  | responder =>
    have hleft : (q.setLoop .responder l').Runs .initiator n.left :=
      h.left.congr ((setLoop_of_ne q l' (by decide)).trans (congrFun hloops _))
    have htoRight : n.toRight = (q.setLoop .responder l').wrote .initiator := by
      rw [wrote_setLoop_of_ne q l' (by decide), hqwrote, h.toRight]
    cases heffect with
    | same hside hwritten hfailed =>
      refine ⟨n, hn, hleft, runs_setLoop q _ ?_, htoRight, ?_⟩
      · have hruns := h.right
        unfold Runs at hruns
        rw [hl] at hruns
        rcases hruns with hruns | ⟨hold, hdone⟩
        · exact .inl (hruns.trans hside.symm)
        · exact .inr ⟨hfailed hold, hdone⟩
      · rw [wrote_setLoop, hwritten, h.toLeft, hwrote]
    | @wrote message hfine hwrite hwritten =>
      have hside := h.right.eq_side hl hfine
      have hstep : n.networkStep (c.side .initiator) (c.side .responder) (.turn .rightWrites) =
          some { n with right := l'.side, toLeft := n.toLeft ++ message.toList } :=
        Pair.step_rightWrites.mpr ⟨l'.side, message, hside ▸ hwrite, rfl⟩
      refine ⟨_, hn.next trivial hstep, hleft, runs_setLoop q _ (.inl rfl), htoRight, ?_⟩
      rw [wrote_setLoop, hwritten, ← hwrote, ← h.toLeft]
    | @read message hfine hreader hread hwritten =>
      have hside := h.right.eq_side hl hfine
      have hmem : message ∈ n.toRight := h.toRight ▸ hoffered message hreader
      have hread' : (c.side .responder).read n.right message = .ok (l'.side, none) := by rw [hside, hread]
      refine ⟨_, Pair.reached_rightReads hn hmem hread', hleft, runs_setLoop q _ (.inl rfl), htoRight, ?_⟩
      rw [wrote_setLoop, hwritten, ← hwrote, ← h.toLeft]
    | failed hfine hdone hfailed hwritten =>
      have hside := h.right.eq_side hl hfine
      refine ⟨n, hn, hleft, runs_setLoop q _ (.inr ⟨hfailed, hside ▸ hdone⟩), htoRight, ?_⟩
      rw [wrote_setLoop, hwritten, h.toLeft, hwrote]

/-- Every step of the two programs is matched by the pair. -/
theorem Stack.Refines.step (h : p.Refines n) (hp : p.Sound)
    (hn : Reached (Pair.networkStep (c.side .initiator) (c.side .responder)) anyStep (pairStart c) n)
    {event : StackEvent c} {q : Stack c} (hstep : p.step event = some q) :
    ∃ n', Reached (Pair.networkStep (c.side .initiator) (c.side .responder)) anyStep (pairStart c) n' ∧
      q.Refines n' := by
  cases Stack.step_effect hstep with
  | sessions | call => exact ⟨n, hn, h.left, h.right, h.toRight, h.toLeft⟩
  | @run x call hloop =>
    have hwrote : p.wrote x = [] := by rw [wrote, hloop]
    cases x with
    | initiator =>
      have hleft := h.left
      unfold Runs at hleft
      rw [hloop] at hleft
      refine ⟨n, hn, runs_setLoop p _ (.inl hleft), h.right.congr (setLoop_of_ne p _ (by decide)), ?_, ?_⟩
      · rw [wrote_setLoop, h.toRight, hwrote]
        rfl
      · rw [wrote_setLoop_of_ne p _ (by decide), h.toLeft]
    | responder =>
      have hright := h.right
      unfold Runs at hright
      rw [hloop] at hright
      refine ⟨n, hn, h.left.congr (setLoop_of_ne p _ (by decide)), runs_setLoop p _ (.inl hright), ?_, ?_⟩
      · rw [wrote_setLoop_of_ne p _ (by decide), h.toRight]
      · rw [wrote_setLoop, h.toLeft, hwrote]
        rfl
  | iterate hl _ hiterate => exact h.loop p hn rfl hl (side_effect hiterate) fun _ => hp.offered_mem hl
  | @write x l l' call message failure link hl _ _ _ hsend =>
    exact h.loop { p with link := link } hn rfl hl (side_effect hsend) fun _ => hp.offered_mem hl
  | @read x l l' call message rest link hl _ _ _ harrive =>
    exact h.loop { p with link := link } hn rfl hl (side_effect harrive) fun _ => hp.offered_mem hl

/-- In every state that two programs reach, the loops run sides that an unreliable network
reaches. -/
theorem refines_of_reached (c : Setup M State) {p : Stack c}
    (h : Reached Stack.step anyStep (new : Stack c) p) :
    ∃ n, Reached (Pair.networkStep (c.side .initiator) (c.side .responder)) anyStep (pairStart c) n ∧ p.Refines n := by
  have hboth : p.Sound ∧ ∃ n, Reached (Pair.networkStep (c.side .initiator) (c.side .responder)) anyStep
      (pairStart c) n ∧ p.Refines n := by
    refine h.invariant (fun p => p.Sound ∧ ∃ n, Reached (Pair.networkStep (c.side .initiator) (c.side .responder))
      anyStep (pairStart c) n ∧ p.Refines n) ⟨sound_new, pairStart c, .start, rfl, rfl, rfl, rfl⟩ ?_
    rintro p event q ⟨hsound, n, hn, hrefines⟩ - hstep
    exact ⟨hsound.step hstep, hrefines.step hsound hn hstep⟩
  exact hboth.2

/-- Two programs refine the two sides of their protocol over an unreliable network. In every state
that the programs reach, with any order of steps of the sessions and the loops and any failures of
the connection: the loops run sides that the network reaches, and all that the sides have written is
on its way there; and what a loop has read is a part without gaps of what the side of the other loop
has written, of which only the first messages may be missing. -/
theorem stack_refines_network (c : Setup M State) {p : Stack c}
    (h : Reached Stack.step anyStep (new : Stack c) p) :
    (∃ n, Reached (Pair.networkStep (c.side .initiator) (c.side .responder)) anyStep (pairStart c) n ∧ p.Refines n) ∧
      ∀ x l, p.loops x = some l → l.taken ≠ [] →
        ∃ other lost, p.loops x.peer = some other ∧ lost ++ l.taken <+: other.written := by
  refine ⟨refines_of_reached c h, ?_⟩
  intro x l hl hsome
  have hsound := sound_of_reached h
  have htaken := (ordered_of_reached (hsound.loop x l hl)).taken
  have harrived : l.arrived ≠ [] := by
    intro hnone
    exact hsome (List.prefix_nil.mp (hnone ▸ htaken))
  obtain ⟨other, lost, hother, hpart⟩ := hsound.arrived_part hl harrived
  refine ⟨other, lost, hother, ?_⟩
  rw [(ordered_of_reached (hsound.loop x.peer other hother)).written]
  exact (((List.prefix_append_right_inj lost).mpr htaken).trans hpart).trans (List.prefix_append ..)

end Refinement

/-- Both programs create their channel and start their loops. -/
def startedLoops {M : Type} {State : End → Type} (c : Setup M State) : List (StackEvent c) :=
  [.call .responder, .session (.act .responder (.takeWait 0)), .call .initiator,
    .session (.act .initiator (.takeWait 0)), .session (.act .initiator (.writeCall 0 none)),
    .session (.deliver .responder), .session (.act .responder .takeMessage), .session (.act .responder .pass),
    .session (.act .responder (.writeCall 0 none)), .session (.act .responder (.takeChannel 0)),
    .session (.deliver .initiator), .session (.act .initiator .takeMessage),
    .session (.act .initiator (.proceed 0)), .session (.act .initiator (.takeChannel 0)), .run .initiator,
    .run .responder]

/-- The loop of a program writes a message, and the loop of the other one reads it. -/
def exchanged {M : Type} {State : End → Type} (c : Setup M State) (x : End) : List (StackEvent c) :=
  [.iterate x .write, .write x none, .session (.deliver x.peer), .session (.act x.peer .takeMessage),
    .session (.act x.peer .pass), .read x.peer, .iterate x.peer .read]

/-- Two programs that speak a protocol of byte strings; each of them writes one message and reads
those of the other. -/
def greeters : Setup Bytes fun _ => ℕ where
  isEncodable _ := true
  protocols :=
    { codec _ :=
        { rawTypeOf _ := 0
          marshal message := .ok message.val
          unmarshal _ payload := .ok ⟨payload, rfl⟩
          unmarshal_marshal message payload h := by
            obtain rfl := Except.ok.inj h
            rfl }
      payloadMaxSize := 100 }
  protocolId := 1
  side _ :=
    { write s := .ok (s + 1, some [7], none)
      read s _ := .ok (s + 1, none)
      canWrite s := s = 0
      mustWrite s := s = 0
      isDone _ := false }
  start _ := 0

/-- Each of the programs writes its message, and the responder reads that of the initiator. -/
theorem stack_refines_network_greeters :
    ∃ (p : Stack greeters) (l other : Loop ℕ Bytes), Reached Stack.step anyStep .new p ∧
      p.loops .responder = some l ∧ l.taken = [[7]] ∧ p.loops .initiator = some other ∧ other.written = [[7]] ∧
      (∃ n, Reached (Pair.networkStep (greeters.side .initiator) (greeters.side .responder)) anyStep
        (Stack.pairStart greeters) n ∧ p.Refines n) ∧
      ∃ lost, lost ++ l.taken <+: other.written := by
  have hrun : (execute Stack.step anyStep
      (startedLoops greeters ++ [.iterate .responder .write] ++ [.write .responder none] ++
        exchanged greeters .initiator) .new).map
      (fun p => ((p.loops .responder).map Loop.taken, (p.loops .initiator).map Loop.written)) =
      some (some [[7]], some [[7]]) := rfl
  obtain ⟨p, hp, hloops⟩ := Option.map_eq_some_iff.mp hrun
  rw [Prod.mk.injEq, Option.map_eq_some_iff, Option.map_eq_some_iff] at hloops
  obtain ⟨⟨l, hl, htaken⟩, other, hother, hwritten⟩ := hloops
  have hreached := reached_of_execute _ hp
  obtain ⟨hrefines, hpart⟩ := stack_refines_network greeters hreached
  obtain ⟨other', lost, hother', hlost⟩ := hpart .responder l hl (by rw [htaken]; simp)
  obtain rfl := Option.some.inj (hother.symm.trans hother')
  exact ⟨p, l, other, hreached, hl, htaken, hother, hwritten, hrefines, lost, hlost⟩

end ProjektCore.Programs
