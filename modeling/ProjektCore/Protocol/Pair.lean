import ProjektCore.Foundation.Runs
import ProjektCore.Protocol.Client

/-!
# Two sides joined by queues

A side of a protocol writes and reads messages; a protocol client with the world of its handlers is
one, and so is any machine that describes what a client does. Two sides joined by two FIFO queues
take turns in any order. A run goes on as long as no call fails. A loop adds a discipline: a side
that is done stops, a side writes only when it can, and one that must write does so before reading.

A map from one side to another that commutes with all calls carries the runs of a pair over. Such a
map comes from a definition that implements a machine over named phases: its client makes exactly
the calls of the machine.
-/

namespace ProjektCore.Protocol

open Foundation

/-- One side of a protocol: its calls and the questions a loop asks. -/
structure Side (S M : Type) where
  write : S → Go (S × Any M × Option Err)
  read : S → M → Go (S × Option Err)
  canWrite : S → Bool
  mustWrite : S → Bool
  isDone : S → Bool

/-- A client together with the world of its handlers. -/
structure Peer (K M W : Type) where
  client : Client K M W
  world : W

variable {K M W S T S' T' : Type}

/-- A client with its world, as a side. -/
def Peer.side [DecidableEq K] : Side (Peer K M W) M where
  write p := do
    let r ← p.client.writeMessage p.world
    return (⟨r.client, r.world⟩, r.message, r.err)
  read p message := do
    let r ← p.client.readMessage p.world message
    return (⟨r.client, r.world⟩, r.err)
  canWrite p := p.client.canWrite
  mustWrite p := p.client.mustWrite
  isDone p := p.client.isDone

/-- Two sides and the messages on their way. -/
structure Pair (S T M : Type) where
  left : S
  right : T
  toRight : List M
  toLeft : List M

/-- One call of one side. -/
inductive Turn where
  | leftWrites
  | leftReads
  | rightWrites
  | rightReads
deriving Repr, DecidableEq

namespace Pair

/-- The call of a turn; a read needs a message. The message of a failed write is not sent. -/
def call (a : Side S M) (b : Side T M) (p : Pair S T M) :
    Turn → Option (Go (Pair S T M × Option Err))
  | .leftWrites => some do
    let (left, message, err) ← a.write p.left
    let sent := if err.isNone then message.toList else []
    return ({ p with left := left, toRight := p.toRight ++ sent }, err)
  | .leftReads =>
    match p.toLeft with
    | [] => none
    | message :: rest => some do
      let (left, err) ← a.read p.left message
      return ({ p with left := left, toLeft := rest }, err)
  | .rightWrites => some do
    let (right, message, err) ← b.write p.right
    let sent := if err.isNone then message.toList else []
    return ({ p with right := right, toLeft := p.toLeft ++ sent }, err)
  | .rightReads =>
    match p.toRight with
    | [] => none
    | message :: rest => some do
      let (right, err) ← b.read p.right message
      return ({ p with right := right, toRight := rest }, err)

/-- The pair after a call that returned no error. -/
def succeeded : Option (Go (Pair S T M × Option Err)) → Option (Pair S T M)
  | some (.ok (p, none)) => some p
  | _ => none

/-- A turn whose call returns no error. -/
def step (a : Side S M) (b : Side T M) (p : Pair S T M) (turn : Turn) : Option (Pair S T M) :=
  succeeded (p.call a b turn)

/-- The turns that the loops of the two sides may take. -/
def loopTakes (a : Side S M) (b : Side T M) (p : Pair S T M) : Turn → Bool
  | .leftWrites => !a.isDone p.left && (a.mustWrite p.left || a.canWrite p.left)
  | .leftReads => !a.isDone p.left && !a.mustWrite p.left && !p.toLeft.isEmpty
  | .rightWrites => !b.isDone p.right && (b.mustWrite p.right || b.canWrite p.right)
  | .rightReads => !b.isDone p.right && !b.mustWrite p.right && !p.toRight.isEmpty

/-- A turn that the loops may take, as a guard on runs. -/
def Driven (a : Side S M) (b : Side T M) (p : Pair S T M) (turn : Turn) : Prop :=
  p.loopTakes a b turn = true

/-- Apply a map to each side. -/
def map (f : S → S') (g : T → T') (p : Pair S T M) : Pair S' T' M :=
  ⟨f p.left, g p.right, p.toRight, p.toLeft⟩

end Pair

/-- A map between sides that commutes with every call and keeps every answer. -/
structure Side.Embeds (a : Side S M) (a' : Side S' M) (f : S → S') : Prop where
  write : ∀ s, a'.write (f s) = (do
    let (s, message, err) ← a.write s
    return (f s, message, err))
  read : ∀ s message, a'.read (f s) message = (do
    let (s, err) ← a.read s message
    return (f s, err))
  canWrite : ∀ s, a'.canWrite (f s) = a.canWrite s
  mustWrite : ∀ s, a'.mustWrite (f s) = a.mustWrite s
  isDone : ∀ s, a'.isDone (f s) = a.isDone s

/-- A mapped side's write returns exactly if the side's does. -/
theorem Side.Embeds.write_returns {a : Side S M} {a' : Side S' M} {f : S → S'} (ha : a.Embeds a' f)
    {s : S} :
    (∃ result, a'.write (f s) = .ok result) ↔ ∃ result, a.write s = .ok result := by
  rw [ha.write]
  cases a.write s <;> simp

/-- A mapped side writes what the side writes. -/
theorem Side.Embeds.write_eq_ok {a : Side S M} {a' : Side S' M} {f : S → S'} (ha : a.Embeds a' f)
    {s : S} {t' : S'} {message : Any M} {err : Option Err} :
    a'.write (f s) = .ok (t', message, err) ↔ ∃ t, a.write s = .ok (t, message, err) ∧ f t = t' := by
  rw [ha.write]
  rcases a.write s with value | ⟨t, message', err'⟩ <;> simp [and_comm, and_left_comm]

/-- A mapped side reads what the side reads. -/
theorem Side.Embeds.read_eq_ok {a : Side S M} {a' : Side S' M} {f : S → S'} (ha : a.Embeds a' f)
    {s : S} {t' : S'} {message : M} {err : Option Err} :
    a'.read (f s) message = .ok (t', err) ↔ ∃ t, a.read s message = .ok (t, err) ∧ f t = t' := by
  rw [ha.read]
  rcases a.read s message with value | ⟨t, err'⟩ <;> simp [and_comm]

/-- A mapped side's write panics exactly if the side's does. -/
theorem Side.Embeds.write_panics {a : Side S M} {a' : Side S' M} {f : S → S'} (ha : a.Embeds a' f)
    {s : S} {value : Panic Err} : a'.write (f s) = .error value ↔ a.write s = .error value := by
  rw [ha.write]
  cases a.write s <;> simp

/-- A mapped side's read panics exactly if the side's does. -/
theorem Side.Embeds.read_panics {a : Side S M} {a' : Side S' M} {f : S → S'} (ha : a.Embeds a' f)
    {s : S} {message : M} {value : Panic Err} :
    a'.read (f s) message = .error value ↔ a.read s message = .error value := by
  rw [ha.read]
  cases a.read s message <;> simp

namespace Pair

variable {a : Side S M} {b : Side T M} {a' : Side S' M} {b' : Side T' M} {f : S → S'} {g : T → T'}

/-- The calls of the mapped sides are the mapped calls. -/
theorem call_map (ha : a.Embeds a' f) (hb : b.Embeds b' g) (p : Pair S T M) (turn : Turn) :
    (p.map f g).call a' b' turn = (p.call a b turn).map fun result => do
      let (p, err) ← result
      return (p.map f g, err) := by
  cases turn with
  | leftWrites =>
    simp only [call, map, ha.write, Option.map_some]
    cases a.write p.left <;> rfl
  | leftReads =>
    simp only [call, map]
    cases p.toLeft with
    | nil => rfl
    | cons message rest =>
      simp only [ha.read, Option.map_some]
      cases a.read p.left message <;> rfl
  | rightWrites =>
    simp only [call, map, hb.write, Option.map_some]
    cases b.write p.right <;> rfl
  | rightReads =>
    simp only [call, map]
    cases p.toRight with
    | nil => rfl
    | cons message rest =>
      simp only [hb.read, Option.map_some]
      cases b.read p.right message <;> rfl

/-- The steps of the mapped sides are the mapped steps. -/
theorem step_map (ha : a.Embeds a' f) (hb : b.Embeds b' g) (p : Pair S T M) (turn : Turn) :
    (p.map f g).step a' b' turn = (p.step a b turn).map (Pair.map f g) := by
  rw [step, call_map ha hb, step]
  rcases p.call a b turn with _ | (_ | ⟨p', _ | err⟩) <;> rfl

/-- The loops of the mapped sides may take the same turns. -/
theorem loopTakes_map (ha : a.Embeds a' f) (hb : b.Embeds b' g) (p : Pair S T M) (turn : Turn) :
    (p.map f g).loopTakes a' b' turn = p.loopTakes a b turn := by
  cases turn <;>
    simp only [loopTakes, map, ha.isDone, ha.mustWrite, ha.canWrite, hb.isDone, hb.mustWrite,
      hb.canWrite]

/-- Every state that the loops of the mapped sides reach is a mapped state the loops reach. -/
theorem driven_of_map (ha : a.Embeds a' f) (hb : b.Embeds b' g) (start : Pair S T M)
    {q : Pair S' T' M} (h : Reached (step a' b') (Driven a' b') (start.map f g) q) :
    ∃ p, q = p.map f g ∧ Reached (step a b) (Driven a b) start p := by
  refine Reached.of_map (Pair.map f g) (step_map ha hb) ?_ start h
  intro p turn hdriven
  rw [Driven, loopTakes_map ha hb] at hdriven
  exact hdriven

/-- A step is a call that returns no error. -/
theorem step_eq_some {p q : Pair S T M} {turn : Turn} :
    p.step a b turn = some q ↔ p.call a b turn = some (.ok (q, none)) := by
  rcases hcall : p.call a b turn with _ | (value | ⟨p', _ | err⟩) <;> simp [step, hcall, succeeded]

/-- A step of the sides is a call of the mapped sides that returns no error. -/
theorem call_map_of_step (ha : a.Embeds a' f) (hb : b.Embeds b' g) {p q : Pair S T M} {turn : Turn}
    (h : p.step a b turn = some q) :
    (p.map f g).call a' b' turn = some (.ok (q.map f g, none)) := by
  rw [← step_eq_some, step_map ha hb, h]
  rfl

/-- A successful call of the left side to write. -/
theorem step_leftWrites {p q : Pair S T M} : p.step a b .leftWrites = some q ↔
    ∃ left message, a.write p.left = .ok (left, message, none) ∧
      { p with left := left, toRight := p.toRight ++ message.toList } = q := by
  rcases hw : a.write p.left with value | ⟨left, message, _ | err⟩ <;>
    simp [step, call, hw, succeeded]

/-- A successful call of the left side to read. -/
theorem step_leftReads {p q : Pair S T M} : p.step a b .leftReads = some q ↔
    ∃ message rest left, p.toLeft = message :: rest ∧ a.read p.left message = .ok (left, none) ∧
      { p with left := left, toLeft := rest } = q := by
  cases hq : p.toLeft with
  | nil => simp [step, call, hq, succeeded]
  | cons message rest =>
    rcases hr : a.read p.left message with value | ⟨left, _ | err⟩ <;>
      simp [step, call, hq, hr, succeeded]

/-- A successful call of the right side to write. -/
theorem step_rightWrites {p q : Pair S T M} : p.step a b .rightWrites = some q ↔
    ∃ right message, b.write p.right = .ok (right, message, none) ∧
      { p with right := right, toLeft := p.toLeft ++ message.toList } = q := by
  rcases hw : b.write p.right with value | ⟨right, message, _ | err⟩ <;>
    simp [step, call, hw, succeeded]

/-- A successful call of the right side to read. -/
theorem step_rightReads {p q : Pair S T M} : p.step a b .rightReads = some q ↔
    ∃ message rest right, p.toRight = message :: rest ∧ b.read p.right message = .ok (right, none) ∧
      { p with right := right, toRight := rest } = q := by
  cases hq : p.toRight with
  | nil => simp [step, call, hq, succeeded]
  | cons message rest =>
    rcases hr : b.read p.right message with value | ⟨right, _ | err⟩ <;>
      simp [step, call, hq, hr, succeeded]

end Pair

/-- What a client does in each of a set of named phases, without an automaton. -/
structure Machine (P M W : Type) where
  state : P → State
  write : P → W → Go (P × W × Any M × Option Err)
  read : P → W → M → Go (P × W × Option Err)
  canWrite : P → Bool
  mustWrite : P → Bool
  isDone : P → Bool

variable {P : Type}

/-- A machine as a side. -/
def Machine.side (m : Machine P M W) : Side (P × W) M where
  write s := do
    let (phase, world, message, err) ← m.write s.1 s.2
    return ((phase, world), message, err)
  read s message := do
    let (phase, world, err) ← m.read s.1 s.2 message
    return ((phase, world), err)
  canWrite s := m.canWrite s.1
  mustWrite s := m.mustWrite s.1
  isDone s := m.isDone s.1

/-- A machine's write as a side. -/
theorem Machine.side_write_eq_ok {m : Machine P M W} {s s' : P × W} {message : Any M}
    {err : Option Err} :
    m.side.write s = .ok (s', message, err) ↔ m.write s.1 s.2 = .ok (s'.1, s'.2, message, err) := by
  obtain ⟨phase, world⟩ := s'
  rcases hw : m.write s.1 s.2 with value | ⟨phase', world', message', err'⟩ <;>
    simp [Machine.side, hw, and_assoc]

/-- A machine's read as a side. -/
theorem Machine.side_read_eq_ok {m : Machine P M W} {s s' : P × W} {message : M}
    {err : Option Err} :
    m.side.read s message = .ok (s', err) ↔ m.read s.1 s.2 message = .ok (s'.1, s'.2, err) := by
  obtain ⟨phase, world⟩ := s'
  rcases hr : m.read s.1 s.2 message with value | ⟨phase', world', err'⟩ <;>
    simp [Machine.side, hr, and_assoc]

/-- A machine's write as a side returns exactly if the machine's does. -/
theorem Machine.side_write_returns {m : Machine P M W} {s : P × W} :
    (∃ result, m.side.write s = .ok result) ↔ ∃ result, m.write s.1 s.2 = .ok result := by
  cases hw : m.write s.1 s.2 <;> simp [Machine.side, hw]

/-- A machine's read as a side panics exactly if the machine's does. -/
theorem Machine.side_read_panics {m : Machine P M W} {s : P × W} {message : M} {value : Panic Err} :
    m.side.read s message = .error value ↔ m.read s.1 s.2 message = .error value := by
  cases hr : m.read s.1 s.2 message <;> simp [Machine.side, hr]

/-- The peer of a client in a phase. -/
def Machine.peer (m : Machine P M W) (c : Client K M W) (s : P × W) : Peer K M W :=
  ⟨{ c with state := m.state s.1 }, s.2⟩

/-- Move to a phase with the world that a handler leaves and its error as the client reports it. -/
def moveTo (phase : P) (result : Go (W × Option Err)) : Go (P × W × Option Err) := do
  let (world, err) ← result
  return (phase, world, Client.readError err)

/-- The state after a handled message is the state of the phase moved to. -/
theorem moveTo_state (state : P → State) (c : Client K M W) (phase : P)
    (result : Go (W × Option Err)) :
    (do
      let (world, err) ← result
      return (⟨{ c with state := state phase }, world, Client.readError err⟩ : ReadResult K M W)) = (do
      let (phase, world, err) ← moveTo phase result
      return ⟨{ c with state := state phase }, world, err⟩) := by
  cases result <;> rfl

/-- A message whose handler returns moves the client on, also if the handler returns an error. -/
theorem moveTo_returns {phase phase' : P} {result : Go (W × Option Err)} {world : W}
    {err : Option Err} (h : moveTo phase result = .ok (phase', world, err)) :
    ∃ returned, result = .ok (world, returned) ∧ phase' = phase ∧ err = Client.readError returned := by
  simp only [moveTo, Call.bind_eq_ok] at h
  obtain ⟨⟨world', returned⟩, hresult, h⟩ := h
  simp only [Call.pure_eq_ok, Except.ok.injEq, Prod.mk.injEq] at h
  obtain ⟨rfl, rfl, rfl⟩ := h
  exact ⟨returned, hresult, rfl, rfl⟩

/-- A handled message fails exactly if the handler does. -/
theorem moveTo_eq_ok {phase after : P} {result : Go (W × Option Err)} {world : W} :
    moveTo phase result = .ok (after, world, none) ↔ phase = after ∧ result = .ok (world, none) := by
  rcases result with value | ⟨world', err⟩
  · simp [moveTo]
  · cases err with
    | none => simp [moveTo, Client.readError, Client.isBadTransition]
    | some err =>
      by_cases hbad : Client.isBadTransition (some err) <;> simp [moveTo, Client.readError, hbad]

/-- A handled message is refused only if the handler refuses it. -/
theorem moveTo_refused {phase after : P} {result : Go (W × Option Err)} {world : W} {err : Err}
    (h : moveTo phase result = .ok (after, world, some err)) :
    ∃ err', result = .ok (world, some err') := by
  rcases result with value | ⟨world', _ | err'⟩
  · simp [moveTo] at h
  · simp [moveTo, Client.readError, Client.isBadTransition] at h
  · simp only [moveTo, Call.ok_bind, Call.pure_eq_ok, Except.ok.injEq, Prod.mk.injEq] at h
    exact ⟨err', by rw [h.2.1]⟩

/-- A handled message panics exactly if the handler does. -/
theorem moveTo_panics {phase : P} {result : Go (W × Option Err)} {value : Panic Err} :
    moveTo phase result = .error value ↔ result = .error value := by
  cases result <;> simp [moveTo]

/-- The clients of a definition make the calls of a machine. -/
structure Implements [DecidableEq K] (d : Definition K M W) (m : Machine P M W) : Prop where
  write : ∀ c, Compiles d c → ∀ phase world, c.state = m.state phase →
    c.writeMessage world = (do
      let (phase, world, message, err) ← m.write phase world
      return ⟨{ c with state := m.state phase }, world, message, err⟩)
  read : ∀ c, Compiles d c → ∀ phase world message, c.state = m.state phase →
    c.readMessage world message = (do
      let (phase, world, err) ← m.read phase world message
      return ⟨{ c with state := m.state phase }, world, err⟩)
  canWrite : ∀ phase, m.canWrite phase = true ↔
    (Key.state (m.state phase) : Key K) ∈ d.writeMessage.entries.map Prod.fst
  mustWrite : ∀ phase, m.mustWrite phase = (d.writeFirst && m.canWrite phase)
  isDone : ∀ phase, m.isDone phase = true ↔ m.state phase = d.finalState

/-- The machine embeds into the client of a definition that implements it. -/
theorem Implements.embeds [DecidableEq K] {d : Definition K M W} {m : Machine P M W}
    (h : Implements d m) {c : Client K M W} (hc : Compiles d c) :
    m.side.Embeds Peer.side (m.peer c) := by
  have hat (phase : P) : Compiles d { c with state := m.state phase } :=
    ⟨hc.protocol, hc.writeFirst, hc.finalState, hc.writer, hc.reader, hc.writeAt⟩
  have hcan (phase : P) : Client.canWrite { c with state := m.state phase } = m.canWrite phase := by
    rw [Bool.eq_iff_iff, (hat phase).canWrite_iff, h.canWrite]
  refine ⟨?_, ?_, ?_, ?_, ?_⟩
  · rintro ⟨phase, world⟩
    simp only [Peer.side, Machine.peer, Machine.side, h.write _ (hat phase) phase world rfl]
    cases m.write phase world <;> rfl
  · rintro ⟨phase, world⟩ message
    simp only [Peer.side, Machine.peer, Machine.side, h.read _ (hat phase) phase world message rfl]
    cases m.read phase world message <;> rfl
  · rintro ⟨phase, world⟩
    exact hcan phase
  · rintro ⟨phase, world⟩
    change (c.writeFirst && Client.canWrite { c with state := m.state phase }) = m.mustWrite phase
    rw [hcan, hc.writeFirst, h.mustWrite]
  · rintro ⟨phase, world⟩
    change decide (m.state phase = c.finalState) = m.isDone phase
    rw [Bool.eq_iff_iff, decide_eq_true_iff, hc.finalState, h.isDone]

end ProjektCore.Protocol
