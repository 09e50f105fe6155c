import ProjektCore.Protocol.Pair

/-!
# The loop of a protocol client

`Loop.Run` drives a side of a protocol over a connection. A goroutine of its own reads the messages
of the connection and offers them one after the other; the first error of the connection ends it.
The loop asks in each iteration whether the side is done, then whether it must write, then whether
it can write. A side that can write does so unless a message or an error is there; a side that
cannot write waits for one of them.

What the connection does is given by the events: the messages and the error that it delivers, and
whether it takes a message that is written. The messages that pass through the loop are recorded.
-/

namespace ProjektCore.Protocol

open Foundation

/-- How far the goroutine that reads from the connection is. -/
inductive LoopReader (M : Type) where
  | reading
  /-- It offers a message until it is taken, or until the loop is done. -/
  | offering (message : M)
  | stopped
deriving Repr, DecidableEq

/-- How far the loop is. -/
inductive LoopPhase (M : Type) where
  /-- An iteration starts. -/
  | deciding
  /-- It passes the message of a write to the connection. -/
  | sending (message : Any M)
  | returned (err : Option Err)
  | panicked (value : Panic Err)
deriving Repr, DecidableEq

/-- A loop with its side and the goroutine that reads. -/
structure Loop (S M : Type) where
  side : S
  phase : LoopPhase M
  reader : LoopReader M
  /-- The error in the channel `errs`. -/
  errs : Option Err
  /-- Whether the channel `done` is closed. -/
  isClosed : Bool
  /-- The messages that the connection has delivered. -/
  arrived : List M
  /-- The messages that were passed to `ReadMessage`. -/
  taken : List M
  /-- The messages that `WriteMessage` has returned without an error. -/
  written : List M
  /-- The messages that were passed to the connection. -/
  sent : List M

/-- What happens in a loop. -/
inductive LoopEvent (M : Type) where
  /-- The loop finds the side to be done. -/
  | finish
  | write
  /-- The connection takes the message of a write, or returns an error. -/
  | send (err : Option Err)
  /-- The loop takes the message that is offered, and the side reads it. -/
  | read
  /-- The loop takes the error of the connection. -/
  | fail
  /-- The connection delivers a message. -/
  | arrive (message : M)
  /-- Reading from the connection fails. -/
  | lose (err : Err)
  /-- The goroutine that reads finds the loop to be done. -/
  | quit
deriving Repr, DecidableEq

/-- Whether an event is a part of an iteration of the loop. -/
def LoopEvent.isIteration {M : Type} : LoopEvent M → Bool
  | .finish | .write | .send _ | .read | .fail => true
  | .arrive _ | .lose _ | .quit => false

variable {K M W S S' : Type}

namespace Loop

/-- A loop that has just been started. -/
def new (side : S) : Loop S M := ⟨side, .deciding, .reading, none, false, [], [], [], []⟩

/-- Whether a message or an error can be taken. -/
def isReady (l : Loop S M) : Bool :=
  match l.reader with
  | .offering _ => true
  | .reading | .stopped => l.errs.isSome

/-- Whether the iteration writes. -/
def mayWrite (a : Side S M) (l : Loop S M) : Bool :=
  !a.isDone l.side && (a.mustWrite l.side || (a.canWrite l.side && !l.isReady))

/-- Whether the iteration takes a message or an error. -/
def mayTake (a : Side S M) (l : Loop S M) : Bool := !a.isDone l.side && !a.mustWrite l.side

/-- The side has been asked for a message. -/
def afterWrite (l : Loop S M) : Go (S × Any M × Option Err) → Loop S M
  | .error value => { l with phase := .panicked value }
  | .ok (side, _, some err) => { l with side, phase := .returned (some err) }
  | .ok (side, message, none) => { l with side, phase := .sending message, written := l.written ++ message.toList }

/-- The side has been given a message. -/
def afterRead (l : Loop S M) : Go (S × Option Err) → Loop S M
  | .error value => { l with phase := .panicked value }
  | .ok (side, some err) => { l with side, phase := .returned (some err) }
  | .ok (side, none) => { l with side }

/-- The connection has been given a message. -/
def afterSend (l : Loop S M) (message : Any M) : Option Err → Loop S M
  | some err => { l with phase := .returned (some err), sent := l.sent ++ message.toList }
  | none => { l with phase := .deciding, sent := l.sent ++ message.toList }

/-- The loop takes a message from the goroutine that reads. -/
def take (l : Loop S M) (message : M) :
    Loop S M := { l with reader := .reading, taken := l.taken ++ [message] }

/-- One step of the loop, of the goroutine that reads, or of the connection. -/
def step (a : Side S M) (l : Loop S M) : LoopEvent M → Option (Loop S M)
  | .finish =>
    match l.phase with
    | .deciding => if a.isDone l.side then some { l with phase := .returned none, isClosed := true } else none
    | _ => none
  | .write =>
    match l.phase with
    | .deciding => if l.mayWrite a then some (l.afterWrite (a.write l.side)) else none
    | _ => none
  | .send err =>
    match l.phase with
    | .sending message => some (l.afterSend message err)
    | _ => none
  | .read =>
    match l.phase, l.reader with
    | .deciding, .offering message =>
      if l.mayTake a then some ((l.take message).afterRead (a.read l.side message)) else none
    | _, _ => none
  | .fail =>
    match l.phase, l.errs with
    | .deciding, some err =>
      if l.mayTake a then some { l with phase := .returned (some err), errs := none } else none
    | _, _ => none
  | .arrive message =>
    match l.reader with
    | .reading => some { l with reader := .offering message, arrived := l.arrived ++ [message] }
    | _ => none
  | .lose err =>
    match l.reader with
    | .reading => some { l with reader := .stopped, errs := some err }
    | _ => none
  | .quit =>
    match l.reader with
    | .offering _ => if l.isClosed then some { l with reader := .stopped } else none
    | _ => none

/-- The iteration returns, whatever the connection does. -/
def Returns (a : Side S M) (l : Loop S M) : Prop :=
  (∃ event l', event.isIteration = true ∧ l.step a event = some l') ∧
    ∀ event l', event.isIteration = true → l.step a event = some l' → ∃ err, l'.phase = .returned err

/-- The iteration does not go on unless the connection does. -/
def Waits (a : Side S M) (l : Loop S M) :
    Prop := ∀ event, event.isIteration = true → l.step a event = none

end Loop

/-- The effects of the steps of a loop. -/
inductive LoopEffect (a : Side S M) (l : Loop S M) : LoopEvent M → Loop S M → Prop
  | finish : l.phase = .deciding → a.isDone l.side = true →
      LoopEffect a l .finish { l with phase := .returned none, isClosed := true }
  | write : l.phase = .deciding → l.mayWrite a = true → LoopEffect a l .write (l.afterWrite (a.write l.side))
  | send {message : Any M} {err : Option Err} : l.phase = .sending message →
      LoopEffect a l (.send err) (l.afterSend message err)
  | read {message : M} : l.phase = .deciding → l.reader = .offering message → l.mayTake a = true →
      LoopEffect a l .read ((l.take message).afterRead (a.read l.side message))
  | fail {err : Err} : l.phase = .deciding → l.errs = some err → l.mayTake a = true →
      LoopEffect a l .fail { l with phase := .returned (some err), errs := none }
  | arrive {message : M} : l.reader = .reading →
      LoopEffect a l (.arrive message) { l with reader := .offering message, arrived := l.arrived ++ [message] }
  | lose {err : Err} : l.reader = .reading →
      LoopEffect a l (.lose err) { l with reader := .stopped, errs := some err }
  | quit {message : M} : l.reader = .offering message → l.isClosed = true →
      LoopEffect a l .quit { l with reader := .stopped }

namespace Loop

variable {a : Side S M} {l l' : Loop S M}

/-- Every step has one of the effects. -/
theorem step_effect {event : LoopEvent M} (h : l.step a event = some l') :
    LoopEffect a l event l' := by
  cases event with
  | finish =>
    simp only [step] at h
    split at h
    · next hphase =>
      obtain ⟨hdone, heq⟩ := Option.ite_none_right_eq_some.mp h
      obtain rfl := Option.some.inj heq
      exact .finish hphase hdone
    · cases h
  | write =>
    simp only [step] at h
    split at h
    · next hphase =>
      obtain ⟨hwrite, heq⟩ := Option.ite_none_right_eq_some.mp h
      obtain rfl := Option.some.inj heq
      exact .write hphase hwrite
    · cases h
  | send err =>
    simp only [step] at h
    split at h
    · next message hphase =>
      obtain rfl := Option.some.inj h
      exact .send hphase
    · cases h
  | read =>
    simp only [step] at h
    split at h
    · next message hphase hreader =>
      obtain ⟨htake, heq⟩ := Option.ite_none_right_eq_some.mp h
      obtain rfl := Option.some.inj heq
      exact .read hphase hreader htake
    · cases h
  | fail =>
    simp only [step] at h
    split at h
    · next err hphase herrs =>
      obtain ⟨htake, heq⟩ := Option.ite_none_right_eq_some.mp h
      obtain rfl := Option.some.inj heq
      exact .fail hphase herrs htake
    · cases h
  | arrive message =>
    simp only [step] at h
    split at h
    · next hreader =>
      obtain rfl := Option.some.inj h
      exact .arrive hreader
    · cases h
  | lose err =>
    simp only [step] at h
    split at h
    · next hreader =>
      obtain rfl := Option.some.inj h
      exact .lose hreader
    · cases h
  | quit =>
    simp only [step] at h
    split at h
    · next message hreader =>
      obtain ⟨hclosed, heq⟩ := Option.ite_none_right_eq_some.mp h
      obtain rfl := Option.some.inj heq
      exact .quit hreader hclosed
    · cases h

/-- A loop writes only while its side is not done. -/
theorem isDone_of_mayWrite (h : l.mayWrite a = true) : a.isDone l.side = false := by
  rw [mayWrite, Bool.and_eq_true, Bool.not_eq_true'] at h
  exact h.1

/-- A loop takes messages and errors only while its side is not done. -/
theorem isDone_of_mayTake (h : l.mayTake a = true) : a.isDone l.side = false := by
  rw [mayTake, Bool.and_eq_true, Bool.not_eq_true'] at h
  exact h.1

/-- A property of the side and of the messages taken holds in every state of a loop if the calls
that the loop makes keep it. -/
theorem side_invariant (P : S → List M → Prop) {start : S} (hstart : P start [])
    (hwrite : ∀ side taken side' message err, P side taken → a.isDone side = false →
      a.write side = .ok (side', message, err) → P side' taken)
    (hread : ∀ side taken message side' err, P side taken → a.isDone side = false →
      a.read side message = .ok (side', err) → P side' (taken ++ [message]))
    (hpanic : ∀ side taken message value, P side taken → a.isDone side = false →
      a.read side message = .error value → P side (taken ++ [message]))
    (h : Reached (step a) anyStep (new start) l) : P l.side l.taken := by
  refine h.invariant (fun l => P l.side l.taken) hstart ?_
  intro l event l' hl _ hstep
  cases step_effect hstep with
  | finish | fail | arrive | lose | quit => exact hl
  | write _ hmay =>
    have hdone := isDone_of_mayWrite hmay
    rcases hresult : a.write l.side with value | ⟨side, message, _ | err⟩
    · exact hl
    · exact hwrite l.side l.taken side message none hl hdone hresult
    · exact hwrite l.side l.taken side message (some err) hl hdone hresult
  | @send message err =>
    cases err with
    | none => exact hl
    | some err => exact hl
  | @read message _ _ hmay =>
    have hdone := isDone_of_mayTake hmay
    rcases hresult : a.read l.side message with value | ⟨side, _ | err⟩
    · exact hpanic l.side l.taken message value hl hdone hresult
    · exact hread l.side l.taken message side none hl hdone hresult
    · exact hread l.side l.taken message side (some err) hl hdone hresult

/-- A loop whose side is done returns. -/
theorem returns_of_isDone (hphase : l.phase = .deciding) (hdone : a.isDone l.side = true) :
    l.Returns a := by
  constructor
  · refine ⟨.finish, { l with phase := .returned none, isClosed := true }, rfl, ?_⟩
    simp only [step, hphase, hdone, if_true]
  · intro event l' hevent hstep
    cases step_effect hstep with
    | finish => exact ⟨none, rfl⟩
    | write _ hmay => simp [isDone_of_mayWrite hmay] at hdone
    | send hsending => simp [hphase] at hsending
    | read _ _ hmay => simp [isDone_of_mayTake hmay] at hdone
    | fail _ _ hmay => simp [isDone_of_mayTake hmay] at hdone
    | arrive | lose | quit => cases hevent

/-- A loop whose side is not done and cannot write waits for the connection. -/
theorem waits_of_silent (hphase : l.phase = .deciding) (hdone : a.isDone l.side = false)
    (hcan : a.canWrite l.side = false) (hmust : a.mustWrite l.side = false)
    (hready : l.isReady = false) :
    l.Waits a := by
  intro event hevent
  by_contra hstep
  obtain ⟨l', hl'⟩ := Option.ne_none_iff_exists'.mp hstep
  cases step_effect hl' with
  | finish _ hisDone => simp [hdone] at hisDone
  | write _ hwrite => simp [mayWrite, hcan, hmust] at hwrite
  | send hsending => simp [hphase] at hsending
  | read _ hreader => simp [isReady, hreader] at hready
  | fail _ herrs =>
    simp only [isReady, herrs] at hready
    split at hready <;> simp at hready
  | arrive | lose | quit => cases hevent

/-- Apply a map to the side. -/
def map (f : S → S') (l : Loop S M) : Loop S' M :=
  ⟨f l.side, l.phase, l.reader, l.errs, l.isClosed, l.arrived, l.taken, l.written, l.sent⟩

section Map

variable {a' : Side S' M} {f : S → S'}

/-- A loop over the mapped side writes in the same iterations. -/
theorem mayWrite_map (ha : a.Embeds a' f) (l : Loop S M) :
    (l.map f).mayWrite a' = l.mayWrite a := by
  simp only [mayWrite, map, isReady, ha.isDone, ha.mustWrite, ha.canWrite]

/-- A loop over the mapped side takes messages and errors in the same iterations. -/
theorem mayTake_map (ha : a.Embeds a' f) (l : Loop S M) : (l.map f).mayTake a' = l.mayTake a := by
  simp only [mayTake, map, ha.isDone, ha.mustWrite]

/-- A message of the mapped side is a message of the side. -/
theorem afterWrite_map (ha : a.Embeds a' f) (l : Loop S M) :
    (l.map f).afterWrite (a'.write (f l.side)) = (l.afterWrite (a.write l.side)).map f := by
  rw [ha.write]
  rcases a.write l.side with value | ⟨side, message, _ | err⟩ <;> rfl

/-- What the mapped side reads, the side reads. -/
theorem afterRead_map (ha : a.Embeds a' f) (l : Loop S M) (message : M) :
    (l.map f).afterRead (a'.read (f l.side) message) = (l.afterRead (a.read l.side message)).map f := by
  rw [ha.read]
  rcases a.read l.side message with value | ⟨side, _ | err⟩ <;> rfl

/-- The steps of a loop over the mapped side are the mapped steps. -/
theorem step_map (ha : a.Embeds a' f) (l : Loop S M) (event : LoopEvent M) :
    (l.map f).step a' event = (l.step a event).map (Loop.map f) := by
  have hwrite := mayWrite_map ha l
  have htake := mayTake_map ha l
  have hphase : (l.map f).phase = l.phase := rfl
  have hreader : (l.map f).reader = l.reader := rfl
  cases event with
  | finish =>
    simp only [step, hphase]
    cases l.phase with
    | deciding =>
      simp only [map, ha.isDone]
      cases a.isDone l.side <;> rfl
    | _ => rfl
  | write =>
    simp only [step, hphase, hwrite]
    cases l.phase with
    | deciding =>
      cases l.mayWrite a with
      | false => rfl
      | true => exact congrArg some (afterWrite_map ha l)
    | _ => rfl
  | send err =>
    simp only [step, hphase]
    cases l.phase with
    | sending message => cases err <;> rfl
    | _ => rfl
  | read =>
    simp only [step, hphase, hreader, htake]
    cases l.phase with
    | deciding =>
      cases l.reader with
      | offering message =>
        cases l.mayTake a with
        | false => rfl
        | true => exact congrArg some (afterRead_map ha (l.take message) message)
      | _ => rfl
    | _ => rfl
  | fail =>
    have herrs : (l.map f).errs = l.errs := rfl
    simp only [step, hphase, herrs, htake]
    cases l.phase with
    | deciding =>
      cases l.errs with
      | none => rfl
      | some err => cases l.mayTake a <;> rfl
    | _ => rfl
  | arrive message =>
    simp only [step, hreader]
    cases l.reader <;> rfl
  | lose err =>
    simp only [step, hreader]
    cases l.reader <;> rfl
  | quit =>
    have hclosed : (l.map f).isClosed = l.isClosed := rfl
    simp only [step, hreader, hclosed]
    cases l.reader with
    | offering message => cases hc : l.isClosed <;> simp [map, hc]
    | _ => rfl

/-- Every state that a loop over the mapped side reaches is a mapped state that a loop reaches. -/
theorem reached_of_map (ha : a.Embeds a' f) (start : Loop S M) {q : Loop S' M}
    (h : Reached (step a') anyStep (start.map f) q) :
    ∃ l, q = l.map f ∧ Reached (step a) anyStep start l :=
  Reached.of_map (Loop.map f) (step_map ha) (fun _ _ _ => trivial) start h

end Map

end Loop

/-- A state without transitions: no message can be written in it, and none can be read. -/
def Definition.IsTerminal [DecidableEq K] (d : Definition K M W) (state : State) : Prop :=
  d.writeTransition state = none ∧ ∀ key, d.readTransition key state = none

end ProjektCore.Protocol
