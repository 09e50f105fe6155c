import ProjektCore.Foundation.Runs
import ProjektCore.Relay.Sessions

/-!
# The bytes that a session relays

Once both clients are connected, one goroutine for each of the two directions reads from its source
into a buffer and writes what it read to its destination. The error of a write is kept in a variable
that both goroutines share, so one of them may find the error of the other.

What a source delivers together with an error is dropped. All other bytes are written in order.
-/

namespace ProjektCore.Relay

open Foundation

/-- The size of the buffer of a direction. -/
def SessionBufSize : ℕ := 1024

/-- How far the goroutine of a direction is. -/
inductive ForwardPhase where
  | reading
  /-- It has read data and looks whether the server is closed. -/
  | received (data : Bytes)
  | writing (data : Bytes)
  /-- It looks at the error of the write. -/
  | wrote
  /-- It looks again whether the server is closed. -/
  | continuing
  /-- It has returned and reports the end of its direction. -/
  | ended
  /-- It has returned since the server is closed. -/
  | stopped
deriving Repr, DecidableEq

/-- The goroutines of both directions, each named by the seat of its source. -/
structure Forwarding where
  phases : Seat → ForwardPhase
  /-- The bytes that the destination of a direction took. -/
  written : Seat → Bytes
  /-- The variable with the error of the last write, in whichever direction. -/
  err : Option Err
  isClosed : Bool

/-- What the goroutines and the server do. -/
inductive ForwardEvent where
  /-- A read of the source returns data, an error, or both. -/
  | read (seat : Seat) (data : Bytes) (failure : Option Err)
  /-- The goroutine looks whether the server is closed. -/
  | look (seat : Seat)
  | write (seat : Seat) (count : ℕ) (failure : Option Err)
  /-- The goroutine looks at the error. -/
  | test (seat : Seat)
  | close
deriving Repr, DecidableEq

namespace Forwarding

/-- Both directions are about to read for the first time. -/
def new : Forwarding := ⟨fun _ => .reading, fun _ => [], none, false⟩

/-- A direction goes on to a phase. -/
def setPhase (s : Forwarding) (seat : Seat) (phase : ForwardPhase) : Forwarding :=
  { s with phases := Function.update s.phases seat phase }

/-- One step of a goroutine. A read returns no more than the buffer holds, a write takes no more
than it is given and all of it unless it fails. -/
def step (s : Forwarding) : ForwardEvent → Option Forwarding
  | .read seat data failure =>
    match s.phases seat with
    | .reading =>
      if data.length ≤ SessionBufSize then
        some (s.setPhase seat (if failure.isSome then .ended else .received data))
      else none
    | _ => none
  | .look seat =>
    match s.phases seat with
    | .received data => some (s.setPhase seat (if s.isClosed then .stopped else .writing data))
    | .continuing => some (s.setPhase seat (if s.isClosed then .stopped else .reading))
    | _ => none
  | .write seat count failure =>
    match s.phases seat with
    | .writing data =>
      if count ≤ data.length ∧ (failure = none → count = data.length) then
        some { s.setPhase seat .wrote with
          written := Function.update s.written seat (s.written seat ++ data.take count), err := failure }
      else none
    | _ => none
  | .test seat =>
    match s.phases seat with
    | .wrote => some (s.setPhase seat (if s.err.isSome then .ended else .continuing))
    | _ => none
  | .close => some { s with isClosed := true }

end Forwarding

/-- Whether an event is neither the closing of the server nor a write that fails in a direction. -/
def ForwardEvent.isReliable (seat : Seat) : ForwardEvent → Bool
  | .write seat' _ failure => seat' ≠ seat || failure.isNone
  | .close => false
  | _ => true

/-- The direction that an event belongs to. -/
def ForwardEvent.direction : ForwardEvent → Option Seat
  | .read seat _ _ | .look seat | .write seat _ _ | .test seat => some seat
  | .close => none

/-- The bytes that an event delivers from the source of a direction. -/
def ForwardEvent.bytes (seat : Seat) : ForwardEvent → Bytes
  | .read seat' data _ => if seat' = seat then data else []
  | _ => []

/-- The bytes that an event delivers from the source of a direction together with an error. -/
def ForwardEvent.bytesWithError (seat : Seat) : ForwardEvent → Bytes
  | .read seat' data (some _) => if seat' = seat then data else []
  | _ => []

/-- The bytes that the source of a direction delivered. -/
def delivered (seat : Seat) (events : List ForwardEvent) :
    Bytes := events.flatMap (ForwardEvent.bytes seat)

/-- The bytes that the source of a direction delivered together with an error. -/
def deliveredWithError (seat : Seat) (events : List ForwardEvent) : Bytes :=
  events.flatMap (ForwardEvent.bytesWithError seat)

/-- What one more event delivers comes at the end. -/
theorem delivered_concat (seat : Seat) (events : List ForwardEvent) (event : ForwardEvent) :
    delivered seat (events ++ [event]) = delivered seat events ++ event.bytes seat := by
  simp [delivered]

/-- What one more event delivers together with an error comes at the end. -/
theorem deliveredWithError_concat (seat : Seat) (events : List ForwardEvent)
    (event : ForwardEvent) :
    deliveredWithError seat (events ++ [event]) =
      deliveredWithError seat events ++ event.bytesWithError seat := by
  simp [deliveredWithError]

/-- The data that a goroutine has read and not written. -/
def ForwardPhase.held : ForwardPhase → Bytes
  | .received data | .writing data => data
  | _ => []

namespace Forwarding

/-- The bytes delivered so far are those written, those in the buffer, and those that came with the
error that ended the direction. -/
structure Conserves (seat : Seat) (events : List ForwardEvent) (s : Forwarding) : Prop where
  isOpen : s.isClosed = false
  bytes : delivered seat events = s.written seat ++ (s.phases seat).held ++ deliveredWithError seat events
  inTime : s.phases seat ≠ .ended → deliveredWithError seat events = []

/-- The outcomes of a step while the server is open, each with what it needs. -/
inductive Effect (s : Forwarding) : ForwardEvent → Forwarding → Prop
  | fail {seat : Seat} {data : Bytes} {failure : Err} : s.phases seat = .reading →
      Effect s (.read seat data (some failure)) (s.setPhase seat .ended)
  | receive {seat : Seat} {data : Bytes} : s.phases seat = .reading →
      Effect s (.read seat data none) (s.setPhase seat (.received data))
  | pass {seat : Seat} {data : Bytes} : s.phases seat = .received data →
      Effect s (.look seat) (s.setPhase seat (.writing data))
  | again {seat : Seat} :
      s.phases seat = .continuing → Effect s (.look seat) (s.setPhase seat .reading)
  | write {seat : Seat} {data : Bytes} {count : ℕ} {failure : Option Err} :
      s.phases seat = .writing data →
      (failure = none → count = data.length) →
      Effect s (.write seat count failure) { s.setPhase seat .wrote with
        written := Function.update s.written seat (s.written seat ++ data.take count), err := failure }
  | test {seat : Seat} {phase : ForwardPhase} :
      s.phases seat = .wrote → phase = .ended ∨ phase = .continuing →
      Effect s (.test seat) (s.setPhase seat phase)

variable {s t : Forwarding} {seat : Seat} {events : List ForwardEvent}

/-- Every step while the server is open has one of these outcomes, unless it closes the server. -/
theorem step_effect {event : ForwardEvent} (hopen : s.isClosed = false) (hevent : event ≠ .close)
    (h : s.step event = some t) : Effect s event t := by
  cases event with
  | read seat data failure =>
    simp only [step] at h
    split at h
    · next hphase =>
      simp only [Option.ite_none_right_eq_some, Option.some.injEq] at h
      obtain ⟨-, rfl⟩ := h
      cases failure with
      | none => exact .receive hphase
      | some err => exact .fail hphase
    · cases h
  | look seat =>
    simp only [step, hopen] at h
    split at h
    · next hphase =>
      obtain rfl := Option.some.inj h
      exact .pass hphase
    · next hphase =>
      obtain rfl := Option.some.inj h
      exact .again hphase
    · cases h
  | write seat count failure =>
    simp only [step] at h
    split at h
    · next hphase =>
      simp only [Option.ite_none_right_eq_some, Option.some.injEq] at h
      obtain ⟨⟨-, hall⟩, rfl⟩ := h
      exact .write hphase hall
    · cases h
  | test seat =>
    simp only [step] at h
    split at h
    · next hphase =>
      obtain rfl := Option.some.inj h
      refine .test hphase ?_
      split
      · exact .inl rfl
      · exact .inr rfl
    · cases h
  | close => exact absurd rfl hevent

/-- A step that delivers nothing in a direction and leaves what was written and what is in the
buffer conserves the bytes. -/
theorem Conserves.keep (h : s.Conserves seat events) {event : ForwardEvent}
    (hbytes : event.bytes seat = []) (hwith : event.bytesWithError seat = [])
    (hclosed : t.isClosed = s.isClosed) (hwritten : t.written seat = s.written seat)
    (hheld : (t.phases seat).held = (s.phases seat).held)
    (hended : t.phases seat ≠ .ended → s.phases seat ≠ .ended) :
    t.Conserves seat (events ++ [event]) where
  isOpen := hclosed.trans h.isOpen
  bytes := by
    rw [delivered_concat, deliveredWithError_concat, hbytes, hwith, List.append_nil,
      List.append_nil, hwritten, hheld]
    exact h.bytes
  inTime hphase := by
    rw [deliveredWithError_concat, hwith, List.append_nil]
    exact h.inTime (hended hphase)

/-- A step of the other direction leaves this one alone. -/
theorem Effect.frame {event : ForwardEvent} (h : Effect s event t)
    (hne : event.direction ≠ some seat) :
    t.phases seat = s.phases seat ∧ t.written seat = s.written seat ∧ event.bytes seat = [] ∧
      event.bytesWithError seat = [] := by
  have hseat {seat' : Seat} (heq : event.direction = some seat') : seat ≠ seat' := by
    rintro rfl
    exact hne heq
  cases h with
  | fail => exact ⟨Function.update_of_ne (hseat rfl) _ _, rfl, if_neg (hseat rfl).symm, if_neg (hseat rfl).symm⟩
  | receive => exact ⟨Function.update_of_ne (hseat rfl) _ _, rfl, if_neg (hseat rfl).symm, rfl⟩
  | pass | again | test => exact ⟨Function.update_of_ne (hseat rfl) _ _, rfl, rfl, rfl⟩
  | write => exact ⟨Function.update_of_ne (hseat rfl) _ _, Function.update_of_ne (hseat rfl) _ _, rfl, rfl⟩

/-- A step leaves the server open. -/
theorem Effect.isClosed {event : ForwardEvent} (h : Effect s event t) :
    t.isClosed = s.isClosed := by
  cases h <;> rfl

/-- A direction that goes on has delivered what is written and what is in the buffer. -/
theorem Conserves.pending (h : s.Conserves seat events) (hphase : s.phases seat ≠ .ended) :
    delivered seat events = s.written seat ++ (s.phases seat).held := by
  rw [h.bytes, h.inTime hphase, List.append_nil]

/-- The phase that a direction goes on to. -/
theorem setPhase_self (s : Forwarding) (seat : Seat) (phase : ForwardPhase) :
    (s.setPhase seat phase).phases seat = phase := Function.update_self _ _ _

/-- A step of a direction that goes on conserves the bytes if what it delivers is written or in the
buffer. -/
theorem Conserves.advance (h : s.Conserves seat events) {event : ForwardEvent}
    (hphase : s.phases seat ≠ .ended) (hopen : t.isClosed = false)
    (hwith : event.bytesWithError seat = [])
    (hbytes : s.written seat ++ (s.phases seat).held ++ event.bytes seat = t.written seat ++ (t.phases seat).held) :
    t.Conserves seat (events ++ [event]) := by
  have hnone : deliveredWithError seat (events ++ [event]) = [] := by
    rw [deliveredWithError_concat, h.inTime hphase, hwith, List.append_nil]
  refine ⟨hopen, ?_, fun _ => hnone⟩
  rw [delivered_concat, h.pending hphase, hbytes, hnone, List.append_nil]

/-- A reliable step conserves the bytes of a direction. -/
theorem Conserves.step (h : s.Conserves seat events) {event : ForwardEvent}
    (hreliable : event.isReliable seat = true) (hstep : s.step event = some t) :
    t.Conserves seat (events ++ [event]) := by
  have heffect := step_effect h.isOpen (by rintro rfl; cases hreliable) hstep
  by_cases hdirection : event.direction = some seat
  · have hopen := heffect.isClosed.trans h.isOpen
    cases heffect with
    | fail hphase =>
      obtain rfl := Option.some.inj hdirection
      refine ⟨hopen, ?_, fun hne => absurd (setPhase_self _ _ _) hne⟩
      have hbefore := h.inTime (by rw [hphase]; nofun)
      rw [delivered_concat, deliveredWithError_concat, h.pending (by rw [hphase]; nofun), hphase,
        hbefore, setPhase_self]
      simp only [ForwardEvent.bytes, ForwardEvent.bytesWithError, if_true, ForwardPhase.held,
        List.append_nil, List.nil_append]
      rfl
    | receive hphase =>
      obtain rfl := Option.some.inj hdirection
      refine h.advance (by rw [hphase]; nofun) hopen rfl ?_
      rw [setPhase_self, hphase]
      simp only [ForwardEvent.bytes, if_true, ForwardPhase.held, List.append_nil]
      rfl
    | pass hphase | again hphase =>
      obtain rfl := Option.some.inj hdirection
      refine h.advance (by rw [hphase]; nofun) hopen rfl ?_
      rw [setPhase_self, hphase]
      exact List.append_nil _
    | write hphase hall =>
      obtain rfl := Option.some.inj hdirection
      have hcount := hall (by simpa [ForwardEvent.isReliable] using hreliable)
      refine h.advance (by rw [hphase]; nofun) hopen rfl ?_
      rw [hphase]
      simp [ForwardEvent.bytes, ForwardPhase.held, setPhase, hcount]
    | test hphase hnext =>
      obtain rfl := Option.some.inj hdirection
      refine h.advance (by rw [hphase]; nofun) hopen rfl ?_
      rw [setPhase_self, hphase]
      obtain rfl | rfl := hnext
      · exact List.append_nil _
      · exact List.append_nil _
  · obtain ⟨hphases, hwritten, hbytes, hwith⟩ := heffect.frame hdirection
    exact h.keep hbytes hwith heffect.isClosed hwritten (congrArg ForwardPhase.held hphases)
      (fun hended => by rwa [← hphases])

end Forwarding

/-- Every run in which the writes of a direction succeed and the server is not closed. -/
theorem Forwarding.conserves {seat : Seat} {events : List ForwardEvent} {s : Forwarding}
    (hrun : execute Forwarding.step (fun _ event => event.isReliable seat = true) events .new = some s) :
    s.Conserves seat events :=
  execute_invariant (Forwarding.Conserves seat) ⟨rfl, rfl, fun _ => rfl⟩
    (fun _ _ _ _ _ hs hreliable hstep => hs.step hreliable hstep) hrun

/-- A direction whose writes succeed while the server is open. When it ends, the bytes that the
source delivered are those written to the destination and behind them those that came together with
the error; so all were forwarded exactly if the error came without bytes. -/
theorem relay_forwards (seat : Seat) (events : List ForwardEvent) (s : Forwarding)
    (hrun : execute Forwarding.step (fun _ event => event.isReliable seat = true) events .new = some s)
    (hended : s.phases seat = .ended) :
    delivered seat events = s.written seat ++ deliveredWithError seat events ∧
      (s.written seat = delivered seat events ↔ deliveredWithError seat events = []) := by
  have hbytes := (Forwarding.conserves hrun).bytes
  rw [hended, show ForwardPhase.ended.held = [] from rfl, List.append_nil] at hbytes
  exact ⟨hbytes, by rw [hbytes, List.self_eq_append_right]⟩

/-- A direction reads two bytes, writes them and reads. -/
def forwardsOnce : List ForwardEvent :=
  [.read .first [1, 2] none, .look .first, .write .first 2 none, .test .first, .look .first]

/-- The stream of the source ends behind two bytes, which were forwarded. -/
theorem relay_forwards_two_bytes :
    ∃ s, execute Forwarding.step (fun _ event => event.isReliable .first = true)
        (forwardsOnce ++ [.read .first [] (some .eof)]) .new = some s ∧ s.phases .first = .ended ∧
      s.written .first = delivered .first (forwardsOnce ++ [.read .first [] (some .eof)]) := by
  obtain ⟨s, hrun, hended⟩ : ∃ s, execute Forwarding.step (fun _ event => event.isReliable .first = true)
      (forwardsOnce ++ [.read .first [] (some .eof)]) .new = some s ∧ s.phases .first = .ended := ⟨_, rfl, rfl⟩
  exact ⟨s, hrun, hended, (relay_forwards _ _ s hrun hended).2.mpr rfl⟩

/-- The last read of a source returns a byte together with the end of its stream: the byte is
lost. -/
theorem last_byte_lost :
    ∃ s, execute Forwarding.step (fun _ event => event.isReliable .first = true)
        (forwardsOnce ++ [.read .first [3] (some .eof)]) .new = some s ∧ s.phases .first = .ended ∧
      s.isClosed = false ∧ s.written .first = [1, 2] ∧
      delivered .first (forwardsOnce ++ [.read .first [3] (some .eof)]) = [1, 2, 3] :=
  ⟨_, rfl, rfl, rfl, rfl, rfl⟩

end ProjektCore.Relay
