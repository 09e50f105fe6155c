import Mathlib.Logic.Function.Basic
import ProjektCore.Foundation.Hex
import ProjektCore.Packet
import ProjektCore.Relay.Client.Requests

/-!
# The waiting calls of a relay client

The session handler keeps a table of the calls that wait for a session to be accepted and one of the
calls that wait for the result of an acceptance. A call registers with the handler; the handler
passes a message on to the call that is registered for its peer, drops it if there is none, and
removes the entry once the call has received it. A call that leaves because the protocol is closed
or because its own message could not be written keeps its entry.
-/

namespace ProjektCore.Relay

open Foundation Packet

/-- The message that a target has accepted a session. -/
structure SessionAccepted where
  targetIdentity : Bytes
  additionalData : Bytes
deriving Repr, DecidableEq

/-- The result of accepting a session. -/
inductive SessionResult where
  | established (initiatorIdentity : Bytes)
  | failed (reason : SessionError) (peerIdentity : Bytes)
deriving Repr, DecidableEq

/-- The peer that a result is about. -/
def SessionResult.peerIdentity : SessionResult → Bytes
  | .established initiatorIdentity => initiatorIdentity
  | .failed _ peerIdentity => peerIdentity

/-- The error that a result stands for. -/
def SessionResult.err : SessionResult → Option Err
  | .established _ => none
  | .failed reason _ => some (reasonToError reason)

/-- How far a call to `ReadAccept` is: it registers, and then waits for its message. -/
inductive ReadAcceptPhase where
  | calling
  | waiting
  | returned (result : Except Err Bytes)
deriving Repr, DecidableEq

/-- A call to `ReadAccept`. -/
structure ReadAcceptCall where
  targetIdentity : Bytes
  phase : ReadAcceptPhase
deriving Repr, DecidableEq

/-- How far a call to `Accept` is: it registers, writes its message and waits for the result. -/
inductive AcceptPhase where
  | calling
  | writing
  | waiting
  | returned (err : Option Err)
deriving Repr, DecidableEq

/-- A call to `Accept`. -/
structure AcceptCall where
  initiatorIdentity : Bytes
  additionalData : Bytes
  phase : AcceptPhase
deriving Repr, DecidableEq

/-- Whether the session handler is ready to receive or passes a message on to a call. -/
inductive SessionHandler where
  | ready
  | accept (k : ℕ) (accept : SessionAccepted)
  | result (k : ℕ) (result : SessionResult)
  | panicked
deriving Repr, DecidableEq

/-- The goroutines around the session handler. -/
structure Waits where
  handler : SessionHandler
  accepts : List Char → Option ℕ
  results : List Char → Option ℕ
  readAccepts : ℕ → Option ReadAcceptCall
  acceptCalls : ℕ → Option AcceptCall

/-- What the goroutines do. -/
inductive WaitEvent where
  | readAccept (k : ℕ) (targetIdentity : Bytes)
  | accept (k : ℕ) (initiatorIdentity additionalData : Bytes)
  /-- The handler receives from one of its channels. -/
  | takeWaitAccept (k : ℕ)
  | takeWaitResult (k : ℕ)
  | takeAccept (accept : SessionAccepted)
  | takeResult (result : SessionResult)
  /-- A call receives the message that the handler passes on. -/
  | pass
  /-- A call to `Accept` writes its message; the connection may fail. -/
  | write (k : ℕ) (failure : Option Err)
  /-- A call finds the protocol to be closed. -/
  | leaveReadAccept (k : ℕ)
  | leaveAccept (k : ℕ)
deriving Repr, DecidableEq

namespace Waits

/-- No call has been made. -/
def new : Waits := ⟨.ready, fun _ => none, fun _ => none, fun _ => none, fun _ => none⟩

/-- Replace a call to `ReadAccept`. -/
def setReadAccept (s : Waits) (k : ℕ) (targetIdentity : Bytes) (phase : ReadAcceptPhase) : Waits :=
  { s with readAccepts := Function.update s.readAccepts k (some ⟨targetIdentity, phase⟩) }

/-- Replace a call to `Accept`. -/
def setAccept (s : Waits) (k : ℕ) (call : AcceptCall) (phase : AcceptPhase) : Waits :=
  { s with acceptCalls := Function.update s.acceptCalls k (some { call with phase := phase }) }

/-- The handler registers a call to `ReadAccept`. -/
def waitAccept (s : Waits) (k : ℕ) (targetIdentity : Bytes) : Waits :=
  match s.accepts (hexEncode targetIdentity) with
  | some _ => { s with handler := .panicked }
  | none =>
    { s.setReadAccept k targetIdentity .waiting with
      accepts := Function.update s.accepts (hexEncode targetIdentity) (some k) }

/-- The handler registers a call to `Accept`. -/
def waitResult (s : Waits) (k : ℕ) (call : AcceptCall) : Waits :=
  match s.results (hexEncode call.initiatorIdentity) with
  | some _ => { s with handler := .panicked }
  | none =>
    { s.setAccept k call .writing with
      results := Function.update s.results (hexEncode call.initiatorIdentity) (some k) }

/-- The handler looks for the call that a message is for. -/
def newAccept (s : Waits) (accept : SessionAccepted) : Waits :=
  match s.accepts (hexEncode accept.targetIdentity) with
  | none => s
  | some k => { s with handler := .accept k accept }

/-- The handler looks for the call that a result is for. -/
def newResult (s : Waits) (result : SessionResult) : Waits :=
  match s.results (hexEncode result.peerIdentity) with
  | none => s
  | some k => { s with handler := .result k result }

/-- A call receives the message that it has waited for. -/
def passAccept (s : Waits) (k : ℕ) (targetIdentity : Bytes) (accept : SessionAccepted) : Waits :=
  { s.setReadAccept k targetIdentity (.returned (.ok accept.additionalData)) with
    handler := .ready
    accepts := Function.update s.accepts (hexEncode accept.targetIdentity) none }

/-- A call receives the result that it has waited for. -/
def passResult (s : Waits) (k : ℕ) (call : AcceptCall) (result : SessionResult) : Waits :=
  { s.setAccept k call (.returned result.err) with
    handler := .ready
    results := Function.update s.results (hexEncode result.peerIdentity) none }

/-- The error of writing the message of a call. -/
def writeError (call : AcceptCall) (failure : Option Err) : Option Err :=
  match lengthOf (wrapMessage (.acceptSession call.initiatorIdentity call.additionalData)) with
  | .error err => some err
  | .ok _ => failure

/-- One step of the goroutines. -/
def step (isDone : Bool) (s : Waits) : WaitEvent → Option Waits
  | .readAccept k targetIdentity =>
    if s.readAccepts k = none then some (s.setReadAccept k targetIdentity .calling) else none
  | .accept k initiatorIdentity additionalData =>
    if s.acceptCalls k = none then
      some (s.setAccept k ⟨initiatorIdentity, additionalData, .calling⟩ .calling)
    else none
  | .takeWaitAccept k => do
    let call ← s.readAccepts k
    if s.handler = .ready ∧ call.phase = .calling then some (s.waitAccept k call.targetIdentity) else none
  | .takeWaitResult k => do
    let call ← s.acceptCalls k
    if s.handler = .ready ∧ call.phase = .calling then some (s.waitResult k call) else none
  | .takeAccept accept => if s.handler = .ready then some (s.newAccept accept) else none
  | .takeResult result => if s.handler = .ready then some (s.newResult result) else none
  | .pass =>
    match s.handler with
    | .accept k accept => do
      let call ← s.readAccepts k
      if call.phase = .waiting then some (s.passAccept k call.targetIdentity accept) else none
    | .result k result => do
      let call ← s.acceptCalls k
      if call.phase = .waiting then some (s.passResult k call result) else none
    | .ready | .panicked => none
  | .write k failure => do
    let call ← s.acceptCalls k
    if call.phase = .writing then
      match writeError call failure with
      | some err => some (s.setAccept k call (.returned (some err)))
      | none => some (s.setAccept k call .waiting)
    else none
  | .leaveReadAccept k => do
    let call ← s.readAccepts k
    if isDone ∧ call.phase = .waiting then
      some (s.setReadAccept k call.targetIdentity (.returned (.error .closed)))
    else none
  | .leaveAccept k => do
    let call ← s.acceptCalls k
    if isDone ∧ call.phase = .waiting then some (s.setAccept k call (.returned (some .closed))) else none

/-- The messages that a step writes to the connection. -/
def sends (s : Waits) : WaitEvent → List Message
  | .write k none =>
    match s.acceptCalls k with
    | none => []
    | some call =>
      match writeError call none with
      | some _ => []
      | none => [.acceptSession call.initiatorIdentity call.additionalData]
  | _ => []

end Waits

/-- The effects of the steps of the goroutines. -/
inductive WaitEffect (isDone : Bool) (s : Waits) : WaitEvent → Waits → Prop
  | readAccept {k : ℕ} {target : Bytes} : s.readAccepts k = none →
      WaitEffect isDone s (.readAccept k target) (s.setReadAccept k target .calling)
  | accept {k : ℕ} {initiator data : Bytes} : s.acceptCalls k = none →
      WaitEffect isDone s (.accept k initiator data) (s.setAccept k ⟨initiator, data, .calling⟩ .calling)
  | waitAccept {k : ℕ} {call : ReadAcceptCall} : s.readAccepts k = some call → s.handler = .ready →
      call.phase = .calling → s.accepts (hexEncode call.targetIdentity) = none →
      WaitEffect isDone s (.takeWaitAccept k)
        { s.setReadAccept k call.targetIdentity .waiting with
          accepts := Function.update s.accepts (hexEncode call.targetIdentity) (some k) }
  | acceptPanics {k other : ℕ} {call : ReadAcceptCall} :
      s.readAccepts k = some call → s.handler = .ready →
      call.phase = .calling → s.accepts (hexEncode call.targetIdentity) = some other →
      WaitEffect isDone s (.takeWaitAccept k) { s with handler := .panicked }
  | waitResult {k : ℕ} {call : AcceptCall} : s.acceptCalls k = some call → s.handler = .ready →
      call.phase = .calling → s.results (hexEncode call.initiatorIdentity) = none →
      WaitEffect isDone s (.takeWaitResult k)
        { s.setAccept k call .writing with
          results := Function.update s.results (hexEncode call.initiatorIdentity) (some k) }
  | resultPanics {k other : ℕ} {call : AcceptCall} :
      s.acceptCalls k = some call → s.handler = .ready →
      call.phase = .calling → s.results (hexEncode call.initiatorIdentity) = some other →
      WaitEffect isDone s (.takeWaitResult k) { s with handler := .panicked }
  | newAccept {k : ℕ} {accept : SessionAccepted} : s.handler = .ready →
      s.accepts (hexEncode accept.targetIdentity) = some k →
      WaitEffect isDone s (.takeAccept accept) { s with handler := .accept k accept }
  | dropAccept {accept : SessionAccepted} : s.handler = .ready →
      s.accepts (hexEncode accept.targetIdentity) = none → WaitEffect isDone s (.takeAccept accept) s
  | newResult {k : ℕ} {result : SessionResult} : s.handler = .ready →
      s.results (hexEncode result.peerIdentity) = some k →
      WaitEffect isDone s (.takeResult result) { s with handler := .result k result }
  | dropResult {result : SessionResult} : s.handler = .ready →
      s.results (hexEncode result.peerIdentity) = none → WaitEffect isDone s (.takeResult result) s
  | passAccept {k : ℕ} {accept : SessionAccepted} {call : ReadAcceptCall} :
      s.handler = .accept k accept →
      s.readAccepts k = some call → call.phase = .waiting →
      WaitEffect isDone s .pass (s.passAccept k call.targetIdentity accept)
  | passResult {k : ℕ} {result : SessionResult} {call : AcceptCall} : s.handler = .result k result →
      s.acceptCalls k = some call → call.phase = .waiting → WaitEffect isDone s .pass (s.passResult k call result)
  | write {k : ℕ} {failure : Option Err} {call : AcceptCall} : s.acceptCalls k = some call →
      call.phase = .writing → Waits.writeError call failure = none →
      WaitEffect isDone s (.write k failure) (s.setAccept k call .waiting)
  | writeFails {k : ℕ} {failure : Option Err} {call : AcceptCall} {err : Err} :
      s.acceptCalls k = some call →
      call.phase = .writing → Waits.writeError call failure = some err →
      WaitEffect isDone s (.write k failure) (s.setAccept k call (.returned (some err)))
  | leaveReadAccept {k : ℕ} {call : ReadAcceptCall} : s.readAccepts k = some call → isDone = true →
      call.phase = .waiting →
      WaitEffect isDone s (.leaveReadAccept k) (s.setReadAccept k call.targetIdentity (.returned (.error .closed)))
  | leaveAccept {k : ℕ} {call : AcceptCall} :
      s.acceptCalls k = some call → isDone = true → call.phase = .waiting →
      WaitEffect isDone s (.leaveAccept k) (s.setAccept k call (.returned (some .closed)))

namespace Waits

/-- Every step has one of the effects. -/
theorem step_effect {isDone : Bool} {s t : Waits} {event : WaitEvent}
    (h : s.step isDone event = some t) :
    WaitEffect isDone s event t := by
  cases event with
  | readAccept k target =>
    simp only [step, Option.ite_none_right_eq_some, Option.some.injEq] at h
    obtain ⟨hnew, rfl⟩ := h
    exact .readAccept hnew
  | accept k initiator data =>
    simp only [step, Option.ite_none_right_eq_some, Option.some.injEq] at h
    obtain ⟨hnew, rfl⟩ := h
    exact .accept hnew
  | takeWaitAccept k =>
    simp only [step, Option.bind_eq_bind, Option.bind_eq_some_iff, Option.ite_none_right_eq_some,
      Option.some.injEq] at h
    obtain ⟨call, hc, ⟨hready, hphase⟩, rfl⟩ := h
    cases hentry : s.accepts (hexEncode call.targetIdentity) with
    | none => simpa only [waitAccept, hentry] using WaitEffect.waitAccept hc hready hphase hentry
    | some other => simpa only [waitAccept,
                      hentry] using WaitEffect.acceptPanics hc hready hphase hentry
  | takeWaitResult k =>
    simp only [step, Option.bind_eq_bind, Option.bind_eq_some_iff, Option.ite_none_right_eq_some,
      Option.some.injEq] at h
    obtain ⟨call, hc, ⟨hready, hphase⟩, rfl⟩ := h
    cases hentry : s.results (hexEncode call.initiatorIdentity) with
    | none => simpa only [waitResult, hentry] using WaitEffect.waitResult hc hready hphase hentry
    | some other => simpa only [waitResult,
                      hentry] using WaitEffect.resultPanics hc hready hphase hentry
  | takeAccept accept =>
    simp only [step, Option.ite_none_right_eq_some, Option.some.injEq] at h
    obtain ⟨hready, rfl⟩ := h
    cases hentry : s.accepts (hexEncode accept.targetIdentity) with
    | none => simpa only [newAccept, hentry] using WaitEffect.dropAccept hready hentry
    | some k => simpa only [newAccept, hentry] using WaitEffect.newAccept hready hentry
  | takeResult result =>
    simp only [step, Option.ite_none_right_eq_some, Option.some.injEq] at h
    obtain ⟨hready, rfl⟩ := h
    cases hentry : s.results (hexEncode result.peerIdentity) with
    | none => simpa only [newResult, hentry] using WaitEffect.dropResult hready hentry
    | some k => simpa only [newResult, hentry] using WaitEffect.newResult hready hentry
  | pass =>
    simp only [step] at h
    split at h
    · next k accept hhandler =>
      simp only [Option.bind_eq_bind, Option.bind_eq_some_iff, Option.ite_none_right_eq_some,
        Option.some.injEq] at h
      obtain ⟨call, hc, hphase, rfl⟩ := h
      exact .passAccept hhandler hc hphase
    · next k result hhandler =>
      simp only [Option.bind_eq_bind, Option.bind_eq_some_iff, Option.ite_none_right_eq_some,
        Option.some.injEq] at h
      obtain ⟨call, hc, hphase, rfl⟩ := h
      exact .passResult hhandler hc hphase
    · cases h
    · cases h
  | write k failure =>
    simp only [step, Option.bind_eq_bind, Option.bind_eq_some_iff,
      Option.ite_none_right_eq_some] at h
    obtain ⟨call, hc, hphase, h⟩ := h
    split at h
    · next err herr =>
      obtain rfl := Option.some.inj h
      exact .writeFails hc hphase herr
    · next hnone =>
      obtain rfl := Option.some.inj h
      exact .write hc hphase hnone
  | leaveReadAccept k =>
    simp only [step, Option.bind_eq_bind, Option.bind_eq_some_iff, Option.ite_none_right_eq_some,
      Option.some.injEq] at h
    obtain ⟨call, hc, ⟨hdone, hphase⟩, rfl⟩ := h
    exact .leaveReadAccept hc hdone hphase
  | leaveAccept k =>
    simp only [step, Option.bind_eq_bind, Option.bind_eq_some_iff, Option.ite_none_right_eq_some,
      Option.some.injEq] at h
    obtain ⟨call, hc, ⟨hdone, hphase⟩, rfl⟩ := h
    exact .leaveAccept hc hdone hphase

/-- Every call that waits for a session to be accepted has the entry of its target. -/
structure Registered (s : Waits) : Prop where
  waiting : ∀ k call, s.readAccepts k = some call → call.phase = .waiting →
    s.accepts (hexEncode call.targetIdentity) = some k
  passing : ∀ k accept, s.handler = .accept k accept → s.accepts (hexEncode accept.targetIdentity) = some k
  entry : ∀ id k, s.accepts id = some k →
    ∃ call, s.readAccepts k = some call ∧ hexEncode call.targetIdentity = id

namespace Registered

variable {s : Waits}

/-- Without calls every waiting call is registered. -/
theorem new : Registered .new := by
  constructor <;> simp [Waits.new]

section SetReadAccept

variable {k : ℕ} {target : Bytes} {phase : ReadAcceptPhase}

/-- The call that is replaced. -/
theorem readAccepts_setReadAccept_self :
    (s.setReadAccept k target phase).readAccepts k = some ⟨target, phase⟩ :=
  Function.update_self ..

/-- The other calls stay. -/
theorem readAccepts_setReadAccept_of_ne {j : ℕ} (hne : j ≠ k) :
    (s.setReadAccept k target phase).readAccepts j = s.readAccepts j :=
  Function.update_of_ne hne ..

/-- The entries stay those of calls for their targets if the call that is replaced keeps its
target. -/
theorem entry_setReadAccept (h : s.Registered)
    (hsame : ∀ call, s.readAccepts k = some call → call.targetIdentity = target) {id : List Char}
    {j : ℕ} (hj : s.accepts id = some j) :
    ∃ call, (s.setReadAccept k target phase).readAccepts j = some call ∧ hexEncode call.targetIdentity = id := by
  obtain ⟨call, hc, hid⟩ := h.entry id j hj
  by_cases hjk : j = k
  · subst hjk
    exact ⟨⟨target, phase⟩, readAccepts_setReadAccept_self, hsame call hc ▸ hid⟩
  · exact ⟨call, (readAccepts_setReadAccept_of_ne hjk).trans hc, hid⟩

/-- A call that waits after another one was replaced waited before. -/
theorem waiting_setReadAccept (h : s.Registered) {j : ℕ} {call : ReadAcceptCall}
    (hj : (s.setReadAccept k target phase).readAccepts j = some call)
    (hwaiting : call.phase = .waiting) (hphase : phase ≠ .waiting) :
    j ≠ k ∧ s.accepts (hexEncode call.targetIdentity) = some j := by
  by_cases hjk : j = k
  · subst hjk
    obtain rfl := Option.some.inj (readAccepts_setReadAccept_self.symm.trans hj)
    exact absurd hwaiting hphase
  · exact ⟨hjk, h.waiting j call ((readAccepts_setReadAccept_of_ne hjk).symm.trans hj) hwaiting⟩

/-- A call that does not wait matters only if it has an entry. -/
theorem setReadAccept (h : s.Registered) (hphase : phase ≠ .waiting)
    (hsame : ∀ call, s.readAccepts k = some call → call.targetIdentity = target) :
    (s.setReadAccept k target phase).Registered where
  waiting _ _ hj hwaiting := (h.waiting_setReadAccept hj hwaiting hphase).2
  passing := h.passing
  entry _ _ hj := h.entry_setReadAccept hsame hj

end SetReadAccept

/-- The call of an index has one target. -/
theorem targetIdentity_eq {k : ℕ} {call : ReadAcceptCall} (hc : s.readAccepts k = some call)
    (other : ReadAcceptCall) (hother : s.readAccepts k = some other) :
    other.targetIdentity = call.targetIdentity := by
  obtain rfl := Option.some.inj (hc.symm.trans hother)
  rfl

/-- Registering a call gives it the entry of its target. -/
theorem waitAccept (h : s.Registered) {k : ℕ} {call : ReadAcceptCall}
    (hc : s.readAccepts k = some call) (hready : s.handler = .ready)
    (hnone : s.accepts (hexEncode call.targetIdentity) = none) :
    Registered { s.setReadAccept k call.targetIdentity .waiting with
      accepts := Function.update s.accepts (hexEncode call.targetIdentity) (some k) } where
  waiting j other hj hwaiting := by
    by_cases hjk : j = k
    · subst hjk
      obtain rfl := Option.some.inj (readAccepts_setReadAccept_self.symm.trans hj)
      exact Function.update_self ..
    · have hentry := h.waiting j other ((readAccepts_setReadAccept_of_ne hjk).symm.trans hj) hwaiting
      have hne : hexEncode other.targetIdentity ≠ hexEncode call.targetIdentity := by
        intro hid
        rw [hid, hnone] at hentry
        cases hentry
      exact (Function.update_of_ne hne ..).trans hentry
  passing j accept hj := by cases hready.symm.trans hj
  entry id j hj := by
    simp only [Function.update_apply] at hj
    split at hj
    · next hid =>
      obtain rfl := Option.some.inj hj
      exact ⟨_, readAccepts_setReadAccept_self, hid.symm⟩
    · exact h.entry_setReadAccept (targetIdentity_eq hc) hj

/-- Looking for the call that a message is for. -/
theorem newAccept (h : s.Registered) {k : ℕ} {accept : SessionAccepted}
    (hk : s.accepts (hexEncode accept.targetIdentity) = some k) :
    Registered { s with handler := .accept k accept } where
  waiting := h.waiting
  passing j found hj := by
    obtain ⟨rfl, rfl⟩ := SessionHandler.accept.inj hj
    exact hk
  entry := h.entry

/-- Passing a message on removes the entry of its call. -/
theorem passAccept (h : s.Registered) {k : ℕ} {accept : SessionAccepted} {call : ReadAcceptCall}
    (hhandler : s.handler = .accept k accept) (hc : s.readAccepts k = some call) :
    (s.passAccept k call.targetIdentity accept).Registered where
  waiting j other hj hwaiting := by
    have hcalls : (s.setReadAccept k call.targetIdentity (.returned (.ok accept.additionalData))).readAccepts j =
        some other := hj
    obtain ⟨hjk, hentry⟩ := h.waiting_setReadAccept hcalls hwaiting nofun
    have hne : hexEncode other.targetIdentity ≠ hexEncode accept.targetIdentity := by
      intro hid
      rw [hid, h.passing k accept hhandler] at hentry
      exact hjk (Option.some.inj hentry).symm
    exact (Function.update_of_ne hne ..).trans hentry
  passing := nofun
  entry id j hj := by
    simp only [Waits.passAccept, Function.update_apply, Option.ite_none_left_eq_some] at hj
    exact h.entry_setReadAccept (targetIdentity_eq hc) hj.2

/-- What concerns only the results of acceptances does not matter. -/
theorem withResults (h : s.Registered) {t : Waits} (haccepts : t.accepts = s.accepts)
    (hcalls : t.readAccepts = s.readAccepts) (hhandler : ∀ k accept, t.handler ≠ .accept k accept) :
    t.Registered := by
  refine ⟨?_, fun k accept hpassing => absurd hpassing (hhandler k accept), ?_⟩
  · rw [haccepts, hcalls]
    exact h.waiting
  · rw [haccepts, hcalls]
    exact h.entry

/-- A message is passed on to a call for its target. -/
theorem passing_target (h : s.Registered) {k : ℕ} {accept : SessionAccepted}
    (hhandler : s.handler = .accept k accept) :
    ∃ phase, s.readAccepts k = some ⟨accept.targetIdentity, phase⟩ := by
  obtain ⟨⟨target, phase⟩, hc, hid⟩ := h.entry _ k (h.passing k accept hhandler)
  exact ⟨phase, hexEncode_injective hid ▸ hc⟩

/-- Every step keeps the waiting calls registered. -/
theorem step (h : s.Registered) {isDone : Bool} {event : WaitEvent} {t : Waits}
    (hstep : s.step isDone event = some t) : t.Registered := by
  cases step_effect hstep with
  | readAccept hc | leaveReadAccept hc => exact h.setReadAccept (by simp) (by simp [hc])
  | waitAccept hc hready _ hnone => exact h.waitAccept hc hready hnone
  | newAccept _ hk => exact h.newAccept hk
  | passAccept hhandler hc => exact h.passAccept hhandler hc
  | waitResult _ hready => exact h.withResults rfl rfl (by simp [Waits.setAccept, hready])
  | acceptPanics | resultPanics | newResult | passResult => exact h.withResults rfl rfl (by simp [Waits.passResult])
  | dropAccept | dropResult => exact h
  | accept | write | writeFails | leaveAccept => exact ⟨h.waiting, h.passing, h.entry⟩

end Registered

/-- A message reaches a call exactly if a call for its target waits when the handler takes it. -/
theorem takeAccept_passed_iff {s t : Waits} (h : s.Registered) {isDone : Bool}
    {accept : SessionAccepted} (hstep : s.step isDone (.takeAccept accept) = some t) :
    (∃ k u, t.step isDone .pass = some u ∧ t.readAccepts k = some ⟨accept.targetIdentity, .waiting⟩ ∧
        u.readAccepts k = some ⟨accept.targetIdentity, .returned (.ok accept.additionalData)⟩) ↔
      ∃ k, s.readAccepts k = some ⟨accept.targetIdentity, .waiting⟩ := by
  simp only [step, Option.ite_none_right_eq_some, Option.some.injEq] at hstep
  obtain ⟨hready, rfl⟩ := hstep
  have hcalls : (s.newAccept accept).readAccepts = s.readAccepts := by
    unfold newAccept
    split <;> rfl
  constructor
  · rintro ⟨k, _, _, hc, _⟩
    exact ⟨k, hcalls ▸ hc⟩
  · rintro ⟨k, hc⟩
    have hentry : s.accepts (hexEncode accept.targetIdentity) = some k := h.waiting k _ hc rfl
    have hpassing : (s.newAccept accept).handler = .accept k accept := by
      rw [newAccept, hentry]
    have hc' : (s.newAccept accept).readAccepts k = some ⟨accept.targetIdentity, .waiting⟩ := hcalls ▸ hc
    refine ⟨k, (s.newAccept accept).passAccept k accept.targetIdentity accept, ?_, hc', Function.update_self ..⟩
    simp only [step, hpassing, hc', Option.bind_eq_bind, Option.bind_some, if_true]

end Waits

end ProjektCore.Relay
