import Mathlib.Logic.Function.Basic
import ProjektCore.Foundation.Hex
import ProjektCore.Foundation.Runs
import ProjektCore.Packet
import ProjektCore.Relay.Message

/-!
# The request table of a relay client

Any number of goroutines call `Request`. A call hands its request to the request handler, waits for
an output or for the end of its context, and then tells the handler to delete its request. The
handler is the only one to touch the table; between receiving a value and handling it the other
goroutines go on. An output channel belongs to one call, so it is named by the number of the call.

A request for a target that is in the table is rejected, but the rejected call deletes the entry of
the target as any other call does.
-/

namespace ProjektCore.Relay

open Foundation Packet

/-- The error that a reason of the server stands for. -/
def reasonToError : SessionError → Err
  | .targetUnavailable => .targetUnavailable
  | .sessionExists => .sessionExists
  | .unknownSession => .unknownSession
  | .sessionAlreadyAccepted => .sessionAlreadyAccepted
  | .initiatorUnavailable => .initiatorUnavailable
  | .none => .new "received an invalid error response from server"

/-- What a request returns: how to connect to the session, and its peer. -/
structure SessionInfo where
  description : SessionDescription
  peerIdentity : Bytes
deriving Repr, DecidableEq

/-- What is sent on an output channel. -/
abbrev RequestOutput := Except Err SessionDescription

/-- How far a call is. -/
inductive RequestPhase where
  /-- It sends its request to the handler. -/
  | calling
  /-- The handler has received the request, and the call goes on to its select. -/
  | sent
  /-- It waits for an output or for the end of its context. -/
  | waiting
  /-- It sends its deletion to the handler. -/
  | deleting (result : Except Err SessionInfo)
  | returned (result : Except Err SessionInfo)
deriving Repr, DecidableEq

/-- A call, whether the handler has registered it, and whether a goroutine writes its message. -/
structure RequestCall where
  targetIdentity : Bytes
  additionalData : Bytes
  phase : RequestPhase
  registered : Bool
  writing : Bool
deriving Repr, DecidableEq

/-- What the request handler has received but not handled. -/
inductive RequestHandler where
  | ready
  | request (call : ℕ)
  | response (targetIdentity : Bytes) (output : RequestOutput)
  | delete (call : ℕ)
  | panicked
  | stopped
deriving Repr, DecidableEq

/-- The goroutines around the request table. -/
structure Requests where
  handler : RequestHandler
  requests : List Char → Option ℕ
  calls : ℕ → Option RequestCall
  isDone : Bool

/-- What the goroutines do. -/
inductive RequestEvent where
  | call (k : ℕ) (targetIdentity additionalData : Bytes)
  /-- The handler receives from one of its channels. -/
  | takeRequest (k : ℕ)
  | takeResponse (targetIdentity : Bytes) (output : RequestOutput)
  | takeDelete (k : ℕ)
  | takeDone
  /-- The handler handles what it has received. -/
  | handle
  /-- A call reaches its select. -/
  | arrive (k : ℕ)
  /-- A call finds its context to be done. -/
  | cancel (k : ℕ)
  /-- The goroutine that writes the message of a call runs; the connection may fail. -/
  | write (k : ℕ) (failure : Option Err)
  | close
deriving Repr, DecidableEq

namespace Requests

/-- No call has been made. -/
def new : Requests := ⟨.ready, fun _ => none, fun _ => none, false⟩

/-- Replace a call. -/
def setCall (s : Requests) (k : ℕ) (call : RequestCall) : Requests :=
  { s with calls := Function.update s.calls k (some call) }

/-- Offer an output to a call: it is dropped if the call does not wait for it. -/
def offerRequestOutput (s : Requests) (k : ℕ) (output : RequestOutput) : Requests :=
  match s.calls k with
  | none => s
  | some call =>
    if call.phase = .waiting then
      s.setCall k { call with phase := .deleting (output.map fun session => ⟨session, call.targetIdentity⟩) }
    else s

/-- Close the protocol if the connection is closed. -/
def handleConnErr (s : Requests) (err : Err) : Requests :=
  if Err.is .closed err then { s with isDone := true } else s

/-- The handler handles a request. -/
def handleRequest (s : Requests) (k : ℕ) (call : RequestCall) : Requests :=
  match s.requests (hexEncode call.targetIdentity) with
  | some _ => s.offerRequestOutput k (.error .alreadyRequested)
  | none =>
    { s.setCall k { call with registered := true, writing := true } with
      requests := Function.update s.requests (hexEncode call.targetIdentity) (some k) }

/-- The handler handles a response of the server. -/
def handleResponse (s : Requests) (targetIdentity : Bytes) (output : RequestOutput) : Requests :=
  match s.requests (hexEncode targetIdentity) with
  | some k => s.offerRequestOutput k output
  | none => s

/-- The handler handles a deletion. -/
def handleDelete (s : Requests) (k : ℕ) (call : RequestCall) : Requests :=
  match s.requests (hexEncode call.targetIdentity) with
  | none => { s with handler := .panicked }
  | some _ =>
    { s.setCall k { call with registered := false } with
      requests := Function.update s.requests (hexEncode call.targetIdentity) none }

/-- Write the message of a call; a message that is too large or a failing connection is an error. -/
def writeRequest (s : Requests) (k : ℕ) (call : RequestCall) (failure : Option Err) : Requests :=
  let s := s.setCall k { call with writing := false }
  let offered (err : Err) := s.offerRequestOutput k (.error (.wrap "failed to write request message: " err))
  match lengthOf (wrapMessage (.requestSession call.targetIdentity call.additionalData)), failure with
  | .error err, _ => (offered err).handleConnErr err
  | .ok _, some err => (offered err).handleConnErr err
  | .ok _, none => s

/-- One step of the goroutines. -/
def step (s : Requests) : RequestEvent → Option Requests
  | .call k targetIdentity additionalData =>
    match s.calls k with
    | some _ => none
    | none => some (s.setCall k ⟨targetIdentity, additionalData, .calling, false, false⟩)
  | .takeRequest k => do
    let call ← s.calls k
    if s.handler = .ready ∧ call.phase = .calling then
      some { s.setCall k { call with phase := .sent } with handler := .request k }
    else none
  | .takeResponse targetIdentity output =>
    if s.handler = .ready then some { s with handler := .response targetIdentity output } else none
  | .takeDelete k => do
    let call ← s.calls k
    match s.handler, call.phase with
    | .ready, .deleting result =>
      some { s.setCall k { call with phase := .returned result } with handler := .delete k }
    | _, _ => none
  | .takeDone => if s.handler = .ready ∧ s.isDone then some { s with handler := .stopped } else none
  | .handle =>
    match s.handler with
    | .request k => do
      let call ← s.calls k
      some ({ s with handler := .ready }.handleRequest k call)
    | .response targetIdentity output => some ({ s with handler := .ready }.handleResponse targetIdentity output)
    | .delete k => do
      let call ← s.calls k
      some ({ s with handler := .ready }.handleDelete k call)
    | .ready | .panicked | .stopped => none
  | .arrive k => do
    let call ← s.calls k
    if call.phase = .sent then some (s.setCall k { call with phase := .waiting }) else none
  | .cancel k => do
    let call ← s.calls k
    if call.phase = .waiting then some (s.setCall k { call with phase := .deleting (.error .contextDone) }) else none
  | .write k failure => do
    let call ← s.calls k
    if call.writing then some (s.writeRequest k call failure) else none
  | .close => some { s with isDone := true }

/-- The messages that a step writes to the connection. -/
def sends (s : Requests) : RequestEvent → List Message
  | .write k none =>
    match s.calls k with
    | none => []
    | some call =>
      let message := .requestSession call.targetIdentity call.additionalData
      match lengthOf (wrapMessage message) with
      | .error _ => []
      | .ok _ => [message]
  | _ => []

/-- The handler handles a request only if its target is not in the table. -/
def Unrequested (s : Requests) : RequestEvent → Prop
  | .handle =>
    match s.handler with
    | .request k => ∀ call ∈ s.calls k, s.requests (hexEncode call.targetIdentity) = none
    | _ => True
  | _ => True

instance (s : Requests) (event : RequestEvent) : Decidable (s.Unrequested event) := by
  unfold Unrequested
  split
  · split <;> infer_instance
  · infer_instance

end Requests

/-- The effects of the steps around the request table. -/
inductive RequestEffect (s : Requests) : RequestEvent → Requests → Prop
  | call {k : ℕ} {target data : Bytes} : s.calls k = none →
      RequestEffect s (.call k target data) (s.setCall k ⟨target, data, .calling, false, false⟩)
  | takeRequest {k : ℕ} {call : RequestCall} :
      s.calls k = some call → s.handler = .ready → call.phase = .calling →
      RequestEffect s (.takeRequest k) { s.setCall k { call with phase := .sent } with handler := .request k }
  | takeResponse {target : Bytes} {output : RequestOutput} : s.handler = .ready →
      RequestEffect s (.takeResponse target output) { s with handler := .response target output }
  | takeDelete {k : ℕ} {call : RequestCall} {result : Except Err SessionInfo} :
      s.calls k = some call →
      s.handler = .ready → call.phase = .deleting result →
      RequestEffect s (.takeDelete k) { s.setCall k { call with phase := .returned result } with handler := .delete k }
  | takeDone : s.handler = .ready → s.isDone = true → RequestEffect s .takeDone { s with handler := .stopped }
  | reject {k other : ℕ} {call : RequestCall} : s.handler = .request k → s.calls k = some call →
      s.requests (hexEncode call.targetIdentity) = some other →
      RequestEffect s .handle ({ s with handler := .ready }.offerRequestOutput k (.error .alreadyRequested))
  | register {k : ℕ} {call : RequestCall} : s.handler = .request k → s.calls k = some call →
      s.requests (hexEncode call.targetIdentity) = none →
      RequestEffect s .handle
        { s.setCall k { call with registered := true, writing := true } with
          handler := .ready
          requests := Function.update s.requests (hexEncode call.targetIdentity) (some k) }
  | respond {k : ℕ} {target : Bytes} {output : RequestOutput} :
      s.handler = .response target output →
      s.requests (hexEncode target) = some k →
      RequestEffect s .handle ({ s with handler := .ready }.offerRequestOutput k output)
  | ignore {target : Bytes} {output : RequestOutput} : s.handler = .response target output →
      s.requests (hexEncode target) = none → RequestEffect s .handle { s with handler := .ready }
  | delete {k other : ℕ} {call : RequestCall} : s.handler = .delete k → s.calls k = some call →
      s.requests (hexEncode call.targetIdentity) = some other →
      RequestEffect s .handle
        { s.setCall k { call with registered := false } with
          handler := .ready
          requests := Function.update s.requests (hexEncode call.targetIdentity) none }
  | panic {k : ℕ} {call : RequestCall} : s.handler = .delete k → s.calls k = some call →
      s.requests (hexEncode call.targetIdentity) = none → RequestEffect s .handle { s with handler := .panicked }
  | arrive {k : ℕ} {call : RequestCall} : s.calls k = some call → call.phase = .sent →
      RequestEffect s (.arrive k) (s.setCall k { call with phase := .waiting })
  | cancel {k : ℕ} {call : RequestCall} : s.calls k = some call → call.phase = .waiting →
      RequestEffect s (.cancel k) (s.setCall k { call with phase := .deleting (.error .contextDone) })
  | write {k : ℕ} {call : RequestCall} {failure : Option Err} :
      s.calls k = some call → call.writing = true →
      RequestEffect s (.write k failure) (s.writeRequest k call failure)
  | close : RequestEffect s .close { s with isDone := true }

/-- What the handler does with what it has received. -/
theorem Requests.effect_of_handle {s t : Requests} (h : s.step .handle = some t) :
    RequestEffect s .handle t := by
  cases hhandler : s.handler with
  | request k =>
    simp only [step, hhandler, Option.bind_eq_bind, Option.bind_eq_some_iff, Option.some.injEq] at h
    obtain ⟨call, hc, rfl⟩ := h
    cases hentry : s.requests (hexEncode call.targetIdentity) with
    | none =>
      have heffect : RequestEffect s .handle _ := .register hhandler hc hentry
      simpa only [handleRequest, setCall, hentry] using heffect
    | some other => simpa only [handleRequest, hentry] using RequestEffect.reject hhandler hc hentry
  | response target output =>
    simp only [step, hhandler, Option.some.injEq] at h
    subst h
    cases hentry : s.requests (hexEncode target) with
    | none => simpa only [handleResponse, hentry] using RequestEffect.ignore hhandler hentry
    | some k => simpa only [handleResponse, hentry] using RequestEffect.respond hhandler hentry
  | delete k =>
    simp only [step, hhandler, Option.bind_eq_bind, Option.bind_eq_some_iff, Option.some.injEq] at h
    obtain ⟨call, hc, rfl⟩ := h
    cases hentry : s.requests (hexEncode call.targetIdentity) with
    | none => simpa only [handleDelete, hentry] using RequestEffect.panic hhandler hc hentry
    | some other =>
      have heffect : RequestEffect s .handle _ := .delete hhandler hc hentry
      simpa only [handleDelete, setCall, hentry] using heffect
  | ready | panicked | stopped => simp [step, hhandler] at h

/-- Every step has one of the effects. -/
theorem Requests.step_effect {s t : Requests} {event : RequestEvent} (h : s.step event = some t) :
    RequestEffect s event t := by
  cases event with
  | call k target data =>
    simp only [step] at h
    split at h
    · cases h
    · next hc =>
      obtain rfl := Option.some.inj h
      exact .call hc
  | takeRequest k =>
    simp only [step, Option.bind_eq_bind, Option.bind_eq_some_iff, Option.ite_none_right_eq_some,
      Option.some.injEq] at h
    obtain ⟨call, hc, ⟨hready, hphase⟩, rfl⟩ := h
    exact .takeRequest hc hready hphase
  | takeResponse target output =>
    simp only [step, Option.ite_none_right_eq_some, Option.some.injEq] at h
    obtain ⟨hready, rfl⟩ := h
    exact .takeResponse hready
  | takeDelete k =>
    simp only [step, Option.bind_eq_bind, Option.bind_eq_some_iff] at h
    obtain ⟨call, hc, h⟩ := h
    split at h
    · next result hready hphase =>
      obtain rfl := Option.some.inj h
      exact .takeDelete hc hready hphase
    · cases h
  | takeDone =>
    simp only [step, Option.ite_none_right_eq_some, Option.some.injEq] at h
    obtain ⟨⟨hready, hdone⟩, rfl⟩ := h
    exact .takeDone hready hdone
  | handle => exact effect_of_handle h
  | arrive k =>
    simp only [step, Option.bind_eq_bind, Option.bind_eq_some_iff, Option.ite_none_right_eq_some,
      Option.some.injEq] at h
    obtain ⟨call, hc, hphase, rfl⟩ := h
    exact .arrive hc hphase
  | cancel k =>
    simp only [step, Option.bind_eq_bind, Option.bind_eq_some_iff, Option.ite_none_right_eq_some,
      Option.some.injEq] at h
    obtain ⟨call, hc, hphase, rfl⟩ := h
    exact .cancel hc hphase
  | write k failure =>
    simp only [step, Option.bind_eq_bind, Option.bind_eq_some_iff, Option.ite_none_right_eq_some,
      Option.some.injEq] at h
    obtain ⟨call, hc, hwriting, rfl⟩ := h
    exact .write hc hwriting
  | close =>
    obtain rfl := Option.some.inj h
    exact .close

/-- The part of a call's progress that the request table depends on. -/
inductive CallStage where
  | calling
  | active
  | returned
deriving Repr, DecidableEq

/-- The stage of a call. -/
def RequestPhase.stage : RequestPhase → CallStage
  | .calling => .calling
  | .sent | .waiting | .deleting _ => .active
  | .returned _ => .returned

/-- A call as the request table sees it. -/
structure CallView where
  targetIdentity : Bytes
  stage : CallStage
  registered : Bool

/-- What the request table depends on. -/
structure RequestView where
  handler : RequestHandler
  requests : List Char → Option ℕ
  calls : ℕ → Option CallView

/-- The view of a call. -/
def RequestCall.view (call : RequestCall) :
    CallView := ⟨call.targetIdentity, call.phase.stage, call.registered⟩

/-- The view of the goroutines. -/
def Requests.view (s : Requests) :
    RequestView := ⟨s.handler, s.requests, fun k => (s.calls k).map RequestCall.view⟩

/-- The entries of the table are the registered calls, which are those between the handling of
their request and the handling of their deletion. -/
structure Owned (v : RequestView) : Prop where
  handler : v.handler ≠ .panicked
  request : ∀ k, v.handler = .request k → ∃ c, v.calls k = some c ∧ c.stage = .active
  delete : ∀ k, v.handler = .delete k → ∃ c, v.calls k = some c ∧ c.stage = .returned
  registered : ∀ k c, v.calls k = some c →
    (c.registered = true ↔ c.stage = .active ∧ v.handler ≠ .request k ∨ v.handler = .delete k)
  entry : ∀ id k, v.requests id = some k ↔
    ∃ c, v.calls k = some c ∧ c.registered = true ∧ hexEncode c.targetIdentity = id

namespace Owned

variable {v : RequestView}

/-- A step changes one call, what the handler does with it and its entry, and leaves the other calls
alone. -/
theorem update (h : Owned v) {k : ℕ} {c : CallView} {handler : RequestHandler} {requests : List Char → Option ℕ}
    (hpanic : handler ≠ .panicked) (hrequest : handler = .request k → c.stage = .active)
    (hdelete : handler = .delete k → c.stage = .returned)
    (hregistered : c.registered = true ↔ c.stage = .active ∧ handler ≠ .request k ∨ handler = .delete k)
    (hself : ∀ id, requests id = some k ↔ c.registered = true ∧ hexEncode c.targetIdentity = id)
    (hhandler : ∀ j, j ≠ k → (handler = .request j ↔ v.handler = .request j) ∧
      (handler = .delete j ↔ v.handler = .delete j))
    (hothers : ∀ id j, j ≠ k → (requests id = some j ↔ v.requests id = some j)) :
    Owned ⟨handler, requests, Function.update v.calls k (some c)⟩ where
  handler := hpanic
  request j hj := by
    by_cases hjk : j = k
    · subst hjk
      exact ⟨c, Function.update_self .., hrequest hj⟩
    · obtain ⟨other, hother, hstage⟩ := h.request j ((hhandler j hjk).1.mp hj)
      exact ⟨other, (Function.update_of_ne hjk ..).trans hother, hstage⟩
  delete j hj := by
    by_cases hjk : j = k
    · subst hjk
      exact ⟨c, Function.update_self .., hdelete hj⟩
    · obtain ⟨other, hother, hstage⟩ := h.delete j ((hhandler j hjk).2.mp hj)
      exact ⟨other, (Function.update_of_ne hjk ..).trans hother, hstage⟩
  registered j other hother := by
    simp only [Function.update_apply] at hother
    split at hother
    · next hjk =>
      obtain rfl := Option.some.inj hother
      rw [hjk]
      exact hregistered
    · next hjk =>
      rw [ne_eq, (hhandler j hjk).1, (hhandler j hjk).2]
      exact h.registered j other hother
  entry id j := by
    by_cases hjk : j = k
    · subst hjk
      simp only [hself id, Function.update_self, Option.some.injEq, exists_eq_left']
    · simp only [hothers id j hjk, h.entry id j, Function.update_of_ne hjk]

/-- A call that is not active is not registered, unless its deletion is being handled. -/
theorem not_registered (h : Owned v) {k : ℕ} {c : CallView} (hc : v.calls k = some c)
    (hstage : c.stage ≠ .active) (hhandler : v.handler ≠ .delete k) : c.registered = false := by
  rw [Bool.eq_false_iff, ne_eq, h.registered k c hc]
  rintro (⟨hactive, -⟩ | hdelete)
  · exact hstage hactive
  · exact hhandler hdelete

/-- A call has the entry of its target exactly if it is registered. -/
theorem entry_iff (h : Owned v) {k : ℕ} {c : CallView} (hc : v.calls k = some c) (id : List Char) :
    v.requests id = some k ↔ c.registered = true ∧ hexEncode c.targetIdentity = id := by
  simp only [h.entry id k, hc, Option.some.injEq, exists_eq_left']

/-- A new call is not registered. -/
theorem call (h : Owned v) {k : ℕ} (hnew : v.calls k = none) (target : Bytes) :
    Owned { v with calls := Function.update v.calls k (some ⟨target, .calling, false⟩) } := by
  have hrequest : v.handler ≠ .request k := by
    intro hhandler
    obtain ⟨c, hc, -⟩ := h.request k hhandler
    cases hnew.symm.trans hc
  have hdelete : v.handler ≠ .delete k := by
    intro hhandler
    obtain ⟨c, hc, -⟩ := h.delete k hhandler
    cases hnew.symm.trans hc
  refine h.update h.handler (fun heq => absurd heq hrequest) (fun heq => absurd heq hdelete) ?_ ?_
    (fun _ _ => ⟨Iff.rfl, Iff.rfl⟩) (fun _ _ _ => Iff.rfl)
  · simp [hdelete]
  · intro id
    simp [h.entry id k, hnew]

/-- A received request is not registered yet. -/
theorem takeRequest (h : Owned v) {k : ℕ} {c : CallView} (hready : v.handler = .ready)
    (hc : v.calls k = some c) (hstage : c.stage = .calling) :
    Owned { v with
      handler := .request k
      calls := Function.update v.calls k (some { c with stage := .active }) } := by
  have hfalse := h.not_registered hc (by simp [hstage]) (by simp [hready])
  refine h.update nofun (fun _ => rfl) nofun ?_ (fun id => h.entry_iff hc id) ?_ (fun _ _ _ => Iff.rfl)
  · simp [hfalse]
  · intro j hjk
    simp [hready, hjk.symm]

/-- Handling a request of a target that is not in the table registers the call. -/
theorem register (h : Owned v) {k : ℕ} {c : CallView} (hhandler : v.handler = .request k)
    (hc : v.calls k = some c) (hnone : v.requests (hexEncode c.targetIdentity) = none) :
    Owned ⟨.ready, Function.update v.requests (hexEncode c.targetIdentity) (some k),
      Function.update v.calls k (some { c with registered := true })⟩ := by
  obtain ⟨c', hc', hactive⟩ := h.request k hhandler
  obtain rfl := Option.some.inj (hc.symm.trans hc')
  have hfalse : c.registered = false := by simp [Bool.eq_false_iff, h.registered k c hc, hhandler]
  refine h.update nofun nofun nofun ?_ ?_ ?_ ?_
  · simp [hactive]
  · intro id
    rw [Function.update_apply]
    split
    · next hid => simp [hid]
    · next hid => simp [h.entry_iff hc, hfalse, Ne.symm hid]
  · intro j hjk
    simp [hhandler, hjk.symm]
  · intro id j hjk
    rw [Function.update_apply]
    split
    · next hid => simp [hid, hnone, hjk.symm]
    · exact Iff.rfl

/-- A received deletion is not handled yet. -/
theorem takeDelete (h : Owned v) {k : ℕ} {c : CallView} (hready : v.handler = .ready)
    (hc : v.calls k = some c) (hstage : c.stage = .active) :
    Owned { v with
      handler := .delete k
      calls := Function.update v.calls k (some { c with stage := .returned }) } := by
  have htrue : c.registered = true := (h.registered k c hc).mpr (.inl ⟨hstage, by simp [hready]⟩)
  refine h.update nofun nofun (fun _ => rfl) ?_ (fun id => h.entry_iff hc id) ?_ (fun _ _ _ => Iff.rfl)
  · simp [htrue]
  · intro j hjk
    simp [hready, hjk.symm]

/-- A deletion that is handled finds the entry of its call. -/
theorem requests_eq (h : Owned v) {k : ℕ} {c : CallView} (hhandler : v.handler = .delete k)
    (hc : v.calls k = some c) : v.requests (hexEncode c.targetIdentity) = some k :=
  (h.entry _ k).mpr ⟨c, hc, (h.registered k c hc).mpr (.inr hhandler), rfl⟩

/-- Handling a deletion removes the entry of its call. -/
theorem unregister (h : Owned v) {k : ℕ} {c : CallView} (hhandler : v.handler = .delete k)
    (hc : v.calls k = some c) :
    Owned ⟨.ready, Function.update v.requests (hexEncode c.targetIdentity) none,
      Function.update v.calls k (some { c with registered := false })⟩ := by
  have hentry := h.requests_eq hhandler hc
  obtain ⟨c', hc', hreturned⟩ := h.delete k hhandler
  obtain rfl := Option.some.inj (hc.symm.trans hc')
  refine h.update nofun nofun nofun ?_ ?_ ?_ ?_
  · simp [hreturned]
  · intro id
    rw [Function.update_apply]
    split
    · simp
    · next hid => simp [h.entry_iff hc, Ne.symm hid]
  · intro j hjk
    simp [hhandler, hjk.symm]
  · intro id j hjk
    rw [Function.update_apply]
    split
    · next hid => simp [hid, hentry, hjk.symm]
    · exact Iff.rfl

/-- Responses and the end of the handler do not matter. -/
theorem withHandler (h : Owned v) {handler : RequestHandler}
    (hold : ∀ k, v.handler ≠ .request k ∧ v.handler ≠ .delete k)
    (hnew : ∀ k, handler ≠ .request k ∧ handler ≠ .delete k) (hpanic : handler ≠ .panicked) :
    Owned { v with handler := handler } where
  handler := hpanic
  request k hk := absurd hk (hnew k).1
  delete k hk := absurd hk (hnew k).2
  registered k c hc := by
    have hbefore := h.registered k c hc
    simp only [(hold k).1, (hold k).2, ne_eq, not_false_eq_true, and_true, or_false] at hbefore
    simp only [(hnew k).1, (hnew k).2, ne_eq, not_false_eq_true, and_true, or_false]
    exact hbefore
  entry := h.entry

end Owned

namespace Requests

variable {s : Requests}

/-- The view after replacing a call. -/
theorem view_setCall (s : Requests) (k : ℕ) (call : RequestCall) :
    (s.setCall k call).view = { s.view with calls := Function.update s.view.calls k (some call.view) } := by
  simp only [view, setCall, RequestView.mk.injEq, true_and]
  funext j
  rw [Function.update_apply, Function.update_apply]
  split <;> rfl

/-- Replacing a call by one with the same view does not matter. -/
theorem view_setCall_same {k : ℕ} {call call' : RequestCall} (hc : s.calls k = some call)
    (hview : call'.view = call.view) : (s.setCall k call').view = s.view := by
  have hk : s.view.calls k = some call.view := congrArg (Option.map RequestCall.view) hc
  rw [view_setCall, hview, ← hk, Function.update_eq_self]

/-- Offering an output does not matter. -/
@[simp] theorem view_offerRequestOutput (s : Requests) (k : ℕ) (output : RequestOutput) :
    (s.offerRequestOutput k output).view = s.view := by
  unfold offerRequestOutput
  split
  · rfl
  · split
    · rename_i call hc hwaiting
      exact view_setCall_same hc (by rw [RequestCall.view, RequestCall.view, hwaiting]; rfl)
    · rfl

/-- A failure of the connection does not matter. -/
@[simp] theorem view_handleConnErr (s : Requests) (err : Err) :
    (s.handleConnErr err).view = s.view := by
  unfold handleConnErr
  split <;> rfl

/-- Writing a message does not matter. -/
theorem view_writeRequest {k : ℕ} {call : RequestCall} (hc : s.calls k = some call)
    (failure : Option Err) :
    (s.writeRequest k call failure).view = s.view := by
  have hwritten : (s.setCall k { call with writing := false }).view = s.view := view_setCall_same hc rfl
  unfold writeRequest
  split <;> simp [hwritten]

end Requests

/-- Every step that does not reject a request keeps the table owned. -/
theorem Owned.step {s t : Requests} {event : RequestEvent} (h : Owned s.view)
    (hguard : s.Unrequested event) (hstep : s.step event = some t) : Owned t.view := by
  have hview {k : ℕ} {call : RequestCall} (hc : s.calls k = some call) : s.view.calls k = some call.view :=
    congrArg (Option.map RequestCall.view) hc
  cases Requests.step_effect hstep with
  | @call k target data hc =>
    rw [Requests.view_setCall]
    exact h.call (congrArg (Option.map RequestCall.view) hc) target
  | @takeRequest k call hc hready hphase =>
    change Owned { (s.setCall k { call with phase := .sent }).view with handler := .request k }
    rw [Requests.view_setCall]
    exact h.takeRequest hready (hview hc) (by rw [RequestCall.view, hphase]; rfl)
  | takeResponse hready | takeDone hready =>
    exact h.withHandler (by simp [Requests.view, hready]) (by simp) (by simp)
  | @takeDelete k call result hc hready hphase =>
    change Owned { (s.setCall k { call with phase := .returned result }).view with handler := .delete k }
    rw [Requests.view_setCall]
    exact h.takeDelete hready (hview hc) (by rw [RequestCall.view, hphase]; rfl)
  | @reject k other call hhandler hc hentry =>
    simp only [Requests.Unrequested, hhandler] at hguard
    exact absurd (hentry.symm.trans (hguard call hc)) (by simp)
  | @register k call hhandler hc hnone =>
    change Owned { (s.setCall k { call with registered := true, writing := true }).view with
      handler := .ready
      requests := Function.update s.requests (hexEncode call.targetIdentity) (some k) }
    rw [Requests.view_setCall]
    exact h.register hhandler (hview hc) hnone
  | respond hhandler =>
    rw [Requests.view_offerRequestOutput]
    exact h.withHandler (by simp [Requests.view, hhandler]) (by simp) (by simp)
  | ignore hhandler => exact h.withHandler (by simp [Requests.view, hhandler]) (by simp) (by simp)
  | @delete k other call hhandler hc =>
    change Owned { (s.setCall k { call with registered := false }).view with
      handler := .ready
      requests := Function.update s.requests (hexEncode call.targetIdentity) none }
    rw [Requests.view_setCall]
    exact h.unregister hhandler (hview hc)
  | panic hhandler hc hnone =>
    have hentry := h.requests_eq hhandler (hview hc)
    exact absurd (hentry.symm.trans hnone) (by simp)
  | arrive hc hphase | cancel hc hphase =>
    rwa [Requests.view_setCall_same hc (by rw [RequestCall.view, RequestCall.view, hphase]; rfl)]
  | write hc => rwa [Requests.view_writeRequest hc]
  | close => exact h

/-- Without calls the table is owned. -/
theorem owned_new : Owned Requests.new.view := by
  constructor <;> simp [Requests.new, Requests.view]

/-- In every run in which the handler handles a request only if its target is not in the table, the
handler does not panic, and the table has an entry for a call exactly while the call is
registered. -/
theorem request_table_owned {s : Requests} (h : Reached Requests.step Requests.Unrequested .new s) :
    s.handler ≠ .panicked ∧ ∀ id k, s.requests id = some k ↔
      ∃ call, s.calls k = some call ∧ call.registered = true ∧ hexEncode call.targetIdentity = id := by
  have howned : Owned s.view :=
    h.invariant (fun s => Owned s.view) owned_new fun _ _ _ hs hguard hstep => hs.step hguard hstep
  refine ⟨howned.handler, ?_⟩
  intro id k
  apply (howned.entry id k).trans
  simp [Requests.view, RequestCall.view]

/-- Two requests for one target, the second one made after the first one has been deleted. -/
def oneAfterTheOther : List RequestEvent :=
  [.call 0 [1] [], .takeRequest 0, .handle, .arrive 0, .takeResponse [1] (.ok ⟨[7], 80⟩), .handle, .takeDelete 0,
    .handle, .call 1 [1] [], .takeRequest 1, .handle]

/-- The second of two requests that do not overlap has the entry of the target. -/
theorem request_table_owned_two :
    ∃ s, execute Requests.step Requests.Unrequested oneAfterTheOther .new = some s ∧
      s.handler ≠ .panicked ∧ s.requests (hexEncode [1]) = some 1 := by
  have hrun := request_table_owned (reached_of_execute oneAfterTheOther rfl)
  exact ⟨_, rfl, hrun.1, (hrun.2 _ 1).mpr ⟨_, rfl, rfl, rfl⟩⟩

/-- Two requests for one target, the second one made before the first one has been deleted. -/
def overlapping : List RequestEvent :=
  [.call 0 [1] [], .takeRequest 0, .handle, .arrive 0, .call 1 [1] [], .takeRequest 1, .arrive 1, .handle,
    .takeDelete 1, .handle]

/-- The rejected request deletes the entry of the request in progress, whose own deletion then
panics. -/
theorem rejected_request_deletes_entry :
    (∃ s call, Reached Requests.step anyStep .new s ∧ s.calls 0 = some call ∧ call.phase = .waiting ∧
      call.registered = true ∧ s.requests (hexEncode call.targetIdentity) = none) ∧
    ∃ s, Reached Requests.step anyStep .new s ∧ s.handler = .panicked :=
  ⟨⟨_, _, reached_of_execute overlapping rfl, rfl, rfl, rfl, rfl⟩,
    _, reached_of_execute (overlapping ++ [.cancel 0, .takeDelete 0, .handle]) rfl, rfl⟩

end ProjektCore.Relay
