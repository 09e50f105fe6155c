import ProjektCore.Relay.Client.Requests

/-!
# The outcomes of a request

A call of `Request` gets its outcome from one of three sources: the request handler rejects it, the
server responds for its target, or its message cannot be written. Each of them offers the outcome
without waiting: it is lost if the call has not reached its select yet. This file records the
outcomes that are offered to each call and when.
-/

namespace ProjektCore.Relay

open Foundation Packet

/-- An outcome that was offered to a call, and whether this was before the call reached its
select. -/
structure Offer where
  output : RequestOutput
  isEarly : Bool
deriving Repr, DecidableEq

/-- Whether a call is still to reach its select. -/
def RequestPhase.isEarly : RequestPhase → Bool
  | .calling | .sent => true
  | .waiting | .deleting _ | .returned _ => false

/-- Whether a call is still to receive an outcome or waits for one. -/
def RequestPhase.isPending : RequestPhase → Bool
  | .calling | .sent | .waiting => true
  | .deleting _ | .returned _ => false

/-- The result that a call returns or is about to return. -/
def RequestPhase.result : RequestPhase → Option (Except Err SessionInfo)
  | .deleting result | .returned result => some result
  | .calling | .sent | .waiting => none

/-- The result that an outcome gives to a call for a target. -/
def RequestOutput.result (output : RequestOutput) (targetIdentity : Bytes) :
    Except Err SessionInfo :=
  output.map fun session => ⟨session, targetIdentity⟩

namespace Requests

/-- The error of writing the message of a call. -/
def writeFailure (call : RequestCall) (failure : Option Err) : Option Err :=
  match lengthOf (wrapMessage (.requestSession call.targetIdentity call.additionalData)) with
  | .error err => some err
  | .ok _ => failure

/-- The outcome that a step offers, and to which call. -/
def offer (s : Requests) : RequestEvent → Option (ℕ × RequestOutput)
  | .handle =>
    match s.handler with
    | .request k => do
      let call ← s.calls k
      let _ ← s.requests (hexEncode call.targetIdentity)
      return (k, .error .alreadyRequested)
    | .response targetIdentity output => do
      let k ← s.requests (hexEncode targetIdentity)
      -- the channel of an entry is that of a call
      let _ ← s.calls k
      return (k, output)
    | _ => none
  | .write k failure => do
    let call ← s.calls k
    let err ← writeFailure call failure
    return (k, .error (.wrap "failed to write request message: " err))
  | _ => none

/-- Whether a call is still to reach its select. -/
def isEarly (s : Requests) (k : ℕ) : Bool :=
  match s.calls k with
  | none => true
  | some call => call.phase.isEarly

/-- The target of a call and how far it is. -/
def progress (s : Requests) (k : ℕ) : Option (Bytes × RequestPhase) :=
  (s.calls k).map fun call => (call.targetIdentity, call.phase)

end Requests

/-- How far a call is after an outcome was offered to it. -/
def RequestPhase.offered (targetIdentity : Bytes) (output : RequestOutput) :
    RequestPhase → RequestPhase
  | .waiting => .deleting (output.result targetIdentity)
  | phase => phase

/-- What a step does with a call, and the outcome that it offers to it. -/
inductive CallMove (k : ℕ) (event : RequestEvent) :
    Option (Bytes × RequestPhase) → Option RequestOutput → Option (Bytes × RequestPhase) → Prop
  | stay {p : Option (Bytes × RequestPhase)} : CallMove k event p none p
  | call {target : Bytes} : CallMove k event none none (some (target, .calling))
  | send {target : Bytes} : CallMove k event (some (target, .calling)) none (some (target, .sent))
  | arrive {target : Bytes} : CallMove k event (some (target, .sent)) none (some (target, .waiting))
  | cancel {target : Bytes} : event = .cancel k →
      CallMove k event (some (target, .waiting)) none (some (target, .deleting (.error .contextDone)))
  | delete {target : Bytes} {result : Except Err SessionInfo} :
      CallMove k event (some (target, .deleting result)) none (some (target, .returned result))
  | offer {target : Bytes} {phase : RequestPhase} {output : RequestOutput} :
      CallMove k event (some (target, phase)) (some output) (some (target, phase.offered target output))

namespace Requests

variable {s t : Requests}

/-- The outcome that a step offers to a call. -/
def offerTo (s : Requests) (event : RequestEvent) (k : ℕ) : Option RequestOutput :=
  match s.offer event with
  | some (j, output) => if j = k then some output else none
  | none => none

/-- The progress of a call that is replaced. -/
theorem progress_setCall (s : Requests) (j : ℕ) (call : RequestCall) (k : ℕ) :
    (s.setCall j call).progress k = if k = j then some (call.targetIdentity, call.phase) else s.progress k := by
  simp only [progress, setCall, Function.update_apply]
  split <;> rfl

/-- The progress of a call to which an outcome is offered. -/
theorem progress_offerRequestOutput (s : Requests) (j : ℕ) (output : RequestOutput) (k : ℕ) :
    (s.offerRequestOutput j output).progress k =
      if k = j then (s.progress k).map fun p => (p.1, p.2.offered p.1 output) else s.progress k := by
  by_cases hk : k = j
  · subst hk
    rw [if_pos rfl, offerRequestOutput]
    cases hc : s.calls k with
    | none => simp only [progress, hc, Option.map_none]
    | some call =>
      have hbefore : s.progress k = some (call.targetIdentity, call.phase) := by rw [progress, hc, Option.map_some]
      rw [hbefore, Option.map_some]
      simp only
      split
      · next hwaiting =>
        rw [progress_setCall, if_pos rfl, hwaiting]
        rfl
      · next hphase =>
        have hsame : call.phase.offered call.targetIdentity output = call.phase := by
          cases hp : call.phase with
          | waiting => exact absurd hp hphase
          | _ => rfl
        rw [hbefore, hsame]
  · rw [if_neg hk, offerRequestOutput]
    split
    · rfl
    · split
      · rw [progress_setCall, if_neg hk]
      · rfl

/-- A step that offers an outcome to one call and leaves the progress of all else. -/
theorem move_of_offer {event : RequestEvent} {j : ℕ} (output : RequestOutput) {call : RequestCall}
    (hc : s.calls j = some call) (hoffer : s.offer event = some (j, output))
    (hprogress : ∀ k, t.progress k = (s.offerRequestOutput j output).progress k) (k : ℕ) :
    CallMove k event (s.progress k) (s.offerTo event k) (t.progress k) := by
  rw [hprogress, progress_offerRequestOutput, offerTo, hoffer]
  by_cases hk : k = j
  · subst hk
    have hbefore : s.progress k = some (call.targetIdentity, call.phase) := by rw [progress, hc, Option.map_some]
    simp only [if_true, hbefore, Option.map_some]
    exact .offer
  · simp only [if_neg hk, if_neg (Ne.symm hk)]
    exact .stay

/-- A step that offers nothing and moves at most one call. -/
theorem move_of_setCall {event : RequestEvent} {j : ℕ} {call : RequestCall}
    (hoffer : s.offer event = none)
    (hmove : CallMove j event (s.progress j) none (some (call.targetIdentity, call.phase)))
    (hprogress : ∀ k, t.progress k = (s.setCall j call).progress k) (k : ℕ) :
    CallMove k event (s.progress k) (s.offerTo event k) (t.progress k) := by
  rw [hprogress, progress_setCall, offerTo, hoffer]
  by_cases hk : k = j
  · subst hk
    rw [if_pos rfl]
    exact hmove
  · rw [if_neg hk]
    exact .stay

/-- A step that neither offers anything nor moves a call. -/
theorem move_of_same {event : RequestEvent} (hoffer : s.offer event = none)
    (hprogress : ∀ k, t.progress k = s.progress k) (k : ℕ) :
    CallMove k event (s.progress k) (s.offerTo event k) (t.progress k) := by
  rw [hprogress, offerTo, hoffer]
  exact .stay

/-- Writing the message of a call offers the error, if there is one. -/
theorem progress_writeRequest {j : ℕ} {call : RequestCall} (hc : s.calls j = some call)
    (failure : Option Err) (k : ℕ) :
    (s.writeRequest j call failure).progress k =
      match writeFailure call failure with
      | some err => (s.offerRequestOutput j (.error (.wrap "failed to write request message: " err))).progress k
      | none => s.progress k := by
  have hwritten (i : ℕ) : (s.setCall j { call with writing := false }).progress i = s.progress i := by
    rw [progress_setCall]
    split
    · next hi => rw [hi, progress, hc, Option.map_some]
    · rfl
  have hfailed (err : Err) : (((s.setCall j { call with writing := false }).offerRequestOutput j
      (.error (.wrap "failed to write request message: " err))).handleConnErr err).progress k =
      (s.offerRequestOutput j (.error (.wrap "failed to write request message: " err))).progress k := by
    have hconn (u : Requests) : (u.handleConnErr err).progress k = u.progress k := by
      rw [handleConnErr]
      split <;> rfl
    rw [hconn, progress_offerRequestOutput, progress_offerRequestOutput, hwritten]
  cases hlength : lengthOf (wrapMessage (.requestSession call.targetIdentity call.additionalData)) with
  | error err =>
    simp only [writeRequest, writeFailure, hlength]
    exact hfailed err
  | ok length =>
    cases failure with
    | some err =>
      simp only [writeRequest, writeFailure, hlength]
      exact hfailed err
    | none =>
      simp only [writeRequest, writeFailure, hlength]
      exact hwritten k

/-- What a step does with each call. -/
theorem step_move {event : RequestEvent} (h : s.step event = some t) (k : ℕ) :
    CallMove k event (s.progress k) (s.offerTo event k) (t.progress k) := by
  have hprogress {j : ℕ} {call : RequestCall} (hc : s.calls j = some call) :
      s.progress j = some (call.targetIdentity, call.phase) := by
    rw [progress, hc, Option.map_some]
  cases step_effect h with
  | call hc =>
    refine move_of_setCall rfl ?_ (fun _ => rfl) k
    rw [progress, hc]
    exact .call
  | takeRequest hc _ hphase =>
    refine move_of_setCall rfl ?_ (fun _ => rfl) k
    rw [hprogress hc, hphase]
    exact .send
  | takeResponse | takeDone | close => exact move_of_same rfl (fun _ => rfl) k
  | takeDelete hc _ hphase =>
    refine move_of_setCall rfl ?_ (fun _ => rfl) k
    rw [hprogress hc, hphase]
    exact .delete
  | reject hhandler hc hentry =>
    refine move_of_offer (.error .alreadyRequested) hc ?_ (fun i => ?_) k
    · simp [offer, hhandler, hc, hentry]
    · rw [progress_offerRequestOutput, progress_offerRequestOutput]
      rfl
  | register hhandler hc hentry =>
    refine move_of_setCall ?_ ?_ (fun _ => rfl) k
    · simp [offer, hhandler, hc, hentry]
    · rw [hprogress hc]
      exact .stay
  | @respond j target output hhandler hentry =>
    cases hc : s.calls j with
    | none =>
      refine move_of_same ?_ (fun i => ?_) k
      · simp [offer, hhandler, hentry, hc]
      · rw [offerRequestOutput]
        simp only [hc]
        rfl
    | some call =>
      refine move_of_offer output hc ?_ (fun i => ?_) k
      · simp [offer, hhandler, hentry, hc]
      · rw [progress_offerRequestOutput, progress_offerRequestOutput]
        rfl
  | ignore hhandler hentry =>
    refine move_of_same ?_ (fun _ => rfl) k
    simp [offer, hhandler, hentry]
  | delete hhandler hc =>
    refine move_of_setCall ?_ ?_ (fun _ => rfl) k
    · simp [offer, hhandler]
    · rw [hprogress hc]
      exact .stay
  | panic hhandler =>
    refine move_of_same ?_ (fun _ => rfl) k
    simp [offer, hhandler]
  | arrive hc hphase =>
    refine move_of_setCall rfl ?_ (fun _ => rfl) k
    rw [hprogress hc, hphase]
    exact .arrive
  | cancel hc hphase =>
    refine move_of_setCall rfl ?_ (fun _ => rfl) k
    rw [hprogress hc, hphase]
    exact .cancel rfl
  | @write j call failure hc =>
    cases hfailure : writeFailure call failure with
    | none =>
      refine move_of_same ?_ (fun i => ?_) k
      · simp [offer, hc, hfailure]
      · rw [progress_writeRequest hc, hfailure]
    | some err =>
      refine move_of_offer (.error (.wrap "failed to write request message: " err)) hc ?_ (fun i => ?_) k
      · simp only [offer, hc, hfailure, Option.bind_eq_bind, Option.bind_some]
        rfl
      · rw [progress_writeRequest hc, hfailure]

end Requests

/-- The goroutines around the request table, with the outcomes that were offered to each call. -/
structure Outcomes where
  table : Requests
  offered : ℕ → List Offer

namespace Outcomes

/-- No outcome has been offered. -/
def new : Outcomes := ⟨.new, fun _ => []⟩

/-- Record the outcome that a step offers. -/
def record (u : Outcomes) (event : RequestEvent) (t : Requests) : Outcomes :=
  ⟨t, fun k => u.offered k ++ ((u.table.offerTo event k).map fun output => ⟨output, u.table.isEarly k⟩).toList⟩

/-- One step of the goroutines. -/
def step (u : Outcomes) (event : RequestEvent) :
    Option Outcomes := (u.table.step event).map (u.record event)

/-- A call that still is to receive an outcome was offered outcomes too early only; one that has a
result has it from an outcome that was offered in time. -/
def SettledBy (offers : List Offer) : Option (Bytes × RequestPhase) → Prop
  | none => offers = []
  | some (target, phase) =>
    (phase.isPending = true → ∀ o ∈ offers, o.isEarly = true) ∧
    ∀ result, phase.result = some result →
      ∃ o ∈ offers, o.isEarly = false ∧ result = RequestOutput.result o.output target

/-- A call is settled by the outcomes that were offered to it. -/
def Settled (k : ℕ) (u : Outcomes) : Prop := SettledBy (u.offered k) (u.table.progress k)

variable {u : Outcomes} {k : ℕ}

/-- A call that has not been made is settled. -/
theorem settled_new (k : ℕ) : Settled k new := rfl

/-- A call to which an outcome is offered takes it if it waits; otherwise it is early or has a
result. -/
theorem SettledBy.offer {offers : List Offer} {target : Bytes} {phase : RequestPhase}
    (h : SettledBy offers (some (target, phase))) (output : RequestOutput) :
    SettledBy (offers ++ [⟨output, phase.isEarly⟩]) (some (target, phase.offered target output)) := by
  obtain ⟨hpending, hresult⟩ := h
  have hold (result : Except Err SessionInfo) (hr : phase.result = some result) :
      ∃ o ∈ offers ++ [⟨output, phase.isEarly⟩], o.isEarly = false ∧
        result = RequestOutput.result o.output target := by
    obtain ⟨o, ho, hin, heq⟩ := hresult result hr
    exact ⟨o, List.mem_append_left _ ho, hin, heq⟩
  have hearlier (hp : phase.isPending = true) (he : phase.isEarly = true) :
      ∀ o ∈ offers ++ [⟨output, phase.isEarly⟩], o.isEarly = true := by
    intro o ho
    rcases List.mem_append.mp ho with ho | ho
    · exact hpending hp o ho
    · rw [List.mem_singleton.mp ho]
      exact he
  cases phase with
  | calling | sent => exact ⟨fun _ => hearlier rfl rfl, nofun⟩
  | waiting =>
    refine ⟨nofun, ?_⟩
    intro result hr
    obtain rfl := Option.some.inj hr
    exact ⟨⟨output, false⟩, List.mem_append_right _ (List.mem_singleton_self _), rfl, rfl⟩
  | deleting result | returned result => exact ⟨nofun, hold⟩

/-- A move of a call keeps it settled, unless its context is cancelled. -/
theorem SettledBy.move {event : RequestEvent} {offers : List Offer} {isEarly : Bool}
    {offer : Option RequestOutput} {before after : Option (Bytes × RequestPhase)}
    (h : SettledBy offers before) (hmove : CallMove k event before offer after)
    (hcancel : event ≠ .cancel k) (hearly : ∀ p, before = some p → isEarly = p.2.isEarly) :
    SettledBy (offers ++ (offer.map fun output => ⟨output, isEarly⟩).toList) after := by
  cases hmove with
  | offer =>
    rw [hearly _ rfl]
    exact h.offer _
  | cancel heq => exact absurd heq hcancel
  | stay =>
    rw [Option.map_none, Option.toList_none, List.append_nil]
    exact h
  | call =>
    obtain rfl : offers = [] := h
    exact ⟨nofun, nofun⟩
  | send | arrive | delete =>
    rw [Option.map_none, Option.toList_none, List.append_nil]
    exact h

/-- Every step but the cancellation of a call keeps the call settled. -/
theorem Settled.step {u' : Outcomes} {event : RequestEvent} (h : Settled k u)
    (hcancel : event ≠ .cancel k) (hstep : u.step event = some u') : Settled k u' := by
  obtain ⟨t, ht, rfl⟩ := Option.map_eq_some_iff.mp hstep
  refine SettledBy.move h (Requests.step_move ht k) hcancel ?_
  intro p hp
  obtain ⟨call, hc, rfl⟩ := Option.map_eq_some_iff.mp hp
  rw [Requests.isEarly, hc]

/-- The outcomes of a request whose context is not cancelled, over all interleavings; every run of
the goroutines is one with the outcomes recorded. The call has the result of an outcome that was
offered to it exactly if one was offered after it had reached its select. It is still to receive one
or waits exactly if all outcomes were offered before, so that each of them was dropped. -/
theorem request_outcomes (k : ℕ) :
    (∀ s, Reached Requests.step (fun _ event => event ≠ .cancel k) .new s →
      ∃ u : Outcomes, s = u.table ∧ Reached step (fun _ event => event ≠ .cancel k) new u) ∧
    ∀ (u : Outcomes) (call : RequestCall), Reached step (fun _ event => event ≠ .cancel k) new u →
      u.table.calls k = some call →
      ((∃ o ∈ u.offered k, call.phase.result = some (RequestOutput.result o.output call.targetIdentity)) ↔
        ∃ o ∈ u.offered k, o.isEarly = false) ∧
      (call.phase.isPending = true ↔ ∀ o ∈ u.offered k, o.isEarly = true) := by
  constructor
  · intro s hs
    refine Reached.of_map table ?_ (fun _ _ hguard => hguard) new hs
    intro u event
    rw [step, Option.map_map]
    exact Option.map_id'.symm
  · intro u call hu hc
    have hsettled := hu.invariant (Settled k) (settled_new k)
      fun _ _ _ h hcancel hstep => h.step hcancel hstep
    rw [Settled, Requests.progress, hc] at hsettled
    obtain ⟨hpending, hresult⟩ := hsettled
    have hsome : call.phase.isPending = false → ∃ result, call.phase.result = some result := by
      cases call.phase with
      | calling | sent | waiting => nofun
      | deleting result | returned result => exact fun _ => ⟨result, rfl⟩
    have hlate (o : Offer) (ho : o ∈ u.offered k) (hin : o.isEarly = false) : call.phase.isPending = false := by
      by_contra hp
      have hearly := hpending (Bool.eq_true_of_not_eq_false hp) o ho
      rw [hin] at hearly
      cases hearly
    refine ⟨⟨?_, ?_⟩, hpending, ?_⟩
    · rintro ⟨o, -, hr⟩
      obtain ⟨o', ho', hin, -⟩ := hresult _ hr
      exact ⟨o', ho', hin⟩
    · rintro ⟨o, ho, hin⟩
      obtain ⟨result, hr⟩ := hsome (hlate o ho hin)
      obtain ⟨o', ho', -, rfl⟩ := hresult result hr
      exact ⟨o', ho', hr⟩
    · intro hall
      by_contra hp
      obtain ⟨result, hr⟩ := hsome (Bool.eq_false_of_not_eq_true hp)
      obtain ⟨o, ho, hin, -⟩ := hresult result hr
      rw [hall o ho] at hin
      cases hin

/-- A call that waits when the server responds. -/
def answeredInTime : List RequestEvent :=
  [.call 0 [1] [], .takeRequest 0, .handle, .arrive 0, .write 0 none, .takeResponse [1] (.error .targetUnavailable),
    .handle]

/-- The call returns the response. -/
theorem request_outcomes_in_time :
    ∃ (u : Outcomes) (call : RequestCall), Reached step (fun _ event => event ≠ .cancel 0) new u ∧
      u.table.calls 0 = some call ∧ u.offered 0 = [⟨.error .targetUnavailable, false⟩] ∧
      ∃ o ∈ u.offered 0, call.phase.result = some (RequestOutput.result o.output call.targetIdentity) := by
  have hreached : Reached step (fun _ event => event ≠ .cancel 0) new _ :=
    reached_of_labels answeredInTime (by decide) rfl
  obtain ⟨hreceived, -⟩ := (request_outcomes 0).2 _ _ hreached rfl
  exact ⟨_, _, hreached, rfl, rfl, hreceived.mpr ⟨_, List.mem_singleton_self _, rfl⟩⟩

/-- The server responds before the call has reached its select. The response is dropped, and the
call waits for another one. -/
theorem early_response_dropped :
    ∃ (u : Outcomes) (call : RequestCall), Reached step (fun _ event => event ≠ .cancel 0) new u ∧
      u.table.calls 0 = some call ∧ u.table.handler = .ready ∧ call.registered = true ∧ call.phase = .waiting ∧
      u.offered 0 = [⟨.error .targetUnavailable, true⟩] := by
  have hreached : Reached step (fun _ event => event ≠ .cancel 0) new _ :=
    reached_of_labels [.call 0 [1] [], .takeRequest 0, .handle, .write 0 none,
      .takeResponse [1] (.error .targetUnavailable), .handle, .arrive 0] (by decide) rfl
  exact ⟨_, _, hreached, rfl, rfl, rfl, rfl, rfl⟩

end Outcomes

end ProjektCore.Relay
