import ProjektCore.Foundation.Runs
import ProjektCore.Relay.Client.Waits

/-!
# The session handler after failed acceptances

A call of `Accept` registers with the session handler before it writes its message. If the message
cannot be written, the call returns and its entry stays. The next call for the same initiator then
makes the handler panic, and the next result for it makes the handler wait for a receiver that does
not exist anymore.
-/

namespace ProjektCore.Relay

open Foundation Packet

/-- Whether a call has returned. -/
def AcceptPhase.isReturned : AcceptPhase → Bool
  | .returned _ => true
  | .calling | .writing | .waiting => false

namespace Waits

variable {s t : Waits} {label : Bool × WaitEvent}

/-- The call that is replaced. -/
theorem acceptCalls_setAccept_self {k : ℕ} {call : AcceptCall} {phase : AcceptPhase} :
    (s.setAccept k call phase).acceptCalls k = some { call with phase := phase } :=
  Function.update_self ..

/-- The other calls stay. -/
theorem acceptCalls_setAccept_of_ne {j k : ℕ} {call : AcceptCall} {phase : AcceptPhase}
    (hne : j ≠ k) :
    (s.setAccept k call phase).acceptCalls j = s.acceptCalls j :=
  Function.update_of_ne hne ..

/-- One step of the goroutines, with whether the protocol is closed at that time. -/
def stepAt (s : Waits) (label : Bool × WaitEvent) : Option Waits := s.step label.1 label.2

/-- Only `Accept` is called, and calls for the same initiator do not overlap. -/
def Serial (s : Waits) (label : Bool × WaitEvent) : Prop :=
  match label.2 with
  | .readAccept _ _ => False
  | .accept _ initiatorIdentity _ =>
    ∀ k call, s.acceptCalls k = some call → call.initiatorIdentity = initiatorIdentity → call.phase.isReturned = true
  | _ => True

/-- The entry of an identity is that of a call that has failed. -/
def Stale (s : Waits) (identity : Bytes) : Prop :=
  ∃ k call err, s.results (hexEncode identity) = some k ∧ s.acceptCalls k = some call ∧
    call.phase = .returned (some err)

/-- The handler takes no registration and no result for an identity with a stale entry, and no call
fails while the handler sends it the result. -/
def Usable (s : Waits) (label : Bool × WaitEvent) : Prop :=
  match label.2 with
  | .takeWaitResult k => ∀ call, s.acceptCalls k = some call → ¬ s.Stale call.initiatorIdentity
  | .takeResult result => ¬ s.Stale result.peerIdentity
  | .write k failure => ∀ result call, s.handler = .result k result → s.acceptCalls k = some call →
    writeError call failure = none
  | .leaveAccept k => ∀ result, s.handler ≠ .result k result
  | _ => True

/-- The handler sends a result to a call that has returned. -/
def Stuck (s : Waits) : Prop :=
  ∃ k result call, s.handler = .result k result ∧ s.acceptCalls k = some call ∧ call.phase.isReturned = true

/-- The handler has not panicked and does not send to a call that has returned. -/
def Healthy (s : Waits) : Prop := s.handler ≠ .panicked ∧ ¬ s.Stuck

/-- The calls of `Accept` and the entries of the session handler while calls for one initiator do
not overlap. -/
structure Serialized (s : Waits) : Prop where
  noReadAccept : ∀ k, s.readAccepts k = none
  noAccept : ∀ id, s.accepts id = none
  noPassAccept : ∀ k accept, s.handler ≠ .accept k accept
  /-- Of the calls for an initiator at most one has not returned. -/
  single : ∀ j k call other, s.acceptCalls j = some call → s.acceptCalls k = some other →
    call.initiatorIdentity = other.initiatorIdentity → call.phase.isReturned = false →
    other.phase.isReturned = false → j = k
  entry : ∀ id k, s.results id = some k → ∃ call, s.acceptCalls k = some call ∧
    hexEncode call.initiatorIdentity = id ∧ call.phase ≠ .calling ∧ call.phase ≠ .returned none
  passing : ∀ k result, s.handler = .result k result → s.results (hexEncode result.peerIdentity) = some k

namespace Serialized

/-- Without calls nothing overlaps. -/
theorem new : Serialized .new := by
  constructor <;> simp [Waits.new]

/-- A new call for an initiator whose calls have all returned. -/
theorem accept (h : s.Serialized) {k : ℕ} {initiator data : Bytes} (hnew : s.acceptCalls k = none)
    (hserial : ∀ j call, s.acceptCalls j = some call → call.initiatorIdentity = initiator →
      call.phase.isReturned = true) :
    (s.setAccept k ⟨initiator, data, .calling⟩ .calling).Serialized where
  noReadAccept := h.noReadAccept
  noAccept := h.noAccept
  noPassAccept := h.noPassAccept
  single i j call other hi hj hsame hcall hother := by
    -- the new call is the only one for its initiator that has not returned
    have hothers {j : ℕ} {other : AcceptCall} (hj : s.acceptCalls j = some other)
        (hother : other.phase.isReturned = false) : other.initiatorIdentity ≠ initiator :=
      fun heq => by cases hother.symm.trans (hserial j other hj heq)
    by_cases hik : i = k <;> by_cases hjk : j = k
    · rw [hik, hjk]
    · subst hik
      obtain rfl := Option.some.inj (acceptCalls_setAccept_self.symm.trans hi)
      rw [acceptCalls_setAccept_of_ne hjk] at hj
      exact absurd hsame.symm (hothers hj hother)
    · subst hjk
      obtain rfl := Option.some.inj (acceptCalls_setAccept_self.symm.trans hj)
      rw [acceptCalls_setAccept_of_ne hik] at hi
      exact absurd hsame (hothers hi hcall)
    · rw [acceptCalls_setAccept_of_ne hik] at hi
      rw [acceptCalls_setAccept_of_ne hjk] at hj
      exact h.single i j call other hi hj hsame hcall hother
  entry id j hj := by
    obtain ⟨call, hc, hcall⟩ := h.entry id j hj
    have hne : j ≠ k := by
      rintro rfl
      cases hnew.symm.trans hc
    exact ⟨call, (acceptCalls_setAccept_of_ne hne).trans hc, hcall⟩
  passing := h.passing

section SetAccept

variable {k : ℕ} {call : AcceptCall} {phase : AcceptPhase}

/-- A call that has not returned goes on or returns: of the calls for an initiator still one at most
is left. -/
theorem single_setAccept (h : s.Serialized) (hc : s.acceptCalls k = some call)
    (hreturned : call.phase.isReturned = false) (i j : ℕ) (first second : AcceptCall)
    (hi : (s.setAccept k call phase).acceptCalls i = some first)
    (hj : (s.setAccept k call phase).acceptCalls j = some second)
    (hsame : first.initiatorIdentity = second.initiatorIdentity)
    (hfirst : first.phase.isReturned = false) (hsecond : second.phase.isReturned = false) :
    i = j := by
  have hbefore {i : ℕ} {found : AcceptCall} (hi : (s.setAccept k call phase).acceptCalls i = some found)
      (hfound : found.phase.isReturned = false) :
      ∃ old, s.acceptCalls i = some old ∧ old.initiatorIdentity = found.initiatorIdentity ∧
        old.phase.isReturned = false := by
    by_cases hik : i = k
    · subst hik
      obtain rfl := Option.some.inj (acceptCalls_setAccept_self.symm.trans hi)
      exact ⟨call, hc, rfl, hreturned⟩
    · exact ⟨found, (acceptCalls_setAccept_of_ne hik).symm.trans hi, rfl, hfound⟩
  obtain ⟨first', hi', hfirst', hleft⟩ := hbefore hi hfirst
  obtain ⟨second', hj', hsecond', hright⟩ := hbefore hj hsecond
  exact h.single i j first' second' hi' hj' (hfirst'.trans (hsame.trans hsecond'.symm)) hleft hright

/-- A call that goes on or fails keeps its entry. -/
theorem entry_setAccept (h : s.Serialized) (hc : s.acceptCalls k = some call) (phase : AcceptPhase)
    (hcalling : phase ≠ .calling) (hresult : phase ≠ .returned none) (id : List Char) (j : ℕ)
    (hj : s.results id = some j) :
    ∃ other, (s.setAccept k call phase).acceptCalls j = some other ∧ hexEncode other.initiatorIdentity = id ∧
      other.phase ≠ .calling ∧ other.phase ≠ .returned none := by
  obtain ⟨other, hother, hid, hphase⟩ := h.entry id j hj
  by_cases hjk : j = k
  · subst hjk
    obtain rfl := Option.some.inj (hc.symm.trans hother)
    exact ⟨_, acceptCalls_setAccept_self, hid, hcalling, hresult⟩
  · exact ⟨other, (acceptCalls_setAccept_of_ne hjk).trans hother, hid, hphase⟩

/-- A call that has registered goes on or fails. -/
theorem setAccept (h : s.Serialized) (hc : s.acceptCalls k = some call)
    (hreturned : call.phase.isReturned = false) (hcalling : phase ≠ .calling)
    (hresult : phase ≠ .returned none) : (s.setAccept k call phase).Serialized where
  noReadAccept := h.noReadAccept
  noAccept := h.noAccept
  noPassAccept := h.noPassAccept
  single := h.single_setAccept hc hreturned
  entry := h.entry_setAccept hc phase hcalling hresult
  passing := h.passing

/-- The handler registers a call. -/
theorem waitResult (h : s.Serialized) (hc : s.acceptCalls k = some call)
    (hready : s.handler = .ready) (hphase : call.phase = .calling) :
    Serialized { s.setAccept k call .writing with
      results := Function.update s.results (hexEncode call.initiatorIdentity) (some k) } where
  noReadAccept := h.noReadAccept
  noAccept := h.noAccept
  noPassAccept := h.noPassAccept
  single := h.single_setAccept hc (by rw [hphase]; rfl)
  entry id j hj := by
    simp only [Function.update_apply] at hj
    split at hj
    · next hid =>
      obtain rfl := Option.some.inj hj
      exact ⟨_, acceptCalls_setAccept_self, hid.symm, nofun, nofun⟩
    · exact h.entry_setAccept hc .writing nofun nofun id j hj
  passing j result hj := by cases hready.symm.trans hj

/-- A call receives its result, and its only entry is removed. -/
theorem passResult (h : s.Serialized) {result : SessionResult}
    (hhandler : s.handler = .result k result) (hc : s.acceptCalls k = some call)
    (hreturned : call.phase.isReturned = false) :
    (s.passResult k call result).Serialized where
  noReadAccept := h.noReadAccept
  noAccept := h.noAccept
  noPassAccept := nofun
  single := h.single_setAccept hc hreturned
  entry id j hj := by
    simp only [Waits.passResult, Function.update_apply, Option.ite_none_left_eq_some] at hj
    obtain ⟨hid, hj⟩ := hj
    obtain ⟨other, hother, hother', hphase⟩ := h.entry id j hj
    have hjk : j ≠ k := by
      rintro rfl
      obtain ⟨receiver, hreceiver, hpeer, -⟩ := h.entry _ j (h.passing j result hhandler)
      obtain rfl := Option.some.inj (hother.symm.trans hreceiver)
      exact hid (hother'.symm.trans hpeer)
    exact ⟨other, (acceptCalls_setAccept_of_ne hjk).trans hother, hother', hphase⟩
  passing := nofun

end SetAccept

/-- The handler looks for the call that a result is for. -/
theorem newResult (h : s.Serialized) {k : ℕ} {result : SessionResult}
    (hk : s.results (hexEncode result.peerIdentity) = some k) :
    Serialized { s with handler := .result k result } where
  noReadAccept := h.noReadAccept
  noAccept := h.noAccept
  noPassAccept := nofun
  single := h.single
  entry := h.entry
  passing j found hj := by
    obtain ⟨rfl, rfl⟩ := SessionHandler.result.inj hj
    exact hk

/-- The handler panics. -/
theorem panic (h : s.Serialized) : Serialized { s with handler := .panicked } :=
  { h with noPassAccept := nofun, passing := nofun }

/-- A step keeps the calls serialized if a call starts only after all those for its initiator have
returned. -/
theorem step (h : s.Serialized) (hserial : s.Serial label) (hstep : s.stepAt label = some t) :
    t.Serialized := by
  obtain ⟨isDone, event⟩ := label
  cases step_effect hstep with
  | readAccept => exact absurd hserial id
  | accept hnew => exact h.accept hnew hserial
  | waitAccept hc | acceptPanics hc | leaveReadAccept hc => exact nomatch hc.symm.trans (h.noReadAccept _)
  | newAccept _ hk => exact nomatch hk.symm.trans (h.noAccept _)
  | passAccept hhandler => exact absurd hhandler (h.noPassAccept _ _)
  | dropAccept | dropResult => exact h
  | waitResult hc hready hphase => exact h.waitResult hc hready hphase
  | resultPanics => exact h.panic
  | newResult _ hk => exact h.newResult hk
  | passResult hhandler hc hphase => exact h.passResult hhandler hc (by rw [hphase]; rfl)
  | write hc hphase | writeFails hc hphase | leaveAccept hc _ hphase =>
    exact h.setAccept hc (by rw [hphase]; rfl) (by simp) (by simp)

/-- In a run in which calls for an initiator do not overlap, they are serialized. -/
theorem of_reached (h : Reached stepAt Serial Waits.new s) : s.Serialized :=
  h.invariant Serialized .new fun _ _ _ hs hserial hstep => hs.step hserial hstep

/-- An entry is stale exactly if its call has returned. -/
theorem stale_iff (h : s.Serialized) {identity : Bytes} {k : ℕ} {call : AcceptCall}
    (hk : s.results (hexEncode identity) = some k) (hc : s.acceptCalls k = some call) :
    s.Stale identity ↔ call.phase.isReturned = true := by
  constructor
  · rintro ⟨j, other, err, hj, hother, hphase⟩
    obtain rfl := Option.some.inj (hk.symm.trans hj)
    obtain rfl := Option.some.inj (hc.symm.trans hother)
    rw [hphase]
    rfl
  · intro hreturned
    obtain ⟨other, hother, -, -, hresult⟩ := h.entry _ k hk
    obtain rfl := Option.some.inj (hc.symm.trans hother)
    cases hphase : call.phase with
    | returned err =>
      cases err with
      | none => exact absurd hphase hresult
      | some err => exact ⟨k, call, err, hk, hc, hphase⟩
    | _ => simp [hphase, AcceptPhase.isReturned] at hreturned

/-- A registration that finds an entry finds a stale one: the call of the entry has returned. -/
theorem stale_of_entry (h : s.Serialized) {k other : ℕ} {call : AcceptCall}
    (hc : s.acceptCalls k = some call) (hphase : call.phase = .calling)
    (hentry : s.results (hexEncode call.initiatorIdentity) = some other) :
    s.Stale call.initiatorIdentity := by
  obtain ⟨found, hfound, hid, hcalling, -⟩ := h.entry _ other hentry
  rw [h.stale_iff hentry hfound]
  by_contra hreturned
  have hsame : other = k := h.single other k found call hfound hc (hexEncode_injective hid)
    (Bool.eq_false_of_not_eq_true hreturned) (by rw [hphase]; rfl)
  subst hsame
  obtain rfl := Option.some.inj (hc.symm.trans hfound)
  exact hcalling hphase

end Serialized

/-- An identity without an entry has no stale one. -/
theorem not_stale_of_none {identity : Bytes} (hnone : s.results (hexEncode identity) = none) :
    ¬ s.Stale identity := by
  rintro ⟨k, call, err, hk, -, -⟩
  cases hnone.symm.trans hk

/-- A handler that is ready is healthy. -/
theorem healthy_of_ready (hready : s.handler = .ready) : s.Healthy := by
  constructor
  · rw [hready]
    nofun
  · rintro ⟨k, result, call, hhandler, -, -⟩
    cases hready.symm.trans hhandler

/-- A step of a call breaks the handler exactly if the call returns while the handler sends to
it. -/
theorem healthy_setAccept_iff (h : s.Healthy) {k : ℕ} {call : AcceptCall} {phase : AcceptPhase} :
    (s.setAccept k call phase).Healthy ↔ (phase.isReturned = true → ∀ result, s.handler ≠ .result k result) := by
  constructor
  · rintro ⟨-, hstuck⟩ hreturned result hhandler
    exact hstuck ⟨k, result, _, hhandler, acceptCalls_setAccept_self, hreturned⟩
  · intro hsends
    refine ⟨h.1, ?_⟩
    rintro ⟨j, result, other, hhandler, hother, hreturned⟩
    by_cases hj : j = k
    · subst hj
      obtain rfl := Option.some.inj (acceptCalls_setAccept_self.symm.trans hother)
      exact hsends hreturned result hhandler
    · exact h.2 ⟨j, result, other, hhandler, (acceptCalls_setAccept_of_ne hj).symm.trans hother, hreturned⟩

/-- A step from a healthy state leads to a healthy one exactly if it is usable. -/
theorem healthy_step_iff (h : s.Serialized) (hhealthy : s.Healthy) (hserial : s.Serial label)
    (hstep : s.stepAt label = some t) : t.Healthy ↔ s.Usable label := by
  obtain ⟨isDone, event⟩ := label
  cases step_effect hstep with
  | readAccept => exact absurd hserial id
  | waitAccept hc | acceptPanics hc | leaveReadAccept hc => exact nomatch hc.symm.trans (h.noReadAccept _)
  | newAccept _ hk => exact nomatch hk.symm.trans (h.noAccept _)
  | passAccept hhandler => exact absurd hhandler (h.noPassAccept _ _)
  | dropAccept => exact iff_of_true hhealthy trivial
  | dropResult _ hnone => exact iff_of_true hhealthy (not_stale_of_none hnone)
  | passResult => exact iff_of_true (healthy_of_ready rfl) trivial
  | accept => exact iff_of_true ((healthy_setAccept_iff hhealthy).mpr nofun) trivial
  | waitResult hc hready _ hnone =>
    refine iff_of_true (healthy_of_ready hready) ?_
    intro call hcall
    obtain rfl := Option.some.inj (hc.symm.trans hcall)
    exact not_stale_of_none hnone
  | resultPanics hc _ hphase hentry =>
    refine iff_of_false (fun hpanicked => hpanicked.1 rfl) ?_
    intro husable
    exact husable _ hc (h.stale_of_entry hc hphase hentry)
  | @newResult k result _ hk =>
    obtain ⟨call, hc, -⟩ := h.entry _ k hk
    refine Iff.trans ?_ (not_congr (h.stale_iff hk hc)).symm
    constructor
    · intro hsending hreturned
      exact hsending.2 ⟨k, result, call, rfl, hc, hreturned⟩
    · intro hreturned
      refine ⟨nofun, ?_⟩
      rintro ⟨j, _, other, hhandler, hother, hreturns⟩
      cases hhandler
      obtain rfl := Option.some.inj (hc.symm.trans hother)
      exact hreturned hreturns
  | write hc _ hnone =>
    refine iff_of_true ((healthy_setAccept_iff hhealthy).mpr nofun) ?_
    intro result call _ hcall
    obtain rfl := Option.some.inj (hc.symm.trans hcall)
    exact hnone
  | writeFails hc _ herr =>
    rw [healthy_setAccept_iff hhealthy]
    constructor
    · intro hsends result call hhandler _
      exact absurd hhandler (hsends rfl result)
    · intro husable _ result hhandler
      cases herr.symm.trans (husable result _ hhandler hc)
  | leaveAccept =>
    rw [healthy_setAccept_iff hhealthy]
    exact ⟨fun hsends => hsends rfl, fun husable _ => husable⟩

/-- A handler that sends to a call that has returned waits forever. -/
theorem Stuck.step (h : s.Stuck) (hstep : s.stepAt label = some t) : t.Stuck := by
  obtain ⟨k, result, call, hhandler, hc, hreturned⟩ := h
  have hkeep {j : ℕ} {other : AcceptCall} {phase : AcceptPhase} (hne : j ≠ k) : (s.setAccept j other phase).Stuck :=
    ⟨k, result, call, hhandler, (acceptCalls_setAccept_of_ne hne.symm).trans hc, hreturned⟩
  have hbusy : s.handler ≠ .ready := by
    rw [hhandler]
    nofun
  have hother {j : ℕ} {other : AcceptCall} (hj : s.acceptCalls j = some other)
      (hphase : other.phase.isReturned = false) : j ≠ k := by
    rintro rfl
    obtain rfl := Option.some.inj (hc.symm.trans hj)
    cases hreturned.symm.trans hphase
  obtain ⟨isDone, event⟩ := label
  cases step_effect hstep with
  | readAccept | leaveReadAccept => exact ⟨k, result, call, hhandler, hc, hreturned⟩
  | waitAccept _ hready | acceptPanics _ hready | waitResult _ hready | resultPanics _ hready | newAccept hready
  | dropAccept hready | newResult hready | dropResult hready => exact absurd hready hbusy
  | passAccept hpass => exact nomatch hhandler.symm.trans hpass
  | passResult hpass hj hphase =>
    cases hhandler.symm.trans hpass
    exact absurd rfl (hother hj (by rw [hphase]; rfl))
  | accept hnew =>
    refine hkeep ?_
    rintro rfl
    cases hc.symm.trans hnew
  | write hj hphase | writeFails hj hphase | leaveAccept hj _ hphase => exact hkeep (hother hj (by rw [hphase]; rfl))

/-- Calls of `Accept` that may fail, where those for one initiator do not overlap, interleaved with
any messages of the server. The session handler neither panics nor sends to a call that has returned
while it takes no registration and no result for an identity whose entry a failed call has left, and
no call fails while the handler sends to it. This is exact for every step, and a handler that sends
to a call that has returned does so forever. -/
theorem failed_accepts (s : Waits) :
    (Reached stepAt (fun s label => s.Serial label ∧ s.Usable label) new s → s.Healthy) ∧
    (Reached stepAt Serial new s → s.Healthy → ∀ label t, s.Serial label → s.stepAt label = some t →
      (t.Healthy ↔ s.Usable label)) ∧
    (s.Stuck → ∀ t, Reached stepAt anyStep s t → t.Stuck) := by
  refine ⟨?_, ?_, ?_⟩
  · intro hs
    have hboth : s.Serialized ∧ s.Healthy := by
      refine hs.invariant (fun s => s.Serialized ∧ s.Healthy) ⟨.new, healthy_of_ready rfl⟩ ?_
      rintro s label t ⟨hserialized, hhealthy⟩ ⟨hserial, husable⟩ hstep
      exact ⟨hserialized.step hserial hstep, (healthy_step_iff hserialized hhealthy hserial hstep).mpr husable⟩
    exact hboth.2
  · intro hs hhealthy label t hserial hstep
    exact healthy_step_iff (.of_reached hs) hhealthy hserial hstep
  · intro hstuck t ht
    exact ht.invariant Stuck hstuck fun _ _ _ h _ hstep => h.step hstep

/-- The state after the only acceptance has failed. -/
def afterFailure : Waits :=
  ((new.setAccept 0 ⟨[1], [], .calling⟩ .calling).waitResult 0 ⟨[1], [], .calling⟩).setAccept 0 ⟨[1], [], .writing⟩
    (.returned (some .eof))

/-- No call is in progress then. -/
theorem afterFailure_serial (k : ℕ) (initiator data : Bytes) :
    afterFailure.Serial (false, .accept k initiator data) := by
  intro j call hc _
  by_cases hj : j = 0
  · subst hj
    obtain rfl := Option.some.inj hc
    rfl
  · rw [afterFailure, acceptCalls_setAccept_of_ne hj] at hc
    cases (acceptCalls_setAccept_of_ne hj).symm.trans ((acceptCalls_setAccept_of_ne hj).symm.trans hc)

/-- After an acceptance for one initiator has failed, another one gets its result. -/
theorem failed_accepts_other_initiator :
    ∃ s, Reached stepAt (fun s label => s.Serial label ∧ s.Usable label) new s ∧
      s.acceptCalls 0 = some ⟨[1], [], .returned (some .eof)⟩ ∧ s.acceptCalls 1 = some ⟨[2], [], .returned none⟩ ∧
      s.Healthy := by
  have next {s t : Waits} (label : Bool × WaitEvent)
      (h : Reached stepAt (fun s label => s.Serial label ∧ s.Usable label) new s) (hserial : s.Serial label)
      (husable : s.Usable label) (hstep : s.stepAt label = some t) :
      Reached stepAt (fun s label => s.Serial label ∧ s.Usable label) new t := .next h ⟨hserial, husable⟩ hstep
  have hcalled := next (false, .accept 0 [1] []) .start (by intro k call hc; cases hc) trivial rfl
  have hregistered := next (false, .takeWaitResult 0) hcalled trivial (fun _ _ => not_stale_of_none rfl) rfl
  have hfailed : Reached _ _ new afterFailure :=
    next (false, .write 0 (some .eof)) hregistered trivial (by intro result call hc; cases hc) rfl
  have hagain := next (false, .accept 1 [2] []) hfailed (afterFailure_serial 1 [2] []) trivial rfl
  have hwaits := next (false, .takeWaitResult 1) hagain trivial ?_ rfl
  · have hwritten := next (false, .write 1 none) hwaits trivial (by intro result call hc; cases hc) rfl
    have htaken := next (false, .takeResult (.established [2])) hwritten trivial ?_ rfl
    · have hpassed := next (false, .pass) htaken trivial trivial rfl
      exact ⟨_, hpassed, rfl, rfl, (failed_accepts _).1 hpassed⟩
    · -- the entry of the second initiator is that of a call that waits
      rintro ⟨k, call, err, hk, hc, hphase⟩
      obtain rfl := Option.some.inj hk
      obtain rfl := Option.some.inj hc
      cases hphase
  · intro call hc
    obtain rfl := Option.some.inj hc
    exact not_stale_of_none rfl

/-- After an acceptance has failed, the next one for the same initiator makes the session handler
panic, and a result for this initiator makes it wait forever. -/
theorem failed_accept_breaks_handler :
    (∃ s, Reached stepAt Serial new s ∧ s.handler = .panicked) ∧ ∃ s, Reached stepAt Serial new s ∧ s.Stuck := by
  have haccept : stepAt new (false, .accept 0 [1] []) = some _ := rfl
  have hcalled : Reached stepAt Serial new _ := .next .start (by intro k call hc; cases hc) haccept
  have hfailed : Reached stepAt Serial new afterFailure :=
    hcalled.executeLabels [(false, .takeWaitResult 0), (false, .write 0 (some .eof))] (by simp [Serial]) rfl
  constructor
  · have haccept : stepAt afterFailure (false, .accept 1 [1] []) = some _ := rfl
    have hagain : Reached stepAt Serial new _ := .next hfailed (afterFailure_serial 1 [1] []) haccept
    exact ⟨_, hagain.executeLabels [(false, .takeWaitResult 1)] (by simp [Serial]) rfl, rfl⟩
  · exact ⟨_, hfailed.executeLabels [(false, .takeResult (.established [1]))] (by simp [Serial]) rfl,
      0, .established [1], _, rfl, rfl, rfl⟩

end Waits

end ProjektCore.Relay
