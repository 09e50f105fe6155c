import ProjektCore.Session.Numbers
import ProjektCore.Session.Registry

/-!
# The panics of the broker

The broker panics if a call registers for what is already awaited or open, or if a channel has the
number of one that is open. A session whose channels are in order gives it no reason. But the peer
chooses the numbers of the channels that it opens: with one that the session will give to a call of
its own it makes that call crash the broker.
-/

namespace ProjektCore.Session

open Foundation

variable {M : Type} {protocols : Protocols M}

namespace SessionState

variable {s t : SessionState M}

/-- Why the broker panics: a registration for what is awaited or open, or a channel whose number is
taken. -/
inductive PanicCause (s : SessionState M) : Prop
  | waitAccept (k : ℕ) (call : ChannelCall M) : s.calls k = some call → call.kind = .opener →
      call.phase = .registering → (s.accepts call.handle.id).isSome = true ∨ (s.channels call.handle.id).isSome = true →
      PanicCause s
  | waitOpen (k : ℕ) (call : ChannelCall M) : s.calls k = some call → call.kind = .acceptor →
      call.phase = .registering → (s.opens call.handle.protocolId).isSome = true → PanicCause s
  | register (k : ℕ) (call : ChannelCall M) : s.calls k = some call → call.phase = .joining →
      (s.channels call.handle.id).isSome = true → PanicCause s

/-- Taking a message does not make the broker panic. -/
theorem takeMessage_ne_panicked (h : s.step protocols .takeMessage = some t)
    (hrunning : s.broker ≠ .panicked) :
    t.broker ≠ .panicked := by
  simp only [step, Option.ite_none_right_eq_some] at h
  obtain ⟨-, h⟩ := h
  split at h
  · obtain rfl := Option.some.inj h
    unfold inData
    split
    · exact hrunning
    · split
      · exact hrunning
      · split <;> simp [hrunning]
  · obtain rfl := Option.some.inj h
    unfold inOpen
    split
    · exact hrunning
    · split <;> simp [hrunning]
  · obtain rfl := Option.some.inj h
    unfold inAccept
    split
    · exact hrunning
    · split
      · exact hrunning
      · split <;> exact hrunning
  · cases h
  · cases h

/-- A broker that panics has one of the causes. -/
theorem panicCause_of_step {event : SessionEvent M} (h : s.step protocols event = some t)
    (hrunning : s.broker ≠ .panicked) (hpanic : t.broker = .panicked) : s.PanicCause := by
  cases event with
  | takeWait k =>
    simp only [step, Option.bind_eq_bind, Option.bind_eq_some_iff,
      Option.ite_none_right_eq_some] at h
    obtain ⟨call, hc, ⟨-, hphase⟩, h⟩ := h
    split at h
    · rename_i hkind
      obtain rfl := Option.some.inj h
      unfold SessionState.waitAccept at hpanic
      split at hpanic
      · rename_i htaken
        exact .waitAccept k call hc hkind hphase (Bool.or_eq_true _ _ ▸ htaken)
      · exact absurd hpanic hrunning
    · rename_i hkind
      obtain rfl := Option.some.inj h
      unfold SessionState.waitOpen at hpanic
      split at hpanic
      · rename_i htaken
        exact .waitOpen k call hc hkind hphase htaken
      · exact absurd hpanic hrunning
  | takeChannel k =>
    simp only [step, Option.bind_eq_bind, Option.bind_eq_some_iff, Option.ite_none_right_eq_some,
      Option.some.injEq] at h
    obtain ⟨call, hc, ⟨-, hphase⟩, rfl⟩ := h
    unfold SessionState.register at hpanic
    split at hpanic
    · rename_i htaken
      exact .register k call hc hphase htaken
    · exact absurd hpanic hrunning
  | takeMessage => exact absurd hpanic (takeMessage_ne_panicked h hrunning)
  | pass =>
    refine absurd hpanic ?_
    simp only [step] at h
    split at h
    · simp only [Option.bind_eq_bind, Option.bind_eq_some_iff, Option.ite_none_right_eq_some,
        Option.some.injEq] at h
      obtain ⟨call, -, -, rfl⟩ := h
      simp [opened]
    · simp only [Option.bind_eq_bind, Option.bind_eq_some_iff, Option.ite_none_left_eq_some,
        Option.some.injEq] at h
      obtain ⟨call, -, -, rfl⟩ := h
      simp
    · cases h
    · cases h
    · cases h
  | _ =>
    -- the other steps leave the broker alone or stop it
    refine absurd hpanic ?_
    simp only [step, Option.bind_eq_bind, Option.bind_eq_some_iff] at h
    grind [setCall]

namespace Orderly

/-- The call of a registered channel has its number. -/
theorem claims_of_channels (hregistry : s.Registry) {i k : ℕ} (hk : s.channels i = some k) :
    s.claims k = some i ∧ ∀ call, s.calls k = some call → call.phase = .returned := by
  obtain ⟨call, hc, hphase, hid⟩ := hregistry.registered i k hk
  constructor
  · rw [claims_eq hc]
    cases hkind : call.kind with
    | opener => rw [ChannelCall.claimed_opener hkind, hid]
    | acceptor => rw [ChannelCall.claimed_acceptor hkind, hphase, CallPhase.isTold, if_pos rfl, hid]
  · intro other ho
    obtain rfl := Option.some.inj (hc.symm.trans ho)
    exact hphase

/-- A number that a call has is not registered for another one. -/
theorem channels_eq_none (h : s.Orderly) (hregistry : s.Registry) {k i : ℕ} {call : ChannelCall M}
    (hc : s.calls k = some call) (hclaimed : call.claimed = some i)
    (hphase : call.phase ≠ .returned) :
    s.channels i = none := by
  cases hj : s.channels i with
  | none => rfl
  | some j =>
    obtain ⟨hclaims, hreturned⟩ := claims_of_channels hregistry hj
    obtain rfl := h.unique j k i hclaims ((claims_eq hc).trans hclaimed)
    exact absurd (hreturned call hc) hphase

/-- A session whose channels are in order has no reason to panic. -/
theorem no_panicCause (h : s.Orderly) (hregistry : s.Registry) : ¬ s.PanicCause := by
  intro hcause
  cases hcause with
  | waitAccept k call hc hkind hphase htaken =>
    have hclaimed := ChannelCall.claimed_opener hkind
    rcases htaken with haccepts | hchannels
    · obtain ⟨j, hj⟩ := Option.isSome_iff_exists.mp haccepts
      obtain ⟨other, ho, hopener, hid, hnot⟩ := h.accepts _ j hj
      have hother : s.claims j = some call.handle.id := by
        rw [claims_eq ho, ChannelCall.claimed_opener hopener, hid]
      obtain rfl := h.unique j k _ hother ((claims_eq hc).trans hclaimed)
      obtain rfl := Option.some.inj (hc.symm.trans ho)
      exact hnot hphase
    · have hnone := h.channels_eq_none hregistry hc hclaimed (by simp [hphase])
      simp [hnone] at hchannels
  | waitOpen k call hc hkind hphase htaken =>
    have hnone := h.registering k call hc hkind hphase
    simp [hnone] at htaken
  | register k call hc hphase htaken =>
    have hclaimed : call.claimed = some call.handle.id := by
      cases hkind : call.kind with
      | opener => exact ChannelCall.claimed_opener hkind
      | acceptor => rw [ChannelCall.claimed_acceptor hkind, hphase, CallPhase.isTold, if_pos rfl]
    have hnone := h.channels_eq_none hregistry hc hclaimed (by simp [hphase])
    simp [hnone] at htaken

end Orderly

end SessionState

/-- If no protocol is awaited twice, the peer's numbers do not clash and the session's own do not
overflow, the broker does not panic, whatever messages the peer sends. -/
theorem broker_never_panics (protocols : Protocols M) (isInitiator : Bool) (s : SessionState M)
    (h : Reached (SessionState.step protocols) SessionState.KeepsOrder (.new isInitiator) s) :
    s.broker ≠ .panicked := by
  have hall : s.Orderly ∧ s.Registry ∧ s.broker ≠ .panicked := by
    refine h.invariant (fun s => s.Orderly ∧ s.Registry ∧ s.broker ≠ .panicked)
      ⟨SessionState.orderly_new isInitiator, SessionState.registry_new isInitiator, by simp [SessionState.new]⟩ ?_
    rintro s event t ⟨horderly, hregistry, hrunning⟩ ⟨hawaits, hnumbers⟩ hstep
    have heffect := SessionState.step_effect hstep
    refine ⟨horderly.step hawaits hnumbers heffect, hregistry.step heffect, ?_⟩
    intro hpanic
    exact horderly.no_panicCause hregistry (SessionState.panicCause_of_step hstep hrunning hpanic)
  exact hall.2.2

/-- A first call to accept a channel. -/
theorem awaitsOnce_new (isInitiator : Bool) (k : ℕ) (p : ℤ) :
    SessionState.AwaitsOnce (M := M) (.new isInitiator) (.acceptChannel k p) :=
  ⟨rfl, fun k call hc => by cases hc⟩

/-- The peer opens a channel with a number of its own, which is accepted, and the session opens
another. -/
theorem broker_never_panics_two_channels :
    ∃ s, Reached (SessionState.step ⟨fun _ => plainCodec, 100⟩) SessionState.KeepsOrder (.new true) s ∧
      s.channels 2 = some 0 ∧ s.accepts 1 = some 1 ∧ s.broker ≠ .panicked := by
  have hcalled : Reached (SessionState.step ⟨fun _ => plainCodec, 100⟩) SessionState.KeepsOrder (.new true)
      (SessionState.setCall (.new true) 0 (.new .acceptor 1 0)) :=
    .next .start ⟨awaitsOnce_new true 0 1, trivial⟩ rfl
  have hreceived := hcalled.executeLabels [.takeWait 0, .receive ⟨some (.openChannel 2 1)⟩]
    (by simp [SessionState.KeepsOrder, SessionState.AwaitsOnce, SessionState.NumbersApart]) rfl
  have hnumbers : ∀ received, execute (SessionState.step ⟨fun _ => plainCodec, 100⟩) anyStep
      [.takeWait 0, .receive ⟨some (.openChannel 2 1)⟩] (.setCall (.new true) 0 (.new .acceptor 1 0)) = some received →
      received.KeepsOrder .takeMessage := by
    intro received hrun
    obtain rfl := Option.some.inj hrun
    refine ⟨trivial, ?_⟩
    intro i p hreader _ _
    obtain ⟨rfl, rfl⟩ := Reader.inOpen.inj hreader
    refine ⟨by decide, ?_⟩
    intro k call hc _ htold
    rcases SessionState.setCall_cases hc with ⟨-, rfl⟩ | ⟨-, hc⟩
    · cases htold
    · rcases SessionState.setCall_cases hc with ⟨-, rfl⟩ | ⟨-, hc⟩
      · cases htold
      · cases hc
  have htaken := Reached.next hreceived (hnumbers _ rfl) rfl
  have hjoined := htaken.executeLabels [.pass, .writeCall 0 none, .takeChannel 0]
    (by simp [SessionState.KeepsOrder, SessionState.AwaitsOnce, SessionState.NumbersApart]) rfl
  have hbound : ∀ joined : SessionState Bytes, joined.nextId = 1 → joined.KeepsOrder (.openChannel 1 5) := by
    intro joined hnext
    refine ⟨trivial, ?_⟩
    change joined.nextId + 2 < 2 ^ 64
    omega
  have hopened := Reached.next hjoined (hbound _ rfl) rfl
  have hwaits := hopened.executeLabels [.takeWait 1]
    (by simp [SessionState.KeepsOrder, SessionState.AwaitsOnce, SessionState.NumbersApart]) rfl
  exact ⟨_, hwaits, rfl, rfl, broker_never_panics _ true _ hwaits⟩

/-- The peer opens a channel with the number that the session then gives to a call of its own. -/
theorem own_number_panics :
    ∃ s, Reached (SessionState.step ⟨fun _ => plainCodec, 100⟩) SessionState.AwaitsOnce (.new true) s ∧
      s.broker = .panicked := by
  have hcalled : Reached (SessionState.step ⟨fun _ => plainCodec, 100⟩) SessionState.AwaitsOnce (.new true)
      (SessionState.setCall (.new true) 0 (.new .acceptor 1 0)) := .next .start (awaitsOnce_new true 0 1) rfl
  refine ⟨_, hcalled.executeLabels [.takeWait 0, .receive ⟨some (.openChannel 1 1)⟩, .takeMessage, .pass,
    .writeCall 0 none, .takeChannel 0, .openChannel 1 5, .takeWait 1] ?_ rfl, rfl⟩
  simp [SessionState.AwaitsOnce]

end ProjektCore.Session
