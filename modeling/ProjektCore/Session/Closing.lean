import Mathlib.Data.Option.Basic
import ProjektCore.Foundation.Runs
import ProjektCore.Session.Effect

/-!
# Data for a closed channel

Closing a channel ends its handler, but the broker keeps the channel in its table. Data that arrives
for it is handed to a handler that has exited, and the broker waits until the session is closed;
meanwhile it serves no other channel. As long as no such data is taken and no channel is closed
while the broker hands it a message, every message of the broker is received.
-/

namespace ProjektCore.Session

open Foundation

variable {M : Type} {protocols : Protocols M}

namespace SessionState

/-- Data is not for a closed channel, unless it cannot be decoded and is dropped. -/
def dataIsWelcome (protocols : Protocols M) (s : SessionState M) (data : Data) : Bool :=
  ((s.channels data.channelId).bind s.calls).all fun call =>
    !call.isClosed || !(call.handle.decode protocols data).isOk

/-- The broker takes no data for closed channels, and no channel is closed that it hands a message
to. -/
def keepsOpen (protocols : Protocols M) (s : SessionState M) : SessionEvent M → Bool
  | .takeMessage =>
    match s.reader with
    | .data data => s.dataIsWelcome protocols data
    | _ => true
  | .close k _ =>
    match s.broker with
    | .delivering j _ => j ≠ k
    | _ => true
  | _ => true

/-- The runs in which no data meets a closed channel. -/
def KeepsOpen (protocols : Protocols M) (s : SessionState M) (event : SessionEvent M) : Prop :=
  s.keepsOpen protocols event = true

instance (s : SessionState M) (event : SessionEvent M) : Decidable (s.KeepsOpen protocols event) :=
  inferInstanceAs (Decidable (_ = true))

/-- The broker hands its messages to open channels; a handler exits only after its channel is
closed. -/
structure Attended (s : SessionState M) : Prop where
  exited : ∀ k call, s.calls k = some call → call.hasExited = true → call.isClosed = true
  target : ∀ k message, s.broker = .delivering k message → ∃ call, s.calls k = some call ∧ call.isClosed = false

namespace Attended

variable {s t : SessionState M}

/-- Only the broker changes. -/
theorem congr (h : s.Attended) (hcalls : t.calls = s.calls)
    (hbroker : ∀ k m, t.broker = .delivering k m → s.broker = .delivering k m) : t.Attended where
  exited := by
    rw [hcalls]
    exact h.exited
  target k message hk := by
    rw [hcalls]
    exact h.target k message (hbroker k message hk)

/-- A call is made or changes. -/
theorem setCall (h : s.Attended) {k : ℕ} {call' : ChannelCall M}
    (hcalls : t.calls = (s.setCall k call').calls)
    (hexited : call'.hasExited = true → call'.isClosed = true)
    (hopen : ∀ m, s.broker = .delivering k m → call'.isClosed = false)
    (hbroker : ∀ k m, t.broker = .delivering k m → s.broker = .delivering k m) : t.Attended := by
  constructor
  · intro j other ho hexit
    rw [hcalls] at ho
    rcases setCall_cases ho with ⟨-, rfl⟩ | ⟨-, ho⟩
    · exact hexited hexit
    · exact h.exited j other ho hexit
  · intro j message hj
    have hj' := hbroker j message hj
    rw [hcalls]
    by_cases hne : j = k
    · subst hne
      exact ⟨call', s.setCall_self .., hopen message hj'⟩
    · obtain ⟨other, ho, hother⟩ := h.target j message hj'
      exact ⟨other, (s.setCall_of_ne _ hne).trans ho, hother⟩

/-- A call goes on without being closed. -/
theorem goOn (h : s.Attended) {k : ℕ} {call call' : ChannelCall M} (hc : s.calls k = some call)
    (hcalls : t.calls = (s.setCall k call').calls) (hclosed : call'.isClosed = call.isClosed)
    (hexited : call'.hasExited = call.hasExited)
    (hbroker : ∀ k m, t.broker = .delivering k m → s.broker = .delivering k m) : t.Attended := by
  refine h.setCall hcalls ?_ ?_ hbroker
  · rw [hexited, hclosed]
    exact h.exited k call hc
  · intro message hk
    obtain ⟨other, ho, hopen⟩ := h.target k message hk
    obtain rfl := Option.some.inj (hc.symm.trans ho)
    exact hclosed.trans hopen

/-- A new call has a channel that is not closed. -/
theorem newCall (h : s.Attended) {k : ℕ} (kind : CallKind) (p : ℤ) (i : ℕ)
    (hcalls : t.calls = (s.setCall k (.new kind p i)).calls) (hbroker : t.broker = s.broker) :
    t.Attended := by
  refine h.setCall hcalls ?_ (fun _ _ => rfl) ?_
  · intro hexited
    cases hexited
  · intro j message hj
    exact hbroker ▸ hj

/-- Steps that keep channels open keep the broker attended. -/
theorem step (h : s.Attended) {event : SessionEvent M} {sent : List Message}
    (hkeeps : s.KeepsOpen protocols event) (heffect : Effect protocols s event sent t) :
    t.Attended := by
  cases heffect with
  | openChannel => exact h.newCall _ _ _ rfl rfl
  | acceptChannel => exact h.newCall _ _ _ rfl rfl
  | waitAccept _ hc => exact h.goOn hc rfl rfl rfl fun _ _ h => h
  | waitOpen _ hc => exact h.goOn hc rfl rfl rfl fun _ _ h => h
  | @takeData data k call message hready hreader hk hc hmessage =>
    refine ⟨h.exited, ?_⟩
    intro j m hj
    obtain ⟨rfl, -⟩ := Broker.delivering.inj hj
    refine ⟨call, hc, ?_⟩
    simpa [KeepsOpen, keepsOpen, hreader, dataIsWelcome, hk, hc, hmessage, Except.isOk,
      Except.toBool] using hkeeps
  | takeAccept _ _ _ _ hc => exact h.goOn hc rfl rfl rfl fun _ _ h => h
  | register _ hc => exact h.goOn hc rfl rfl rfl fun _ _ h => h
  | passOpen _ hc => exact h.goOn hc rfl rfl rfl (by simp [opened])
  | passData _ hc => exact h.goOn hc rfl rfl rfl (by simp)
  | writeFails hc => exact h.goOn hc rfl rfl rfl fun _ _ h => h
  | writeOpen hc => exact h.goOn hc rfl rfl rfl fun _ _ h => h
  | writeAccept hc => exact h.goOn hc rfl rfl rfl fun _ _ h => h
  | proceed hc => exact h.goOn hc rfl rfl rfl fun _ _ h => h
  | write hc => exact h.goOn hc rfl rfl rfl fun _ _ h => h
  | read hc => exact h.goOn hc rfl rfl rfl fun _ _ h => h
  | leave hc => exact h.goOn hc rfl rfl rfl fun _ _ h => h
  | close hc =>
    refine h.setCall rfl (fun _ => rfl) ?_ fun _ _ h => h
    intro m hm
    simp [KeepsOpen, keepsOpen, hm] at hkeeps
  | exit hc hclosed =>
    refine h.setCall rfl (fun _ => hclosed) ?_ fun _ _ h => h
    intro m hm
    obtain ⟨other, ho, hopen⟩ := h.target _ m hm
    obtain rfl := Option.some.inj (hc.symm.trans ho)
    exact hopen
  | notWritten => exact h
  | panic => exact h.congr rfl (by simp)
  | takeOpen => exact h.congr rfl (by simp)
  | stopBroker => exact h.congr rfl (by simp)
  | _ => exact h.congr rfl fun _ _ h => h

end Attended

/-- The broker hands a message to a handler that has exited. -/
structure Stuck (k : ℕ) (message : M) (s : SessionState M) : Prop where
  broker : s.broker = .delivering k message
  exited : ∃ call, s.calls k = some call ∧ call.hasExited = true

namespace Stuck

variable {s t : SessionState M} {k : ℕ} {message : M}

/-- A call is made or changes; a handler that has exited does not come back. -/
theorem setCall (h : s.Stuck k message) {j : ℕ} {call' : ChannelCall M}
    (hcalls : t.calls = (s.setCall j call').calls) (hbroker : t.broker = s.broker)
    (hexited : ∀ call, s.calls j = some call → call.hasExited = true → call'.hasExited = true) :
    t.Stuck k message := by
  obtain ⟨call, hc, hexit⟩ := h.exited
  refine ⟨hbroker.trans h.broker, ?_⟩
  rw [hcalls]
  by_cases hj : k = j
  · subst hj
    exact ⟨call', s.setCall_self .., hexited call hc hexit⟩
  · exact ⟨call, (s.setCall_of_ne _ hj).trans hc, hexit⟩

/-- A broker that is stuck stays so until the session is closed. -/
theorem step (h : s.Stuck k message) {event : SessionEvent M} {sent : List Message}
    (heffect : Effect protocols s event sent t) (hdone : s.isDone = false) : t.Stuck k message := by
  have hbusy : s.broker ≠ .ready := by simp [h.broker]
  have hgoOn {j : ℕ} {call call' : ChannelCall M} (hc : s.calls j = some call)
      (hcalls : t.calls = (s.setCall j call').calls) (hbroker : t.broker = s.broker)
      (hexited : call'.hasExited = call.hasExited) : t.Stuck k message := by
    refine h.setCall hcalls hbroker ?_
    intro other ho hother
    obtain rfl := Option.some.inj (hc.symm.trans ho)
    exact hexited.trans hother
  cases heffect with
  | openChannel hnew => exact h.setCall rfl rfl (by simp [hnew])
  | acceptChannel hnew => exact h.setCall rfl rfl (by simp [hnew])
  | panic hready => exact absurd hready hbusy
  | waitAccept hready => exact absurd hready hbusy
  | waitOpen hready => exact absurd hready hbusy
  | dropData hready => exact absurd hready hbusy
  | dropOther hready => exact absurd hready hbusy
  | takeData hready => exact absurd hready hbusy
  | takeOpen hready => exact absurd hready hbusy
  | takeAccept hready => exact absurd hready hbusy
  | register hready => exact absurd hready hbusy
  | passOpen hbroker => exact absurd (h.broker.symm.trans hbroker) (by simp)
  | passData hbroker hc hexited =>
    obtain ⟨rfl, -⟩ := Broker.delivering.inj (h.broker.symm.trans hbroker)
    obtain ⟨call, hcall, hexit⟩ := h.exited
    obtain rfl := Option.some.inj (hc.symm.trans hcall)
    rw [hexited] at hexit
    cases hexit
  | stopBroker hclosed =>
    rw [hdone] at hclosed
    cases hclosed
  | writeFails hc => exact hgoOn hc rfl rfl rfl
  | writeOpen hc => exact hgoOn hc rfl rfl rfl
  | writeAccept hc => exact hgoOn hc rfl rfl rfl
  | proceed hc => exact hgoOn hc rfl rfl rfl
  | write hc => exact hgoOn hc rfl rfl rfl
  | read hc => exact hgoOn hc rfl rfl rfl
  | close hc => exact hgoOn hc rfl rfl rfl
  | leave hc => exact hgoOn hc rfl rfl rfl
  | exit => exact h.setCall rfl rfl fun _ _ _ => rfl
  | receive => exact ⟨h.broker, h.exited⟩
  | closeSession => exact ⟨h.broker, h.exited⟩
  | stopReader => exact ⟨h.broker, h.exited⟩
  | notWritten => exact h

/-- From a state in which the broker is stuck, it stays so until the session is closed. -/
theorem reached (h : s.Stuck k message)
    (hreached : Reached (SessionState.step protocols) anyStep s t) :
    t.isDone = true ∨ t.Stuck k message := by
  refine hreached.invariant (fun t => t.isDone = true ∨ t.Stuck k message) (.inr h) ?_
  intro t event u ht _ hstep
  have heffect := step_effect hstep
  cases hdone : t.isDone with
  | false =>
    rw [hdone] at ht
    exact .inr ((ht.resolve_left (by simp)).step heffect hdone)
  | true => exact .inl (heffect.isDone hdone)

end Stuck

/-- A new session is attended. -/
theorem attended_new (isInitiator : Bool) : Attended (M := M) (.new isInitiator) where
  exited k call hc := by cases hc
  target k message hk := by cases hk

end SessionState

/-- If no data meets a closed channel, the broker never waits for a handler that has exited:
whatever it hands to a channel is received, and the broker goes on. -/
theorem broker_attended (protocols : Protocols M) (isInitiator : Bool) (s : SessionState M)
    (h : Reached (SessionState.step protocols) (SessionState.KeepsOpen protocols) (.new isInitiator) s)
    (k : ℕ) (message : M) (hbroker : s.broker = .delivering k message) :
    (∃ call, s.calls k = some call ∧ call.hasExited = false) ∧
      ∃ t, s.step protocols .pass = some t ∧ t.broker = .ready := by
  have hattended : s.Attended :=
    h.invariant SessionState.Attended (SessionState.attended_new isInitiator) fun _ _ _ hs hkeeps hstep =>
      hs.step hkeeps (SessionState.step_effect hstep)
  obtain ⟨call, hc, hopen⟩ := hattended.target k message hbroker
  have hexited : call.hasExited = false := by
    rw [Bool.eq_false_iff]
    intro hexit
    rw [hattended.exited k call hc hexit] at hopen
    cases hopen
  refine ⟨⟨call, hc, hexited⟩,
    { s.setCall k { call with queue := call.queue ++ [message] } with broker := .ready }, ?_, rfl⟩
  simp [SessionState.step, hbroker, hc, hexited]

/-- The peer opens a channel with the number two, which is accepted and handed to the broker. -/
def joinedChannel : List (SessionEvent Bytes) :=
  [.acceptChannel 0 1, .takeWait 0, .receive ⟨some (.openChannel 2 1)⟩, .takeMessage, .pass, .writeCall 0 none,
    .takeChannel 0]

/-- The broker takes data of the peer for that channel. -/
def incomingData : List (SessionEvent Bytes) := [.receive ⟨some (.data ⟨2, 0, [7]⟩)⟩, .takeMessage]

/-- Data for an open channel is handed over. -/
theorem broker_attended_one :
    ∃ s, Reached (SessionState.step ⟨fun _ => plainCodec, 100⟩) (SessionState.KeepsOpen ⟨fun _ => plainCodec, 100⟩)
        (.new true) s ∧ s.broker = .delivering 0 [7] ∧
      ∃ t, s.step ⟨fun _ => plainCodec, 100⟩ .pass = some t ∧ t.broker = .ready := by
  obtain ⟨s, hrun⟩ : ∃ s, execute (SessionState.step ⟨fun _ => plainCodec, 100⟩)
      (SessionState.KeepsOpen ⟨fun _ => plainCodec, 100⟩) (joinedChannel ++ incomingData) (.new true) = some s :=
    ⟨_, rfl⟩
  have hbroker : (execute (SessionState.step ⟨fun _ => plainCodec, 100⟩)
      (SessionState.KeepsOpen ⟨fun _ => plainCodec, 100⟩) (joinedChannel ++ incomingData) (.new true)).map
        SessionState.broker = some (.delivering 0 [7]) := rfl
  rw [hrun, Option.map_some, Option.some.injEq] at hbroker
  have hreached := reached_of_execute _ hrun
  exact ⟨s, hreached, hbroker, (broker_attended _ true s hreached 0 [7] hbroker).2⟩

/-- Data for a channel that was closed blocks the broker until the session is closed. -/
theorem closed_channel_blocks :
    ∃ s, Reached (SessionState.step ⟨fun _ => plainCodec, 100⟩) anyStep (.new true) s ∧ s.isDone = false ∧
      s.broker = .delivering 0 [7] ∧ (∃ call, s.calls 0 = some call ∧ call.hasExited = true) ∧
      ∀ t, Reached (SessionState.step ⟨fun _ => plainCodec, 100⟩) anyStep s t →
        t.isDone = true ∨ t.broker = .delivering 0 [7] := by
  refine ⟨_, reached_of_execute (joinedChannel ++ [.close 0 none, .exit 0] ++ incomingData) rfl, rfl, rfl,
    ⟨_, rfl, rfl⟩, ?_⟩
  intro t ht
  exact Or.imp_right SessionState.Stuck.broker (SessionState.Stuck.reached ⟨rfl, _, rfl, rfl⟩ ht)

end ProjektCore.Session
