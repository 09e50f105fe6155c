import ProjektCore.Session.Effect

/-!
# The table of channels of a session

The broker's table has exactly the channels that `OpenChannel` and `AcceptChannel` have returned.
The channel that is registered for a number is described by its handle, by its messages (those
queued, those written and those read) and by whether its handler has exited.
-/

namespace ProjektCore.Session

variable {M : Type} {protocols : Protocols M}

/-- A channel and its messages. -/
structure ChannelLog (M : Type) where
  handle : ChannelHandle
  queue : List M
  written : List M
  read : List M
  hasExited : Bool

/-- The channel of a call and its messages. -/
def ChannelCall.log (call : ChannelCall M) : ChannelLog M :=
  ⟨call.handle, call.queue, call.written, call.read, call.hasExited⟩

namespace SessionState

/-- The channel that is registered for a number. -/
def logAt (s : SessionState M) (i : ℕ) : Option (ChannelLog M) :=
  (s.channels i).bind fun k => (s.calls k).map ChannelCall.log

/-- The handle of the channel that is registered for a number. -/
def handleAt (s : SessionState M) (i : ℕ) :
    Option ChannelHandle := (s.logAt i).map ChannelLog.handle

/-- The table of channels has exactly the channels that were returned, and the other calls have no
messages. -/
structure Registry (s : SessionState M) : Prop where
  registered : ∀ i k, s.channels i = some k →
    ∃ call, s.calls k = some call ∧ call.phase = .returned ∧ call.handle.id = i
  returned : ∀ k call, s.calls k = some call → call.phase = .returned → s.channels call.handle.id = some k
  fresh : ∀ k call, s.calls k = some call → call.phase ≠ .returned →
    call.read = [] ∧ call.queue = [] ∧ call.written = []
  delivering : ∀ k message, s.broker = .delivering k message → ∃ i, s.channels i = some k

variable {s t : SessionState M}

/-- Replacing a call by one with the same messages does not change the channels. -/
theorem logAt_same {k : ℕ} {call call' : ChannelCall M} (hc : s.calls k = some call)
    (hcalls : t.calls = (s.setCall k call').calls) (hlog : call'.log = call.log)
    (hchannels : t.channels = s.channels) : t.logAt = s.logAt := by
  funext i
  rw [logAt, logAt, hchannels, hcalls]
  cases s.channels i with
  | none => rfl
  | some j =>
    by_cases hj : j = k
    · subst hj
      simp only [Option.bind_some, s.setCall_self, hc, Option.map_some, hlog]
    · simp only [Option.bind_some, s.setCall_of_ne call' hj]

namespace Registry

/-- A call that has not been returned is not registered. -/
theorem channels_ne (h : s.Registry) {k : ℕ}
    (hc : ∀ call, s.calls k = some call → call.phase ≠ .returned) (i : ℕ) :
    s.channels i ≠ some k := by
  intro hi
  obtain ⟨call, hcall, hphase, -⟩ := h.registered i k hi
  exact hc call hcall hphase

/-- Replacing a call that is not registered does not change the channels. -/
theorem logAt_goOn (h : s.Registry) {k : ℕ} {call' : ChannelCall M}
    (hc : ∀ call, s.calls k = some call → call.phase ≠ .returned)
    (hcalls : t.calls = (s.setCall k call').calls) (hchannels : t.channels = s.channels) :
    t.logAt = s.logAt := by
  funext i
  rw [logAt, logAt, hchannels, hcalls]
  cases hi : s.channels i with
  | none => rfl
  | some j =>
    have hj : j ≠ k := by
      rintro rfl
      exact h.channels_ne hc i hi
    exact congrArg (Option.map ChannelCall.log) (s.setCall_of_ne call' hj)

/-- Replacing a call that is registered changes its channel. -/
theorem logAt_setReturned (h : s.Registry) {k : ℕ} {call call' : ChannelCall M}
    (hc : s.calls k = some call) (hphase : call.phase = .returned)
    (hcalls : t.calls = (s.setCall k call').calls) (hchannels : t.channels = s.channels) :
    t.logAt = Function.update s.logAt call.handle.id (some call'.log) := by
  funext i
  rw [logAt, hchannels, hcalls, Function.update_apply]
  split
  · rename_i hi
    rw [hi, h.returned k call hc hphase, Option.bind_some, s.setCall_self]
    rfl
  · rename_i hi
    rw [logAt]
    cases hk : s.channels i with
    | none => rfl
    | some j =>
      have hj : j ≠ k := by
        rintro rfl
        obtain ⟨other, ho, -, hid⟩ := h.registered i j hk
        exact hi (hid ▸ Option.some.inj (ho.symm.trans hc) ▸ rfl)
      simp only [Option.bind_some, s.setCall_of_ne call' hj]

/-- Registering a call adds its channel. -/
theorem logAt_register (h : s.Registry) {k : ℕ} {call call' : ChannelCall M}
    (hc : s.calls k = some call) (hphase : call.phase ≠ .returned)
    (hcalls : t.calls = (s.setCall k call').calls)
    (hchannels : t.channels = Function.update s.channels call.handle.id (some k)) :
    t.logAt = Function.update s.logAt call.handle.id (some call'.log) := by
  funext i
  rw [logAt, hchannels, hcalls, Function.update_apply, Function.update_apply]
  split
  · rw [Option.bind_some, s.setCall_self]
    rfl
  · rw [logAt]
    cases hk : s.channels i with
    | none => rfl
    | some j =>
      have hj : j ≠ k := by
        rintro rfl
        have hnot : ∀ call, s.calls j = some call → call.phase ≠ .returned := fun other ho =>
          Option.some.inj (hc.symm.trans ho) ▸ hphase
        exact h.channels_ne hnot i hk
      simp only [Option.bind_some, s.setCall_of_ne call' hj]

/-- The channel of a call that has been returned. -/
theorem logAt_eq (h : s.Registry) {k : ℕ} {call : ChannelCall M} (hc : s.calls k = some call)
    (hphase : call.phase = .returned) : s.logAt call.handle.id = some call.log := by
  rw [logAt, h.returned k call hc hphase, Option.bind_some, hc]
  rfl

/-- A channel that is registered has its number. -/
theorem handle_id (h : s.Registry) {i : ℕ} {log : ChannelLog M} (hi : s.logAt i = some log) :
    log.handle.id = i := by
  simp only [logAt, Option.bind_eq_some_iff, Option.map_eq_some_iff] at hi
  obtain ⟨k, hk, call, hc, rfl⟩ := hi
  obtain ⟨call', hc', -, hid⟩ := h.registered i k hk
  exact Option.some.inj (hc.symm.trans hc') ▸ hid

/-- The ends of a channel that speak the same protocol have the same handle. -/
theorem handle_eq (h : s.Registry) (ht : t.Registry) {i : ℕ} {c c' : ChannelHandle}
    (hc : s.handleAt i = some c) (hc' : t.handleAt i = some c')
    (hprotocol : c'.protocolId = c.protocolId) : c' = c := by
  rw [handleAt, Option.map_eq_some_iff] at hc hc'
  obtain ⟨log, hlog, rfl⟩ := hc
  obtain ⟨log', hlog', rfl⟩ := hc'
  have hid : log'.handle.id = log.handle.id := (ht.handle_id hlog').trans (h.handle_id hlog).symm
  exact ChannelHandle.ext hprotocol hid

/-- Only the broker changes. -/
theorem congr (h : s.Registry) (hcalls : t.calls = s.calls) (hchannels : t.channels = s.channels)
    (hbroker : ∀ k m, t.broker = .delivering k m → ∃ i, s.channels i = some k) : t.Registry where
  registered := by
    rw [hcalls, hchannels]
    exact h.registered
  returned := by
    rw [hcalls, hchannels]
    exact h.returned
  fresh := by
    rw [hcalls]
    exact h.fresh
  delivering := by
    rw [hchannels]
    exact hbroker

/-- A call that is not registered is made or goes on. -/
theorem setCall (h : s.Registry) {k : ℕ} {call' : ChannelCall M}
    (hc : ∀ call, s.calls k = some call → call.phase ≠ .returned) (hphase : call'.phase ≠ .returned)
    (hfresh : call'.read = [] ∧ call'.queue = [] ∧ call'.written = []) :
    (s.setCall k call').Registry := by
  refine ⟨?_, ?_, ?_, h.delivering⟩
  · intro i j hj
    obtain ⟨other, ho, hother⟩ := h.registered i j hj
    have hne : j ≠ k := by
      rintro rfl
      exact h.channels_ne hc i hj
    exact ⟨other, (s.setCall_of_ne _ hne).trans ho, hother⟩
  · intro j other ho hreturned
    rcases setCall_cases ho with ⟨-, rfl⟩ | ⟨-, ho⟩
    · exact absurd hreturned hphase
    · exact h.returned j other ho hreturned
  · intro j other ho hreturned
    rcases setCall_cases ho with ⟨-, rfl⟩ | ⟨-, ho⟩
    · exact hfresh
    · exact h.fresh j other ho hreturned

/-- The messages of a channel that is registered change. -/
theorem setReturned (h : s.Registry) {k : ℕ} {call call' : ChannelCall M}
    (hc : s.calls k = some call) (hcalls : t.calls = (s.setCall k call').calls)
    (hphase : call.phase = .returned) (hphase' : call'.phase = .returned)
    (hhandle : call'.handle = call.handle) (hchannels : t.channels = s.channels)
    (hbroker : ∀ k m, t.broker = .delivering k m → s.broker = .delivering k m) : t.Registry := by
  constructor
  · intro i j hj
    rw [hcalls]
    obtain ⟨other, ho, hother⟩ := h.registered i j (hchannels ▸ hj)
    by_cases hne : j = k
    · subst hne
      obtain rfl := Option.some.inj (hc.symm.trans ho)
      exact ⟨call', s.setCall_self .., hphase', hhandle ▸ hother.2⟩
    · exact ⟨other, (s.setCall_of_ne _ hne).trans ho, hother⟩
  · intro j other ho hreturned
    rw [hcalls] at ho
    rw [hchannels]
    rcases setCall_cases ho with ⟨rfl, rfl⟩ | ⟨-, ho⟩
    · rw [hhandle]
      exact h.returned j call hc hphase
    · exact h.returned j other ho hreturned
  · intro j other ho hreturned
    rw [hcalls] at ho
    rcases setCall_cases ho with ⟨-, rfl⟩ | ⟨-, ho⟩
    · exact absurd hphase' hreturned
    · exact h.fresh j other ho hreturned
  · intro j m hm
    rw [hchannels]
    exact h.delivering j m (hbroker j m hm)

/-- A call that is not registered is made or goes on, while nothing else that matters changes. -/
theorem goOn (h : s.Registry) {k : ℕ} {call' : ChannelCall M}
    (hc : ∀ call, s.calls k = some call → call.phase ≠ .returned)
    (hcalls : t.calls = (s.setCall k call').calls) (hphase : call'.phase ≠ .returned)
    (hfresh : call'.read = [] ∧ call'.queue = [] ∧ call'.written = [])
    (hchannels : t.channels = s.channels)
    (hbroker : ∀ k m, t.broker = .delivering k m → ∃ i, s.channels i = some k) : t.Registry :=
  (h.setCall hc hphase hfresh).congr hcalls hchannels hbroker

/-- The broker registers a call. -/
theorem register (h : s.Registry) {k : ℕ} {call : ChannelCall M} (hc : s.calls k = some call)
    (hphase : call.phase = .joining) (hnone : s.channels call.handle.id = none)
    (hready : s.broker = .ready) :
    Registry { s.setCall k { call with phase := .returned } with
      channels := Function.update s.channels call.handle.id (some k) } := by
  have hnot : ∀ other, s.calls k = some other → other.phase ≠ .returned := fun other ho =>
    Option.some.inj (hc.symm.trans ho) ▸ by simp [hphase]
  refine ⟨?_, ?_, ?_, ?_⟩
  · intro i j hj
    simp only [Function.update_apply] at hj
    split at hj
    · rename_i hi
      obtain rfl := Option.some.inj hj
      exact ⟨_, s.setCall_self .., rfl, hi.symm⟩
    · obtain ⟨other, ho, hother⟩ := h.registered i j hj
      have hne : j ≠ k := by
        rintro rfl
        exact h.channels_ne hnot i hj
      exact ⟨other, (s.setCall_of_ne _ hne).trans ho, hother⟩
  · intro j other ho hreturned
    rcases setCall_cases ho with ⟨rfl, rfl⟩ | ⟨-, ho⟩
    · exact Function.update_self ..
    · have hne : other.handle.id ≠ call.handle.id := by
        intro hid
        have hj := h.returned j other ho hreturned
        rw [hid, hnone] at hj
        exact absurd hj (by simp)
      exact (Function.update_of_ne hne ..).trans (h.returned j other ho hreturned)
  · intro j other ho hreturned
    rcases setCall_cases ho with ⟨-, rfl⟩ | ⟨-, ho⟩
    · exact absurd rfl hreturned
    · exact h.fresh j other ho hreturned
  · intro j m hj
    exact absurd (hready.symm.trans hj) (by simp)

/-- Every step keeps the table of channels. -/
theorem step (h : s.Registry) {event : SessionEvent M} {sent : List Message}
    (heffect : Effect protocols s event sent t) : t.Registry := by
  have hnew {k : ℕ} (hk : s.calls k = none) : ∀ call, s.calls k = some call → call.phase ≠ .returned := by
    simp [hk]
  have hgoOn {k : ℕ} {call call' : ChannelCall M} (hc : s.calls k = some call)
      (hcalls : t.calls = (s.setCall k call').calls) (hp : call.phase ≠ .returned) (hp' : call'.phase ≠ .returned)
      (hread : call'.read = call.read) (hqueue : call'.queue = call.queue) (hwritten : call'.written = call.written)
      (hchannels : t.channels = s.channels) (hbroker : ∀ k m, t.broker = .delivering k m → s.broker = .delivering k m) :
      t.Registry := by
    have hnot : ∀ other, s.calls k = some other → other.phase ≠ .returned := fun other ho =>
      Option.some.inj (hc.symm.trans ho) ▸ hp
    refine h.goOn hnot hcalls hp' ?_ hchannels fun k m hm => h.delivering k m (hbroker k m hm)
    rw [hread, hqueue, hwritten]
    exact h.fresh k call hc hp
  cases heffect with
  | openChannel hk => exact h.goOn (hnew hk) rfl (by simp [ChannelCall.new]) ⟨rfl, rfl, rfl⟩ rfl h.delivering
  | acceptChannel hk => exact h.goOn (hnew hk) rfl (by simp [ChannelCall.new]) ⟨rfl, rfl, rfl⟩ rfl h.delivering
  | waitAccept _ hc _ hp => exact hgoOn hc rfl (by simp [hp]) (by simp) rfl rfl rfl rfl fun _ _ h => h
  | waitOpen _ hc _ hp => exact hgoOn hc rfl (by simp [hp]) (by simp) rfl rfl rfl rfl fun _ _ h => h
  | @takeAccept k i call hready _ hnone hk hc =>
    by_cases hp : call.phase = .returned
    · exact h.setReturned hc rfl hp hp rfl rfl fun _ _ h => h
    · exact hgoOn hc rfl hp hp rfl rfl rfl rfl fun _ _ h => h
  | register hready hc hp hnone => exact h.register hc hp hnone hready
  | passOpen hbroker hc hp => exact hgoOn hc rfl (by simp [hp]) (by simp) rfl rfl rfl rfl (by simp [opened])
  | @passData k m call hbroker hc hexited =>
    obtain ⟨i, hi⟩ := h.delivering k m hbroker
    obtain ⟨call', hc', hp, -⟩ := h.registered i k hi
    obtain rfl := Option.some.inj (hc.symm.trans hc')
    exact h.setReturned hc rfl hp hp rfl rfl (by simp)
  | writeFails hc hp => exact hgoOn hc rfl (by simp [hp]) (by simp) rfl rfl rfl rfl fun _ _ h => h
  | writeOpen hc hp => exact hgoOn hc rfl (by simp [hp]) (by simp) rfl rfl rfl rfl fun _ _ h => h
  | writeAccept hc hp => exact hgoOn hc rfl (by simp [hp]) (by simp) rfl rfl rfl rfl fun _ _ h => h
  | proceed hc _ hp => exact hgoOn hc rfl (by simp [hp]) (by simp) rfl rfl rfl rfl fun _ _ h => h
  | leave hc _ hp => exact hgoOn hc rfl (by simp [hp]) (by simp) rfl rfl rfl rfl fun _ _ h => h
  | write hc hp => exact h.setReturned hc rfl hp hp rfl rfl fun _ _ h => h
  | read hc _ hp => exact h.setReturned hc rfl hp hp rfl rfl fun _ _ h => h
  | close hc hp => exact h.setReturned hc rfl hp hp rfl rfl fun _ _ h => h
  | @exit k call hc hclosed =>
    by_cases hp : call.phase = .returned
    · exact h.setReturned hc rfl hp hp rfl rfl fun _ _ h => h
    · exact hgoOn hc rfl hp hp rfl (h.fresh k call hc hp).2.1.symm rfl rfl fun _ _ h => h
  | takeData _ _ hk =>
    refine h.congr rfl rfl ?_
    intro k m hbroker
    simp only [Broker.delivering.injEq] at hbroker
    exact ⟨_, hbroker.1 ▸ hk⟩
  | notWritten => exact h
  | panic => exact h.congr rfl rfl (by simp)
  | takeOpen => exact h.congr rfl rfl (by simp)
  | stopBroker => exact h.congr rfl rfl (by simp)
  | _ => exact h.congr rfl rfl h.delivering

end Registry

/-- The table of channels of a new session. -/
theorem registry_new (isInitiator : Bool) : Registry (M := M) (.new isInitiator) where
  registered i k hk := by cases hk
  returned k call hc := by cases hc
  fresh k call hc := by cases hc
  delivering k message hk := by cases hk

end SessionState

end ProjektCore.Session
