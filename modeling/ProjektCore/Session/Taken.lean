import ProjektCore.Session.Move

/-!
# The messages that a broker has taken

Which messages of a channel the broker has taken so far is not stored anywhere. As long as the
broker and the handler of the channel run, they are the messages read, queued and handed over;
afterwards the messages read and queued are still the first ones of them. This is carried through
every step, together with what a step writes to a channel.
-/

namespace ProjektCore.Session

variable {M : Type} {protocols : Protocols M}

namespace SessionState

/-- The messages that have been written to a channel. -/
def written (s : SessionState M) (i : ℕ) : List M :=
  match s.logAt i with
  | none => []
  | some log => log.written

/-- The messages of a channel that its handler has: those read and those queued. -/
def kept (s : SessionState M) (i : ℕ) : List M :=
  match s.logAt i with
  | none => []
  | some log => log.read ++ log.queue

/-- The broker runs, and so does the handler of a channel. -/
structure Live (s : SessionState M) (i : ℕ) : Prop where
  broker : s.broker ≠ .stopped
  handler : ∀ log, s.logAt i = some log → log.hasExited = false

/-- The broker has taken these messages for a channel: the handler has the first ones of them, and
no message has been lost as long as both run. -/
structure Holds (s : SessionState M) (i : ℕ) (taken : List M) : Prop where
  kept : s.kept i <+: taken
  live : s.Live i → s.kept i ++ s.deliveringTo i = taken

variable {s t : SessionState M}

/-- A broker that has stopped does not go on. -/
theorem stopped_step {event : SessionEvent M} {sent : List Message}
    (heffect : Effect protocols s event sent t) (h : s.broker = .stopped) :
    t.broker = .stopped := by
  cases heffect with
  | passOpen hbroker | passData hbroker => exact absurd (h.symm.trans hbroker) (by simp)
  | panic hready | takeData hready | takeOpen hready => exact absurd (h.symm.trans hready) (by simp)
  | stopBroker => rfl
  | _ => exact h

/-- The messages of a channel are the same as before. -/
theorem Holds.same {i : ℕ} {taken : List M} (h : s.Holds i taken) (hkept : t.kept i = s.kept i)
    (hdelivering : t.deliveringTo i = s.deliveringTo i) (hlive : t.Live i → s.Live i) :
    t.Holds i taken where
  kept := hkept ▸ h.kept
  live ht := by rw [hkept, hdelivering, h.live (hlive ht)]

/-- The broker or the handler does not run, and the handler has not got more messages. -/
theorem Holds.dead {i : ℕ} {taken : List M} (h : s.Holds i taken) (hkept : t.kept i <+: s.kept i)
    (hdead : ¬ t.Live i) : t.Holds i taken where
  kept := hkept.trans h.kept
  live ht := absurd ht hdead

/-- The messages that the broker has taken depend on the channel and on what the broker hands
over. -/
theorem Holds.congr {i : ℕ} {taken : List M} (h : s.Holds i taken)
    (hstopped : s.broker = .stopped → t.broker = .stopped) (hlog : t.logAt i = s.logAt i)
    (hdelivering : t.deliveringTo i = s.deliveringTo i) : t.Holds i taken := by
  refine h.same ?_ hdelivering ?_
  · rw [SessionState.kept, SessionState.kept, hlog]
  · intro ht
    exact ⟨fun hs => ht.broker (hstopped hs), hlog ▸ ht.handler⟩

/-- Another channel is replaced. -/
theorem Holds.other {i j : ℕ} {taken : List M} (h : s.Holds i taken)
    (hstopped : s.broker = .stopped → t.broker = .stopped) {log' : Option (ChannelLog M)}
    (hlog : t.logAt = Function.update s.logAt j log') (hi : i ≠ j)
    (hdelivering : t.deliveringTo i = s.deliveringTo i) : t.Holds i taken := by
  refine h.congr hstopped ?_ hdelivering
  rw [hlog, Function.update_of_ne hi]

/-- A channel is replaced by one with the same messages read or queued. -/
theorem Holds.replace {i j : ℕ} {taken : List M} (h : s.Holds i taken)
    (hstopped : s.broker = .stopped → t.broker = .stopped) {log log' : ChannelLog M}
    (hj : s.logAt j = some log) (hlog : t.logAt = Function.update s.logAt j (some log'))
    (hmessages : log'.read ++ log'.queue = log.read ++ log.queue)
    (hexited : log'.hasExited = log.hasExited) (hdelivering : t.deliveringTo i = s.deliveringTo i) :
    t.Holds i taken := by
  by_cases hi : i = j
  · subst hi
    have hlog' : t.logAt i = some log' := by rw [hlog, Function.update_self]
    refine h.same ?_ hdelivering ?_
    · rw [SessionState.kept, SessionState.kept, hj, hlog']
      exact hmessages
    · intro ht
      refine ⟨fun hs => ht.broker (hstopped hs), ?_⟩
      intro other hother
      obtain rfl := Option.some.inj (hj.symm.trans hother)
      exact hexited.symm.trans (ht.handler log' hlog')
  · exact h.other hstopped hlog hi hdelivering

/-- The broker takes a message for a channel, to hand it over. -/
theorem Holds.take {i : ℕ} {taken : List M} (h : s.Holds i taken)
    (hstopped : s.broker = .stopped → t.broker = .stopped) (hlog : t.logAt = s.logAt)
    (hbefore : s.deliveringTo i = []) {m : M} (hafter : t.deliveringTo i = [m]) :
    t.Holds i (taken ++ [m]) := by
  have hkept : t.kept i = s.kept i := by rw [SessionState.kept, SessionState.kept, hlog]
  constructor
  · rw [hkept]
    exact h.kept.trans (List.prefix_append ..)
  · intro ht
    have hlive := h.live ⟨fun hs => ht.broker (hstopped hs), hlog ▸ ht.handler⟩
    rw [hbefore, List.append_nil] at hlive
    rw [hkept, hafter, hlive]

/-- The messages that have been written to a channel depend on the table of channels. -/
theorem written_congr (hlog : t.logAt = s.logAt) (i : ℕ) : t.written i = s.written i := by
  rw [written, written, hlog]

/-- The handles of the channels depend on the table of channels. -/
theorem handleAt_congr (hlog : t.logAt = s.logAt) (i : ℕ) : t.handleAt i = s.handleAt i := by
  rw [handleAt, handleAt, hlog]

/-- Replacing a channel by one with the same handle and the same messages written. -/
theorem written_replace {j : ℕ} {log log' : ChannelLog M} (hj : s.logAt j = some log)
    (hlog : t.logAt = Function.update s.logAt j (some log')) (hwritten : log'.written = log.written)
    (hhandle : log'.handle = log.handle) (i : ℕ) :
    t.written i = s.written i ∧ t.handleAt i = s.handleAt i := by
  by_cases hi : i = j
  · subst hi
    simp only [written, handleAt, hlog, hj, Function.update_self, Option.map_some, hwritten,
      hhandle, and_self]
  · simp only [written, handleAt, hlog, Function.update_of_ne hi, and_self]

end SessionState

namespace Move

variable {s t : SessionState M} {event : SessionEvent M} {sent : List Message}

/-- What a step writes: nothing to a channel, or a message whose data is sent. -/
theorem sending (h : Move protocols s t event sent) (hs : s.Registry) (i : ℕ) :
    t.written i = s.written i ∧ (t.handleAt i = s.handleAt i ∨ s.logAt i = none) ∧
        sent.filterMap (dataFor i) = [] ∨
      ∃ c m data, s.handleAt i = some c ∧ t.handleAt i = some c ∧ c.wrapMessage protocols m = .ok data ∧
        t.written i = s.written i ++ [m] ∧ sent.filterMap (dataFor i) = [data] := by
  cases h with
  | still hlog _ _ hsent =>
    exact .inl ⟨SessionState.written_congr hlog i, .inl (SessionState.handleAt_congr hlog i), hsent i⟩
  | receive hlog => exact .inl ⟨SessionState.written_congr hlog i, .inl (SessionState.handleAt_congr hlog i), rfl⟩
  | take _ _ _ hlog =>
    exact .inl ⟨SessionState.written_congr hlog i, .inl (SessionState.handleAt_congr hlog i), rfl⟩
  | drop hlog => exact .inl ⟨SessionState.written_congr hlog i, .inl (SessionState.handleAt_congr hlog i), rfl⟩
  | join j log hnone hlog hfresh =>
    by_cases hi : i = j
    · subst hi
      refine .inl ⟨?_, .inr hnone, rfl⟩
      simp only [SessionState.written, hlog, hnone, Function.update_self, hfresh.2.1]
    · refine .inl ⟨?_, .inl ?_, rfl⟩
      · simp only [SessionState.written, hlog, Function.update_of_ne hi]
      · simp only [SessionState.handleAt, hlog, Function.update_of_ne hi]
  | pass hj _ _ hlog =>
    have hsame := SessionState.written_replace hj hlog rfl rfl i
    exact .inl ⟨hsame.1, .inl hsame.2, rfl⟩
  | read hj _ hlog =>
    have hsame := SessionState.written_replace hj hlog rfl rfl i
    exact .inl ⟨hsame.1, .inl hsame.2, rfl⟩
  | exit hj hlog =>
    have hsame := SessionState.written_replace hj hlog rfl rfl i
    exact .inl ⟨hsame.1, .inl hsame.2, rfl⟩
  | stop hlog => exact .inl ⟨SessionState.written_congr hlog i, .inl (SessionState.handleAt_congr hlog i), rfl⟩
  | @write k j log m data hj hlog hwrap =>
    have hid : data.channelId = j := (ChannelHandle.wrapMessage_channelId hwrap).trans (hs.handle_id hj)
    by_cases hi : i = j
    · subst hi
      refine .inr ⟨log.handle, m, data, ?_, ?_, hwrap, ?_, ?_⟩
      · simp only [SessionState.handleAt, hj, Option.map_some]
      · simp only [SessionState.handleAt, hlog, Function.update_self, Option.map_some]
      · simp only [SessionState.written, hlog, hj, Function.update_self]
      · simp [dataFor, hid]
    · refine .inl ⟨?_, .inl ?_, ?_⟩
      · simp only [SessionState.written, hlog, Function.update_of_ne hi]
      · simp only [SessionState.handleAt, hlog, Function.update_of_ne hi]
      · have hne : data.channelId ≠ i := fun h => hi (h.symm.trans hid)
        simp [dataFor, hne]

/-- What a step receives: a message of the connection or nothing, the data of a message, or data
that is dropped. -/
theorem receiving (h : Move protocols s t event sent)
    (hstopped : s.broker = .stopped → t.broker = .stopped) (i : ℕ) :
    ((∀ taken, s.Holds i taken → t.Holds i taken) ∧
        t.heldFor i = s.heldFor i ++ event.receives.filterMap (dataFor i)) ∨
      (∃ c m data, event = .takeMessage ∧ s.reader = .data data ∧ data.channelId = i ∧ s.handleAt i = some c ∧
        t.heldFor i = [] ∧ c.decode protocols data = .ok m ∧ ∀ taken, s.Holds i taken → t.Holds i (taken ++ [m])) ∨
      ∃ data, event = .takeMessage ∧ s.reader = .data data ∧
        ∀ c, s.handleAt data.channelId = some c → ∃ err, c.decode protocols data = .error err := by
  have hkeeps {event : SessionEvent M} (hheld : t.heldFor = s.heldFor) (hevent : event.receives = []) :
      t.heldFor i = s.heldFor i ++ event.receives.filterMap (dataFor i) := by
    rw [hheld, hevent, List.filterMap_nil, List.append_nil]
  cases h with
  | still hlog hdelivering hheld _ hevent =>
    refine .inl ⟨?_, hkeeps hheld hevent⟩
    intro taken h
    exact h.congr hstopped (congrFun hlog i) (congrFun hdelivering i)
  | receive hlog hdelivering hheld hheld' =>
    refine .inl ⟨?_, ?_⟩
    · intro taken h
      exact h.congr hstopped (congrFun hlog i) (congrFun hdelivering i)
    · rw [hheld, hheld', List.nil_append]
      rfl
  | join j log hnone hlog hfresh hdelivering hdelivering' hheld =>
    refine .inl ⟨?_, hkeeps hheld rfl⟩
    intro taken h
    by_cases hi : i = j
    · subst hi
      refine h.same ?_ ((hdelivering' i).trans (hdelivering i).symm) ?_
      · simp [SessionState.kept, hlog, hnone, hfresh]
      · intro ht
        exact ⟨fun hs => ht.broker (hstopped hs), by simp [hnone]⟩
    · exact h.other hstopped hlog hi ((hdelivering' i).trans (hdelivering i).symm)
  | @take data log m hreader hj hdecode hlog hdelivering hdelivering' hheld' =>
    by_cases hi : i = data.channelId
    · subst hi
      refine .inr (.inl ⟨log.handle, m, data, rfl, hreader, rfl, ?_, hheld' _, hdecode, ?_⟩)
      · simp only [SessionState.handleAt, hj, Option.map_some]
      · intro taken h
        apply h.take hstopped hlog (hdelivering _)
        rw [hdelivering', Function.update_self]
    · refine .inl ⟨?_, ?_⟩
      · intro taken h
        refine h.congr hstopped (congrFun hlog i) ?_
        rw [hdelivering', hdelivering, Function.update_of_ne hi]
      · rw [hheld' i, SessionState.heldFor_data hreader, Function.update_of_ne hi]
        rfl
  | drop _ hreader hdecode =>
    refine .inr (.inr ⟨_, rfl, hreader, ?_⟩)
    intro c hc
    rw [SessionState.handleAt, Option.map_eq_some_iff] at hc
    obtain ⟨log, hj, rfl⟩ := hc
    exact hdecode log hj
  | @pass j log m hj hexited hrunning hlog hdelivering hdelivering' hheld =>
    refine .inl ⟨?_, hkeeps hheld rfl⟩
    intro taken h
    by_cases hi : i = j
    · subst hi
      have hlive := h.live ⟨hrunning, fun other hother => Option.some.inj (hj.symm.trans hother) ▸ hexited⟩
      have hkept : t.kept i = taken := by
        rw [← hlive, hdelivering]
        simp [SessionState.kept, hlog, hj]
      exact ⟨hkept ▸ List.prefix_rfl, fun _ => by rw [hkept, hdelivering', List.append_nil]⟩
    · apply h.other hstopped hlog hi
      rw [hdelivering', hdelivering, Function.update_of_ne hi]
  | @read k j log m rest hj hqueue hlog hdelivering hheld =>
    refine .inl ⟨?_, hkeeps hheld rfl⟩
    intro taken h
    apply h.replace hstopped hj hlog _ rfl (congrFun hdelivering i)
    simp [hqueue]
  | @write k j log m data hj hlog _ hdelivering hheld =>
    refine .inl ⟨?_, hkeeps hheld rfl⟩
    intro taken h
    exact h.replace hstopped hj hlog rfl rfl (congrFun hdelivering i)
  | @exit k j log hj hlog hdelivering hheld =>
    refine .inl ⟨?_, hkeeps hheld rfl⟩
    intro taken h
    by_cases hi : i = j
    · subst hi
      have hlog' := congrFun hlog i
      rw [Function.update_self] at hlog'
      apply h.dead
      · simp [SessionState.kept, hlog', hj]
      · intro ht
        exact absurd (ht.handler _ hlog') (by simp)
    · exact h.other hstopped hlog hi (congrFun hdelivering i)
  | stop hlog hbroker hheld =>
    refine .inl ⟨?_, hkeeps hheld rfl⟩
    intro taken h
    apply h.dead
    · simp [SessionState.kept, hlog]
    · intro ht
      exact ht.broker hbroker

end Move

end ProjektCore.Session
