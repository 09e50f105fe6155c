import ProjektCore.Foundation.Runs
import ProjektCore.Session.Taken

/-!
# Routing inside a session

A record beside a session says what its reading goroutine has received and what its broker has taken
and registered, in the order in which it happened. The record does not restrict the session: the
peer may send any messages, and channels are registered, read and closed in any order. What is read
from a channel is always a prefix of the payloads that the broker has taken for exactly this channel
since it was registered, and data that is malformed or for no channel changes nothing.
-/

namespace ProjektCore.Session

open Foundation

variable {M : Type} {protocols : Protocols M}

/-- What happens at the broker of a session. -/
inductive RouteEntry
  /-- The reading goroutine receives a message. -/
  | received (message : Message)
  /-- The broker takes data from the reading goroutine. -/
  | took (data : Data)
  /-- The broker registers a channel. -/
  | registered (handle : ChannelHandle)
deriving DecidableEq

/-- The data for a channel that has arrived. -/
def RouteEntry.arrived (i : ℕ) : RouteEntry → Option Data
  | .received message => dataFor i message
  | _ => none

/-- The data for a channel that the broker has taken. -/
def RouteEntry.taken (i : ℕ) : RouteEntry → Option Data
  | .took data => if data.channelId = i then some data else none
  | _ => none

/-- The payload for a channel that the broker has taken, if it can be decoded. -/
def ChannelHandle.payload (protocols : Protocols M) (c : ChannelHandle) : RouteEntry → Option M
  | .took data => if data.channelId = c.id then (c.decode protocols data).toOption else none
  | _ => none

/-- What a step adds to the record. -/
def SessionState.routes (s : SessionState M) : SessionEvent M → List RouteEntry
  | .receive message => [.received message]
  | .takeMessage =>
    match s.reader with
    | .data data => [.took data]
    | _ => []
  | .takeChannel k =>
    match s.calls k with
    | none => []
    | some call => if (s.channels call.handle.id).isSome then [] else [.registered call.handle]
  | _ => []

/-- A session and the record of its broker. -/
structure Routing (M : Type) where
  session : SessionState M
  history : List RouteEntry

namespace Routing

/-- A new session. -/
def new (isInitiator : Bool) : Routing M := ⟨.new isInitiator, []⟩

/-- One step of the session, with what it adds to the record. -/
def step (protocols : Protocols M) (r : Routing M) (event : SessionEvent M) : Option (Routing M) :=
  (r.session.step protocols event).map fun t => ⟨t, r.history ++ r.session.routes event⟩

end Routing

namespace SessionState

variable {s t : SessionState M}

/-- A step that takes no data keeps the messages of all channels, and the reading goroutine keeps
what it receives. -/
theorem Registry.keeps (hs : s.Registry) {event : SessionEvent M} {sent : List Message}
    (heffect : Effect protocols s event sent t)
    (hdata : event = .takeMessage → ∀ data, s.reader ≠ .data data) (i : ℕ) :
    (∀ taken, s.Holds i taken → t.Holds i taken) ∧
      t.heldFor i = s.heldFor i ++ event.receives.filterMap (dataFor i) := by
  rcases (hs.move heffect).receiving (stopped_step heffect) i with
    h | ⟨c, m, data, he, hreader, -⟩ | ⟨data, he, hreader, -⟩
  · exact h
  · exact absurd hreader (hdata he data)
  · exact absurd hreader (hdata he data)

/-- Only the registration of a channel changes the table of channels. -/
theorem Registry.handleAt_step (hs : s.Registry) {event : SessionEvent M} {sent : List Message}
    (heffect : Effect protocols s event sent t) (hevent : ∀ k, event ≠ .takeChannel k) :
    t.handleAt = s.handleAt := by
  funext i
  cases hs.move heffect with
  | still hlog => exact handleAt_congr hlog i
  | receive hlog => exact handleAt_congr hlog i
  | @join k => exact absurd rfl (hevent k)
  | take _ _ _ hlog => exact handleAt_congr hlog i
  | drop hlog => exact handleAt_congr hlog i
  | pass hj _ _ hlog => exact (written_replace hj hlog rfl rfl i).2
  | read hj _ hlog => exact (written_replace hj hlog rfl rfl i).2
  | @write k j log m data hj hlog =>
    rw [handleAt, handleAt, hlog, Function.update_apply]
    split
    · rename_i hi
      rw [hi, hj]
      rfl
    · rfl
  | exit hj hlog => exact (written_replace hj hlog rfl rfl i).2
  | stop hlog => exact handleAt_congr hlog i

/-- A channel is registered only if there is none with its number. -/
theorem step_takeChannel {k : ℕ} (h : s.step protocols (.takeChannel k) = some t) :
    ∃ call, s.calls k = some call ∧ s.broker = .ready ∧ call.phase = .joining ∧ t = s.register k call := by
  simp only [step, Option.bind_eq_bind, Option.bind_eq_some_iff, Option.ite_none_right_eq_some,
    Broker.isReady_iff] at h
  obtain ⟨call, hc, ⟨hready, hphase⟩, h⟩ := h
  exact ⟨call, hc, hready, hphase, (Option.some.inj h).symm⟩

/-- The broker takes data only if it is ready. -/
theorem step_takeData {data : Data} (hreader : s.reader = .data data)
    (h : s.step protocols .takeMessage = some t) :
    s.broker = .ready ∧ t = { s with reader := .reading }.inData protocols data := by
  simp only [step, hreader, Option.ite_none_right_eq_some, Broker.isReady_iff] at h
  exact ⟨h.1, (Option.some.inj h.2).symm⟩

/-- Data that is malformed or for no channel. -/
def Rejects (protocols : Protocols M) (s : SessionState M) (data : Data) : Prop :=
  ∀ c, s.handleAt data.channelId = some c → ∃ err, c.decode protocols data = .error err

/-- The broker drops data that is malformed or for no channel, and nothing else changes. -/
theorem Registry.inData_of_rejects (hs : s.Registry) {data : Data} (h : s.Rejects protocols data) :
    s.inData protocols data = s := by
  cases hk : s.channels data.channelId with
  | none => simp only [inData, hk]
  | some k =>
    obtain ⟨call, hc, -, -⟩ := hs.registered _ k hk
    obtain ⟨err, herr⟩ := h call.handle (by simp [handleAt, logAt, hk, hc, ChannelCall.log])
    simp only [inData, hk, hc, herr]

/-- When the broker takes such data, only the reading goroutine goes on. -/
theorem Registry.step_of_rejects (hs : s.Registry) {data : Data} (hreader : s.reader = .data data)
    (hrejects : s.Rejects protocols data) (h : s.step protocols .takeMessage = some t) :
    t = { s with reader := .reading } := by
  have hreading : { s with reader := .reading }.Registry := ⟨hs.registered, hs.returned, hs.fresh, hs.delivering⟩
  rw [(step_takeData hreader h).2, hreading.inData_of_rejects hrejects]

/-- Other data is for a channel and can be decoded. -/
theorem exists_decode_of_not_rejects {data : Data} (h : ¬ s.Rejects protocols data) :
    ∃ c, s.handleAt data.channelId = some c ∧ ∃ m, c.decode protocols data = .ok m := by
  unfold Rejects at h
  push Not at h
  obtain ⟨c, hc, hno⟩ := h
  cases hdecode : c.decode protocols data with
  | error err => exact absurd hdecode (hno err)
  | ok m => exact ⟨c, hc, m, hdecode⟩

/-- The broker hands on data that it can decode. -/
theorem inData_of_decode {data : Data} {c : ChannelHandle} {m : M}
    (hc : s.handleAt data.channelId = some c) (hdecode : c.decode protocols data = .ok m) :
    ∃ k, s.channels data.channelId = some k ∧ s.inData protocols data = { s with broker := .delivering k m } := by
  simp only [handleAt, logAt, Option.map_eq_some_iff, Option.bind_eq_some_iff] at hc
  obtain ⟨log, ⟨k, hk, call, hcall, rfl⟩, rfl⟩ := hc
  have hdecode' : call.handle.decode protocols data = .ok m := hdecode
  exact ⟨k, hk, by simp only [inData, hk, hcall, hdecode']⟩

end SessionState

/-- What a step does to the channels, with what it adds to the record. -/
inductive Route (protocols : Protocols M) (s t : SessionState M) : List RouteEntry → Prop
  /-- Messages are received, and nothing is taken or registered. -/
  | keep {messages : List Message} :
      t.handleAt = s.handleAt → (∀ i taken, s.Holds i taken → t.Holds i taken) →
      (∀ i, t.heldFor i = s.heldFor i ++ messages.filterMap (dataFor i)) → Route protocols s t (messages.map .received)
  /-- A channel is registered. -/
  | register {c : ChannelHandle} :
      s.handleAt c.id = none → t.handleAt = Function.update s.handleAt c.id (some c) →
      s.Holds c.id [] → (∀ i taken, s.Holds i taken → t.Holds i taken) → t.heldFor = s.heldFor →
      Route protocols s t [.registered c]
  /-- Data is taken for the channel with its number. -/
  | take {data : Data} : t.handleAt = s.handleAt →
      (∀ i c taken, s.handleAt i = some c → s.Holds i taken →
        t.Holds i (taken ++ [RouteEntry.took data].filterMap (c.payload protocols))) →
      (∀ i, s.heldFor i = [RouteEntry.took data].filterMap (RouteEntry.taken i)) → (∀ i, t.heldFor i = []) →
      Route protocols s t [.took data]

namespace SessionState

variable {s t : SessionState M}

/-- The handle of a channel has the number of the channel. -/
theorem Registry.handleAt_id (hs : s.Registry) {i : ℕ} {c : ChannelHandle}
    (h : s.handleAt i = some c) : c.id = i := by
  rw [handleAt, Option.map_eq_some_iff] at h
  obtain ⟨log, hlog, rfl⟩ := h
  exact hs.handle_id hlog

/-- A number without a channel has no messages. -/
theorem holds_nil (hready : s.broker = .ready) {i : ℕ} (h : s.logAt i = none) : s.Holds i [] := by
  have hkept : s.kept i = [] := by rw [kept, h]
  have hdelivering : s.deliveringTo i = [] := congrFun (deliveringTo_nil (by simp [hready])) i
  exact ⟨hkept ▸ List.prefix_rfl, fun _ => by rw [hkept, hdelivering, List.append_nil]⟩

/-- The broker takes a channel. -/
theorem Registry.route_takeChannel (hs : s.Registry) {k : ℕ}
    (h : s.step protocols (.takeChannel k) = some t) :
    Route protocols s t (s.routes (.takeChannel k)) := by
  have hkeeps := hs.keeps (step_effect h) (by simp)
  have hheld : t.heldFor = s.heldFor := by
    funext i
    exact (hkeeps i).2.trans (List.append_nil _)
  obtain ⟨call, hc, hready, hphase, ht⟩ := step_takeChannel h
  unfold SessionState.register at ht
  simp only [routes, hc]
  split
  · rename_i hsome
    rw [if_pos hsome] at ht
    subst ht
    have hkeep : Route protocols s { s with broker := .panicked } (([] : List Message).map .received) :=
      .keep rfl (fun i => (hkeeps i).1) fun i => (hkeeps i).2
    exact hkeep
  · rename_i hfree
    rw [if_neg hfree] at ht
    rw [Option.not_isSome_iff_eq_none] at hfree
    have hnone : s.logAt call.handle.id = none := by rw [logAt, hfree]; rfl
    have hlog : t.logAt = Function.update s.logAt call.handle.id (some { call with phase := .returned }.log) :=
      hs.logAt_register hc (by simp [hphase]) (by rw [ht]) (by rw [ht])
    refine .register ?_ ?_ (holds_nil hready hnone) (fun i => (hkeeps i).1) hheld
    · rw [handleAt, hnone, Option.map_none]
    · funext i
      rw [handleAt, hlog, Function.update_apply, Function.update_apply]
      split
      · rfl
      · rfl

/-- The broker takes data. -/
theorem Registry.route_takeData (hs : s.Registry) {data : Data} (hreader : s.reader = .data data)
    (h : s.step protocols .takeMessage = some t) : Route protocols s t [.took data] := by
  have hheld (i : ℕ) : s.heldFor i = [RouteEntry.took data].filterMap (RouteEntry.taken i) := by
    simp only [heldFor, hreader, RouteEntry.taken, List.filterMap_cons, List.filterMap_nil]
    split <;> rfl
  have hstopped := stopped_step (step_effect h)
  by_cases hrejects : s.Rejects protocols data
  · obtain rfl := hs.step_of_rejects hreader hrejects h
    refine .take rfl ?_ hheld (congrFun (heldFor_nil (by simp)))
    intro i c taken hc hholds
    -- the payload is not for this channel, or it cannot be decoded
    have hnone : c.payload protocols (.took data) = none := by
      simp only [ChannelHandle.payload, ite_eq_right_iff]
      intro hid
      rw [hs.handleAt_id hc] at hid
      obtain ⟨err, herr⟩ := hrejects c (hid ▸ hc)
      rw [herr]
      rfl
    rw [List.filterMap_cons_none hnone, List.filterMap_nil, List.append_nil]
    exact hholds.congr hstopped rfl rfl
  · obtain ⟨hready, ht⟩ := step_takeData hreader h
    have hidle (i : ℕ) : s.deliveringTo i = [] := congrFun (deliveringTo_nil (by simp [hready])) i
    obtain ⟨c, hc, m, hdecode⟩ := exists_decode_of_not_rejects hrejects
    obtain ⟨k, hk, hin⟩ := inData_of_decode (s := { s with reader := .reading }) hc hdecode
    rw [hin] at ht
    have hdelivering := (hs.step (step_effect h)).deliveringTo_eq (by rw [ht]) (by rw [ht]; exact hk)
    have hlog : t.logAt = s.logAt := by rw [ht]; rfl
    refine .take (funext (handleAt_congr hlog)) ?_ hheld (congrFun (heldFor_nil (by simp [ht])))
    intro i c' taken hc' hholds
    by_cases hi : i = data.channelId
    · subst hi
      obtain rfl := Option.some.inj (hc.symm.trans hc')
      have hpayload : c.payload protocols (.took data) = some m := by
        simp only [ChannelHandle.payload, hs.handleAt_id hc, if_true, hdecode]
        rfl
      rw [List.filterMap_cons_some hpayload, List.filterMap_nil]
      exact hholds.take hstopped hlog (hidle _) (by rw [hdelivering, Function.update_self])
    · have hpayload : c'.payload protocols (.took data) = none := by
        simp only [ChannelHandle.payload, hs.handleAt_id hc', if_neg (Ne.symm hi)]
      rw [List.filterMap_cons_none hpayload, List.filterMap_nil, List.append_nil]
      refine hholds.congr hstopped (congrFun hlog i) ?_
      rw [hdelivering, hidle, Function.update_of_ne hi]

/-- What each step does to the channels. -/
theorem Registry.route (hs : s.Registry) {event : SessionEvent M}
    (h : s.step protocols event = some t) :
    Route protocols s t (s.routes event) := by
  have heffect := step_effect h
  have hkeep (hdata : event = .takeMessage → ∀ data, s.reader ≠ .data data) (hevent : ∀ k, event ≠ .takeChannel k)
      (hroutes : s.routes event = event.receives.map .received) : Route protocols s t (s.routes event) := by
    rw [hroutes]
    exact .keep (hs.handleAt_step heffect hevent) (fun i => (hs.keeps heffect hdata i).1)
      (fun i => (hs.keeps heffect hdata i).2)
  cases event with
  | takeChannel k => exact hs.route_takeChannel h
  | takeMessage =>
    cases hreader : s.reader with
    | data data =>
      simp only [routes, hreader]
      exact hs.route_takeData hreader h
    | _ => exact hkeep (by simp [hreader]) (by simp) (by simp [routes, hreader, SessionEvent.receives])
  | _ => exact hkeep (by simp) (by simp) rfl

end SessionState

namespace Routing

/-- A channel was registered once, and its handler has been given the payloads that the broker has
taken for it since. -/
def Follows (protocols : Protocols M) (r : Routing M) (c : ChannelHandle) : Prop :=
  ∃ before after, r.history = before ++ .registered c :: after ∧
    (∀ other, .registered other ∈ before ++ after → other.id ≠ c.id) ∧
    r.session.Holds c.id (after.filterMap (c.payload protocols))

/-- What the record says about the session. -/
structure Routed (protocols : Protocols M) (r : Routing M) : Prop where
  registry : r.session.Registry
  listed : ∀ c, .registered c ∈ r.history → r.session.handleAt c.id = some c
  ordered : ∀ i, r.history.filterMap (RouteEntry.taken i) ++ r.session.heldFor i =
    r.history.filterMap (RouteEntry.arrived i)
  follows : ∀ i c, r.session.handleAt i = some c → r.Follows protocols c

/-- Nothing has happened in a new session. -/
theorem routed_new (isInitiator : Bool) : Routed protocols (.new isInitiator : Routing M) where
  registry := SessionState.registry_new isInitiator
  listed := by simp [new]
  ordered _ := rfl
  follows := by simp [new, SessionState.new, SessionState.handleAt, SessionState.logAt]

variable {r : Routing M} {t : SessionState M}

/-- A channel that is registered goes on. -/
theorem Follows.goOn {c : ChannelHandle} {more : List RouteEntry} (h : r.Follows protocols c)
    (hmore : ∀ other, .registered other ∈ more → other.id ≠ c.id)
    (hholds : ∀ taken, r.session.Holds c.id taken → t.Holds c.id (taken ++ more.filterMap (c.payload protocols))) :
    Follows protocols ⟨t, r.history ++ more⟩ c := by
  obtain ⟨before, after, hhistory, hother, htaken⟩ := h
  refine ⟨before, after ++ more, by simp [hhistory], ?_, ?_⟩
  · intro other hmem
    rw [← List.append_assoc, List.mem_append] at hmem
    rcases hmem with hmem | hmem
    · exact hother other hmem
    · exact hmore other hmem
  · rw [List.filterMap_append]
    exact hholds _ htaken

/-- Messages are received. -/
theorem Routed.keep (h : r.Routed protocols) {messages : List Message} (ht : t.Registry)
    (hhandle : t.handleAt = r.session.handleAt)
    (hholds : ∀ i taken, r.session.Holds i taken → t.Holds i taken)
    (hheld : ∀ i, t.heldFor i = r.session.heldFor i ++ messages.filterMap (dataFor i)) :
    Routed protocols ⟨t, r.history ++ messages.map .received⟩ := by
  have hnone (other : ChannelHandle) : RouteEntry.registered other ∉ messages.map RouteEntry.received := by simp
  refine ⟨ht, ?_, ?_, ?_⟩
  · intro c hc
    rw [List.mem_append] at hc
    exact (congrFun hhandle _).trans (h.listed c (hc.resolve_right (hnone c)))
  · intro i
    have harrived : messages.filterMap (RouteEntry.arrived i ∘ RouteEntry.received) = messages.filterMap (dataFor i) :=
      rfl
    have htaken : messages.filterMap (RouteEntry.taken i ∘ RouteEntry.received) = [] := by
      simp [RouteEntry.taken]
    rw [List.filterMap_append, List.filterMap_append, List.filterMap_map, List.filterMap_map,
      harrived, htaken, List.append_nil, hheld, ← List.append_assoc, h.ordered]
  · intro i c hc
    refine (h.follows i c (congrFun hhandle i ▸ hc)).goOn (fun other hmem => absurd hmem (hnone other)) ?_
    intro taken htaken
    have hpayload : (messages.map RouteEntry.received).filterMap (c.payload protocols) = [] := by
      simp [ChannelHandle.payload]
    rw [hpayload, List.append_nil]
    exact hholds c.id taken htaken

/-- A channel is registered. -/
theorem Routed.register (h : r.Routed protocols) {c : ChannelHandle} (ht : t.Registry)
    (hnone : r.session.handleAt c.id = none)
    (hhandle : t.handleAt = Function.update r.session.handleAt c.id (some c))
    (hempty : r.session.Holds c.id [])
    (hholds : ∀ i taken, r.session.Holds i taken → t.Holds i taken)
    (hheld : t.heldFor = r.session.heldFor) :
    Routed protocols ⟨t, r.history ++ [.registered c]⟩ := by
  have hfresh (other : ChannelHandle) (hmem : .registered other ∈ r.history) : other.id ≠ c.id := by
    intro hid
    have hsome := h.listed other hmem
    rw [hid, hnone] at hsome
    exact absurd hsome (by simp)
  refine ⟨ht, ?_, ?_, ?_⟩
  · intro other hmem
    rw [List.mem_append, List.mem_singleton, RouteEntry.registered.injEq] at hmem
    rw [hhandle]
    rcases hmem with hmem | rfl
    · rw [Function.update_of_ne (hfresh other hmem), h.listed other hmem]
    · rw [Function.update_self]
  · intro i
    rw [List.filterMap_append, List.filterMap_append, List.filterMap_cons_none rfl,
      List.filterMap_cons_none rfl, List.filterMap_nil, List.filterMap_nil, List.append_nil,
      List.append_nil, hheld, h.ordered]
  · intro i other hother
    rw [hhandle, Function.update_apply] at hother
    split at hother
    · obtain rfl := Option.some.inj hother
      refine ⟨r.history, [], rfl, ?_, hholds _ _ hempty⟩
      intro other hmem
      exact hfresh other (by simpa using hmem)
    · rename_i hi
      have hid := h.registry.handleAt_id hother
      refine (h.follows i other hother).goOn ?_ ?_
      · intro new hnew
        rw [List.mem_singleton, RouteEntry.registered.injEq] at hnew
        rw [hnew, hid]
        exact Ne.symm hi
      · intro taken htaken
        rw [List.filterMap_cons_none rfl, List.filterMap_nil, List.append_nil]
        exact hholds _ _ htaken

/-- Data is taken. -/
theorem Routed.take (h : r.Routed protocols) {data : Data} (ht : t.Registry)
    (hhandle : t.handleAt = r.session.handleAt)
    (hholds : ∀ i c taken, r.session.handleAt i = some c → r.session.Holds i taken →
      t.Holds i (taken ++ [RouteEntry.took data].filterMap (c.payload protocols)))
    (hheld : ∀ i, r.session.heldFor i = [RouteEntry.took data].filterMap (RouteEntry.taken i))
    (hnone : ∀ i, t.heldFor i = []) : Routed protocols ⟨t, r.history ++ [.took data]⟩ := by
  refine ⟨ht, ?_, ?_, ?_⟩
  · intro c hc
    rw [hhandle]
    exact h.listed c (by simpa using hc)
  · intro i
    rw [List.filterMap_append, List.filterMap_append, ← hheld i, hnone i, h.ordered]
    simp [RouteEntry.arrived]
  · intro i c hc
    rw [hhandle] at hc
    obtain rfl := h.registry.handleAt_id hc
    exact (h.follows _ c hc).goOn (by simp) (hholds _ c · hc)

/-- What the record says stays true. -/
theorem Routed.route (h : r.Routed protocols) {entries : List RouteEntry} (ht : t.Registry)
    (hroute : Route protocols r.session t entries) :
    Routed protocols ⟨t, r.history ++ entries⟩ := by
  cases hroute with
  | keep hhandle hholds hheld => exact h.keep ht hhandle hholds hheld
  | register hnone hhandle hempty hholds hheld => exact h.register ht hnone hhandle hempty hholds hheld
  | take hhandle hholds hheld hnone => exact h.take ht hhandle hholds hheld hnone

/-- What the record says holds in every state of every run. -/
theorem routed_of_reached {isInitiator : Bool}
    (h : Reached (step protocols) anyStep (new isInitiator) r) :
    r.Routed protocols := by
  refine h.invariant (Routed protocols) (routed_new isInitiator) ?_
  intro r event r' hr _ hstep
  rw [step, Option.map_eq_some_iff] at hstep
  obtain ⟨t, ht, rfl⟩ := hstep
  exact hr.route (hr.registry.step (SessionState.step_effect ht)) (hr.registry.route ht)

end Routing

/-- In every run of a session, whatever its peer sends: the broker takes the data for a channel in
the order in which it has arrived. A channel is registered once, and what is read from it is a
prefix of the payloads with exactly its number that the broker has taken since then and that can be
decoded; none of them is lost as long as the broker and the handler of the channel run. Two channels
have different numbers, and there is nothing to read without a channel. Data that is malformed or
for no channel changes nothing but that the reading goroutine goes on. -/
theorem channel_routing {isInitiator : Bool} {r : Routing M}
    (h : Reached (Routing.step protocols) anyStep (.new isInitiator) r) :
    (∀ i, r.history.filterMap (RouteEntry.taken i) <+: r.history.filterMap (RouteEntry.arrived i)) ∧
      (∀ k call, r.session.calls k = some call → call.phase = .returned → ∃ before after,
        r.history = before ++ .registered call.handle :: after ∧
          (∀ other, .registered other ∈ before ++ after → other.id ≠ call.handle.id) ∧
          call.read <+: after.filterMap (call.handle.payload protocols) ∧
          (r.session.broker ≠ .stopped → call.hasExited = false →
            call.read ++ call.queue ++ r.session.deliveringTo call.handle.id =
              after.filterMap (call.handle.payload protocols))) ∧
      (∀ k j call other, r.session.calls k = some call → r.session.calls j = some other → call.phase = .returned →
        other.phase = .returned → call.handle.id = other.handle.id → k = j) ∧
      (∀ k call, r.session.calls k = some call → call.phase ≠ .returned → call.read = []) ∧
      ∀ data t, r.session.reader = .data data → r.session.Rejects protocols data →
        r.session.step protocols .takeMessage = some t → t = { r.session with reader := .reading } := by
  have hr := Routing.routed_of_reached h
  refine ⟨?_, ?_, ?_, ?_, ?_⟩
  · intro i
    exact ⟨_, hr.ordered i⟩
  · intro k call hc hphase
    have hlog := hr.registry.logAt_eq hc hphase
    have hhandle : r.session.handleAt call.handle.id = some call.handle := by
      rw [SessionState.handleAt, hlog]
      rfl
    have hkept : r.session.kept call.handle.id = call.read ++ call.queue := by
      rw [SessionState.kept, hlog]
      rfl
    obtain ⟨before, after, hhistory, hother, hholds⟩ := hr.follows _ _ hhandle
    refine ⟨before, after, hhistory, hother, ?_, ?_⟩
    · have hread : call.read <+: r.session.kept call.handle.id := hkept ▸ List.prefix_append ..
      exact hread.trans hholds.kept
    · intro hrunning hexited
      rw [← hkept]
      refine hholds.live ⟨hrunning, ?_⟩
      intro log hlog'
      obtain rfl := Option.some.inj (hlog.symm.trans hlog')
      exact hexited
  · intro k j call other hc ho hphase hphase' hid
    have hk := hr.registry.returned k call hc hphase
    rw [hid] at hk
    exact Option.some.inj (hk.symm.trans (hr.registry.returned j other ho hphase'))
  · intro k call hc hphase
    exact (hr.registry.fresh k call hc hphase).1
  · intro data t hreader hrejects ht
    exact hr.registry.step_of_rejects hreader hrejects ht

/-- A protocol whose messages are byte strings of one type, and which refuses other types. -/
def strictCodec : Codec Bytes where
  rawTypeOf _ := 0
  marshal m := .ok m
  unmarshal messageType payload := if messageType = 0 then .ok payload else .error .unexpectedMessage
  unmarshal_marshal m payload h := by
    obtain rfl := Except.ok.inj h
    rfl

/-- A session receives data and its broker takes it. -/
def takesData (data : Data) :
    List (SessionEvent Bytes) := [.receive ⟨some (.data data)⟩, .takeMessage]

/-- A session accepts a channel and registers it. Then data arrives that is early, malformed, for
another channel or well formed, and two messages are handed over and one of them is read. -/
def routedData : List (SessionEvent Bytes) :=
  [.acceptChannel 0 1, .takeWait 0, .receive ⟨some (.openChannel 3 1)⟩, .takeMessage, .pass, .writeCall 0 none] ++
    takesData ⟨3, 0, [6]⟩ ++ [.takeChannel 0] ++ takesData ⟨3, 9, [7]⟩ ++ takesData ⟨5, 0, [7]⟩ ++
    takesData ⟨3, 0, [8]⟩ ++ [.pass] ++ takesData ⟨3, 0, [9]⟩ ++ [.pass, .read 0]

/-- The message that is read is the first one of the channel. -/
theorem channel_routing_strict :
    ∃ (r : Routing Bytes) (call : ChannelCall Bytes),
      execute (Routing.step ⟨fun _ => strictCodec, 100⟩) anyStep routedData (.new true) = some r ∧
        r.session.calls 0 = some call ∧ call.phase = .returned ∧ call.read = [[8]] ∧ call.queue = [[9]] ∧
        ∃ before after, r.history = before ++ .registered call.handle :: after ∧
          call.read <+: after.filterMap (call.handle.payload ⟨fun _ => strictCodec, 100⟩) := by
  obtain ⟨r, hrun⟩ :
      ∃ r, execute (Routing.step ⟨fun _ => strictCodec, 100⟩) anyStep routedData (.new true) = some r := ⟨_, rfl⟩
  have hcalls :
      (execute (Routing.step ⟨fun _ => strictCodec, 100⟩) anyStep routedData (.new true)).map (fun r =>
        r.session.calls 0) =
      some (some ⟨.acceptor, ⟨1, 3⟩, .returned, false, [[9]], false, false, [], [[8]]⟩) := rfl
  rw [hrun, Option.map_some, Option.some.injEq] at hcalls
  obtain ⟨-, hread, -⟩ := channel_routing (reached_of_execute routedData hrun)
  obtain ⟨before, after, hhistory, -, hcall, -⟩ := hread 0 _ hcalls rfl
  exact ⟨r, _, hrun, hcalls, rfl, rfl, rfl, before, after, hhistory, hcall⟩

end ProjektCore.Session
