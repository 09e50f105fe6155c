import ProjektCore.Session.Registry

/-!
# How messages move on a channel

A step of a session writes a message, receives one from the connection, takes its data into the
broker, hands it to the handler of its channel or returns it to a reader. A handler that exits loses
its queue, and a broker that stops loses the message that it hands over. All other steps leave the
messages of all channels as they are.
-/

namespace ProjektCore.Session

variable {M : Type} {protocols : Protocols M}

/-- The data for a channel that a message carries. -/
def dataFor (channelId : ℕ) (message : Message) : Option Data :=
  match message.content with
  | some (.data data) => if data.channelId = channelId then some data else none
  | _ => none

namespace SessionState

/-- The message that the broker hands to the handler of a channel. -/
def deliveringTo (s : SessionState M) (i : ℕ) : List M :=
  match s.broker with
  | .delivering k message => if s.channels i = some k then [message] else []
  | _ => []

/-- The data for a channel that the reading goroutine hands to the broker. -/
def heldFor (s : SessionState M) (i : ℕ) : List Data :=
  match s.reader with
  | .data data => if data.channelId = i then [data] else []
  | _ => []

variable {s t : SessionState M}

/-- A broker that does not hand over a message. -/
theorem deliveringTo_nil (h : ∀ k m, s.broker ≠ .delivering k m) :
    s.deliveringTo = fun _ => [] := by
  funext i
  unfold deliveringTo
  split
  · rename_i k m hbroker
    exact absurd hbroker (h k m)
  · rfl

/-- A broker that goes on handing over a message. -/
theorem deliveringTo_congr (hbroker : t.broker = s.broker) (hchannels : t.channels = s.channels) :
    t.deliveringTo = s.deliveringTo := by
  funext i
  rw [deliveringTo, deliveringTo, hbroker, hchannels]

/-- A reading goroutine that does not hand over data. -/
theorem heldFor_nil (h : ∀ data, s.reader ≠ .data data) : s.heldFor = fun _ => [] := by
  funext i
  unfold heldFor
  split
  · rename_i data hreader
    exact absurd hreader (h data)
  · rfl

/-- A reading goroutine that goes on handing over data. -/
theorem heldFor_congr (hreader : t.reader = s.reader) : t.heldFor = s.heldFor := by
  funext i
  rw [heldFor, heldFor, hreader]

/-- Data that the reading goroutine hands over. -/
theorem heldFor_data {data : Data} (h : s.reader = .data data) :
    s.heldFor = Function.update (fun _ => []) data.channelId [data] := by
  funext i
  rw [heldFor, h, Function.update_apply]
  simp only [eq_comm]

/-- The reading goroutine hands over the data of a message. -/
theorem readHandler_heldFor (i : ℕ) (message : Message) :
    heldFor { s with reader := readHandler message } i = [message].filterMap (dataFor i) := by
  obtain ⟨content⟩ := message
  cases content with
  | none => rfl
  | some content =>
    cases content with
    | data data =>
      simp only [heldFor, readHandler, unwrapMessage, ChannelMessage.isData, dataFor, decide_true,
        if_true, List.filterMap_cons, List.filterMap_nil]
      by_cases hi : data.channelId = i <;> simp [hi]
    | _ => rfl

/-- A message that the broker hands over. -/
theorem Registry.deliveringTo_eq (hs : s.Registry) {k i : ℕ} {m : M}
    (hbroker : s.broker = .delivering k m) (hi : s.channels i = some k) :
    s.deliveringTo = Function.update (fun _ => []) i [m] := by
  funext j
  obtain ⟨call, hc, -, hid⟩ := hs.registered i k hi
  rw [deliveringTo, hbroker, Function.update_apply]
  by_cases hj : j = i
  · simp [hj, hi]
  · have hne : s.channels j ≠ some k := by
      intro hk
      obtain ⟨call', hc', -, hid'⟩ := hs.registered j k hk
      obtain rfl := Option.some.inj (hc.symm.trans hc')
      exact hj (hid'.symm.trans hid)
    simp [hj, hne]

end SessionState

/-- What a step does to the messages of the channels. -/
inductive Move (protocols : Protocols M) (s t : SessionState M) :
    SessionEvent M → List Message → Prop
  /-- Nothing. -/
  | still {event : SessionEvent M} {sent : List Message} :
      t.logAt = s.logAt → t.deliveringTo = s.deliveringTo →
      t.heldFor = s.heldFor → (∀ i, sent.filterMap (dataFor i) = []) → event.receives = [] →
      Move protocols s t event sent
  /-- The reading goroutine receives a message. -/
  | receive {message : Message} : t.logAt = s.logAt → t.deliveringTo = s.deliveringTo →
      (∀ i, s.heldFor i = []) → (∀ i, t.heldFor i = [message].filterMap (dataFor i)) →
      Move protocols s t (.receive message) []
  /-- A channel is registered. -/
  | join {k : ℕ} (i : ℕ) (log : ChannelLog M) :
      s.logAt i = none → t.logAt = Function.update s.logAt i (some log) →
      log.queue = [] ∧ log.written = [] ∧ log.read = [] → (∀ j, s.deliveringTo j = []) →
      (∀ j, t.deliveringTo j = []) → t.heldFor = s.heldFor → Move protocols s t (.takeChannel k) []
  /-- The broker takes data. -/
  | take {data : Data} {log : ChannelLog M} {m : M} : s.reader = .data data →
      s.logAt data.channelId = some log → log.handle.decode protocols data = .ok m → t.logAt = s.logAt →
      (∀ i, s.deliveringTo i = []) → t.deliveringTo = Function.update (fun _ => []) data.channelId [m] →
      (∀ i, t.heldFor i = []) → Move protocols s t .takeMessage []
  /-- The broker drops data. -/
  | drop {data : Data} : t.logAt = s.logAt → s.reader = .data data →
      (∀ log, s.logAt data.channelId = some log → ∃ err, log.handle.decode protocols data = .error err) →
      Move protocols s t .takeMessage []
  /-- The handler of a channel queues a message. -/
  | pass {i : ℕ} {log : ChannelLog M} {m : M} :
      s.logAt i = some log → log.hasExited = false → s.broker ≠ .stopped →
      t.logAt = Function.update s.logAt i (some { log with queue := log.queue ++ [m] }) →
      s.deliveringTo = Function.update (fun _ => []) i [m] → (∀ j, t.deliveringTo j = []) →
      t.heldFor = s.heldFor → Move protocols s t .pass []
  /-- A message is read. -/
  | read {k i : ℕ} {log : ChannelLog M} {m : M} {rest : List M} :
      s.logAt i = some log → log.queue = m :: rest →
      t.logAt = Function.update s.logAt i (some { log with queue := rest, read := log.read ++ [m] }) →
      t.deliveringTo = s.deliveringTo → t.heldFor = s.heldFor → Move protocols s t (.read k) []
  /-- A message is written. -/
  | write {k i : ℕ} {log : ChannelLog M} {m : M} {data : Data} : s.logAt i = some log →
      t.logAt = Function.update s.logAt i (some { log with written := log.written ++ [m] }) →
      log.handle.wrapMessage protocols m = .ok data → t.deliveringTo = s.deliveringTo → t.heldFor = s.heldFor →
      Move protocols s t (.write k m none) [⟨some (.data data)⟩]
  /-- The handler of a channel exits. -/
  | exit {k i : ℕ} {log : ChannelLog M} : s.logAt i = some log →
      t.logAt = Function.update s.logAt i (some { log with queue := [], hasExited := true }) →
      t.deliveringTo = s.deliveringTo → t.heldFor = s.heldFor → Move protocols s t (.exit k) []
  /-- The broker stops. -/
  | stop : t.logAt = s.logAt → t.broker = .stopped → t.heldFor = s.heldFor → Move protocols s t .stopBroker []

namespace SessionState

variable {s t : SessionState M}

/-- Every step of a session does one of these. -/
theorem Registry.move (hs : s.Registry) {event : SessionEvent M} {sent : List Message}
    (heffect : Effect protocols s event sent t) : Move protocols s t event sent := by
  have hnew {k : ℕ} (hk : s.calls k = none) : ∀ call, s.calls k = some call → call.phase ≠ .returned := by
    simp [hk]
  have hgoOn {k : ℕ} {call call' : ChannelCall M} (hc : s.calls k = some call)
      (hcalls : t.calls = (s.setCall k call').calls) (hlog : call'.log = call.log)
      (hchannels : t.channels = s.channels) (hbroker : t.broker = s.broker) (hreader : t.reader = s.reader)
      (hsent : ∀ i, sent.filterMap (dataFor i) = []) (hevent : event.receives = []) :
      Move protocols s t event sent :=
    .still (logAt_same hc hcalls hlog hchannels) (deliveringTo_congr hbroker hchannels) (heldFor_congr hreader)
      hsent hevent
  have hready (h : s.broker = .ready) : s.deliveringTo = fun _ => [] := deliveringTo_nil (by simp [h])
  cases heffect with
  | openChannel hk =>
    exact .still (hs.logAt_goOn (hnew hk) rfl rfl) (deliveringTo_congr rfl rfl) (heldFor_congr rfl) (by simp) rfl
  | acceptChannel hk =>
    exact .still (hs.logAt_goOn (hnew hk) rfl rfl) (deliveringTo_congr rfl rfl) (heldFor_congr rfl) (by simp) rfl
  | panic hb hevent =>
    exact .still rfl ((deliveringTo_nil (by simp)).trans (hready hb).symm) (heldFor_congr rfl) (by simp) hevent
  | waitAccept _ hc => exact hgoOn hc rfl rfl rfl rfl rfl (by simp) rfl
  | waitOpen _ hc => exact hgoOn hc rfl rfl rfl rfl rfl (by simp) rfl
  | @dropData data hb hreader hdecode =>
    refine .drop rfl hreader ?_
    intro log hlog
    simp only [logAt, Option.bind_eq_some_iff, Option.map_eq_some_iff] at hlog
    obtain ⟨k, hk, call, hc, rfl⟩ := hlog
    exact hdecode k call hk hc
  | dropOther hb hother =>
    exact .still rfl (deliveringTo_congr rfl rfl) ((heldFor_nil (by simp)).trans (heldFor_nil hother).symm)
      (by simp) rfl
  | @takeData data k call m hb hreader hk hc hdecode =>
    have hlog : s.logAt data.channelId = some call.log := by rw [logAt, hk, Option.bind_some, hc]; rfl
    have htaking : Effect protocols s .takeMessage [] { s with reader := .reading, broker := .delivering k m } :=
      .takeData hb hreader hk hc hdecode
    have htaken := hs.step htaking
    exact .take hreader hlog hdecode rfl (congrFun (hready hb)) (htaken.deliveringTo_eq rfl hk)
      (congrFun (heldFor_nil (by simp)))
  | takeOpen hb hreader =>
    exact .still rfl ((deliveringTo_nil (by simp)).trans (hready hb).symm)
      ((heldFor_nil (by simp)).trans (heldFor_nil (by simp [hreader])).symm) (by simp) rfl
  | takeAccept hb hreader _ _ hc =>
    exact .still (logAt_same hc rfl rfl rfl) (deliveringTo_congr rfl rfl)
      ((heldFor_nil (by simp)).trans (heldFor_nil (by simp [hreader])).symm) (by simp) rfl
  | @register k call hb hc hp hnone =>
    have hne : call.phase ≠ .returned := by simp [hp]
    obtain ⟨hread, hqueue, hwritten⟩ := hs.fresh k call hc hne
    have hnone' : s.logAt call.handle.id = none := by rw [logAt, hnone]; rfl
    refine .join call.handle.id { call with phase := .returned : ChannelCall M }.log hnone'
      (hs.logAt_register hc hne rfl rfl) ⟨hqueue, hwritten, hread⟩ (congrFun (hready hb))
      (congrFun (deliveringTo_nil ?_)) (heldFor_congr rfl)
    intro j m hm
    exact absurd (hb.symm.trans hm) (by simp)
  | @passOpen k i p call hbroker hc hp =>
    have hnot : ∀ other, s.calls k = some other → other.phase ≠ .returned := fun other ho =>
      Option.some.inj (hc.symm.trans ho) ▸ by simp [hp]
    exact .still (hs.logAt_goOn hnot rfl rfl)
      ((deliveringTo_nil (by simp [opened])).trans (deliveringTo_nil (by simp [hbroker])).symm) (heldFor_congr rfl)
      (by simp) rfl
  | @passData k m call hbroker hc hexited =>
    obtain ⟨i, hi⟩ := hs.delivering k m hbroker
    obtain ⟨call', hc', hp, rfl⟩ := hs.registered i k hi
    obtain rfl := Option.some.inj (hc.symm.trans hc')
    exact .pass (hs.logAt_eq hc hp) hexited (by simp [hbroker]) (hs.logAt_setReturned hc hp rfl rfl)
      (hs.deliveringTo_eq hbroker hi) (congrFun (deliveringTo_nil (by simp))) (heldFor_congr rfl)
  | writeFails hc => exact hgoOn hc rfl rfl rfl rfl rfl (by simp) rfl
  | writeOpen hc => exact hgoOn hc rfl rfl rfl rfl rfl (by simp [dataFor, ChannelHandle.openMessage]) rfl
  | writeAccept hc => exact hgoOn hc rfl rfl rfl rfl rfl (by simp [dataFor, ChannelHandle.acceptMessage]) rfl
  | proceed hc => exact hgoOn hc rfl rfl rfl rfl rfl (by simp) rfl
  | @receive message hreader =>
    refine .receive rfl (deliveringTo_congr rfl rfl) (congrFun (heldFor_nil (by simp [hreader]))) ?_
    intro i
    exact readHandler_heldFor i message
  | write hc hp _ hwrap =>
    exact .write (hs.logAt_eq hc hp) (hs.logAt_setReturned hc hp rfl rfl) hwrap (deliveringTo_congr rfl rfl)
      (heldFor_congr rfl)
  | notWritten hevent => exact .still rfl rfl rfl (by simp) hevent
  | read hc hqueue hp =>
    exact .read (hs.logAt_eq hc hp) hqueue (hs.logAt_setReturned hc hp rfl rfl) (deliveringTo_congr rfl rfl)
      (heldFor_congr rfl)
  | close hc _ _ hsent =>
    refine hgoOn hc rfl rfl rfl rfl rfl ?_ rfl
    intro i
    rw [List.filterMap_eq_nil_iff]
    intro message hmessage
    rw [List.mem_singleton.mp (hsent hmessage)]
    rfl
  | @exit k call hc =>
    by_cases hp : call.phase = .returned
    · exact .exit (hs.logAt_eq hc hp) (hs.logAt_setReturned hc hp rfl rfl) (deliveringTo_congr rfl rfl)
        (heldFor_congr rfl)
    · have hnot : ∀ other, s.calls k = some other → other.phase ≠ .returned := fun other ho =>
        Option.some.inj (hc.symm.trans ho) ▸ hp
      exact .still (hs.logAt_goOn hnot rfl rfl) (deliveringTo_congr rfl rfl) (heldFor_congr rfl) (by simp) rfl
  | closeSession => exact .still rfl (deliveringTo_congr rfl rfl) (heldFor_congr rfl) (by simp) rfl
  | stopBroker => exact .stop rfl rfl (heldFor_congr rfl)
  | stopReader hreader =>
    exact .still rfl (deliveringTo_congr rfl rfl)
      ((heldFor_nil (by simp)).trans (heldFor_nil (by simp [hreader])).symm) (by simp) rfl
  | leave hc => exact hgoOn hc rfl rfl rfl rfl rfl (by simp) rfl

end SessionState

end ProjektCore.Session
