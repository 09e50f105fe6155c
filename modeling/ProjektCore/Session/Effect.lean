import ProjektCore.Session.State

/-!
# What a step of a session does

Every step of a session has one of the effects listed here. Facts about all steps are proved by
cases on the effect.
-/

namespace ProjektCore.Session

variable {M : Type}

/-- The effects of the steps of a session, with the messages that they write. -/
inductive Effect (protocols : Protocols M) (s : SessionState M) :
    SessionEvent M → List Message → SessionState M → Prop
  | openChannel {k : ℕ} {protocolId : ℤ} : s.calls k = none →
      Effect protocols s (.openChannel k protocolId) []
        ({ s with nextId := (s.nextId + 2) % 2 ^ 64 }.setCall k (.new .opener protocolId s.nextId))
  | acceptChannel {k : ℕ} {protocolId : ℤ} : s.calls k = none →
      Effect protocols s (.acceptChannel k protocolId) [] (s.setCall k (.new .acceptor protocolId 0))
  | panic {event : SessionEvent M} : s.broker = .ready → event.receives = [] →
      Effect protocols s event [] { s with broker := .panicked }
  | waitAccept {k : ℕ} {call : ChannelCall M} : s.broker = .ready → s.calls k = some call →
      call.kind = .opener → call.phase = .registering → s.accepts call.handle.id = none →
      s.channels call.handle.id = none →
      Effect protocols s (.takeWait k) []
        { s.setCall k { call with phase := .writing } with
          accepts := Function.update s.accepts call.handle.id (some k) }
  | waitOpen {k : ℕ} {call : ChannelCall M} : s.broker = .ready → s.calls k = some call →
      call.kind = .acceptor → call.phase = .registering → s.opens call.handle.protocolId = none →
      Effect protocols s (.takeWait k) []
        { s.setCall k { call with phase := .waiting } with
          opens := Function.update s.opens call.handle.protocolId (some k) }
  | dropData {data : Data} : s.broker = .ready → s.reader = .data data →
      (∀ k call, s.channels data.channelId = some k → s.calls k = some call →
        ∃ err, call.handle.decode protocols data = .error err) →
      Effect protocols s .takeMessage [] { s with reader := .reading }
  | dropOther : s.broker = .ready → (∀ data, s.reader ≠ .data data) →
      Effect protocols s .takeMessage [] { s with reader := .reading }
  | takeData {data : Data} {k : ℕ} {call : ChannelCall M} {message : M} : s.broker = .ready →
      s.reader = .data data → s.channels data.channelId = some k → s.calls k = some call →
      call.handle.decode protocols data = .ok message →
      Effect protocols s .takeMessage [] { s with reader := .reading, broker := .delivering k message }
  | takeOpen {k channelId : ℕ} {protocolId : ℤ} :
      s.broker = .ready → s.reader = .inOpen channelId protocolId →
      s.channels channelId = none → s.opens protocolId = some k →
      Effect protocols s .takeMessage [] { s with reader := .reading, broker := .opening k channelId protocolId }
  | takeAccept {k channelId : ℕ} {call : ChannelCall M} :
      s.broker = .ready → s.reader = .inAccept channelId →
      s.channels channelId = none → s.accepts channelId = some k → s.calls k = some call →
      Effect protocols s .takeMessage []
        { s.setCall k { call with accepted := true } with
          reader := .reading
          accepts := Function.update s.accepts channelId none }
  | register {k : ℕ} {call : ChannelCall M} : s.broker = .ready → s.calls k = some call →
      call.phase = .joining → s.channels call.handle.id = none →
      Effect protocols s (.takeChannel k) []
        { s.setCall k { call with phase := .returned } with
          channels := Function.update s.channels call.handle.id (some k) }
  | passOpen {k channelId : ℕ} {protocolId : ℤ} {call : ChannelCall M} :
      s.broker = .opening k channelId protocolId → s.calls k = some call → call.phase = .waiting →
      Effect protocols s .pass [] (s.opened k call channelId protocolId)
  | passData {k : ℕ} {message : M} {call : ChannelCall M} : s.broker = .delivering k message →
      s.calls k = some call → call.hasExited = false →
      Effect protocols s .pass []
        { s.setCall k { call with queue := call.queue ++ [message] } with broker := .ready }
  | writeFails {k : ℕ} {call : ChannelCall M} {err : Err} :
      s.calls k = some call → call.phase = .writing →
      Effect protocols s (.writeCall k (some err)) [] (s.setCall k { call with phase := .failed err })
  | writeOpen {k : ℕ} {call : ChannelCall M} : s.calls k = some call → call.phase = .writing →
      call.kind = .opener →
      Effect protocols s (.writeCall k none) [call.handle.openMessage]
        (s.setCall k { call with phase := .waiting })
  | writeAccept {k : ℕ} {call : ChannelCall M} : s.calls k = some call → call.phase = .writing →
      call.kind = .acceptor →
      Effect protocols s (.writeCall k none) [call.handle.acceptMessage]
        (s.setCall k { call with phase := .joining })
  | proceed {k : ℕ} {call : ChannelCall M} : s.calls k = some call → call.kind = .opener →
      call.phase = .waiting → call.accepted = true →
      Effect protocols s (.proceed k) [] (s.setCall k { call with phase := .joining })
  | receive {message : Message} : s.reader = .reading →
      Effect protocols s (.receive message) [] { s with reader := readHandler message }
  | write {k : ℕ} {call : ChannelCall M} {message : M} {data : Data} : s.calls k = some call →
      call.phase = .returned → call.isClosed = false → call.handle.wrapMessage protocols message = .ok data →
      Effect protocols s (.write k message none) [⟨some (.data data)⟩]
        (s.setCall k { call with written := call.written ++ [message] })
  | notWritten {event : SessionEvent M} : event.receives = [] → Effect protocols s event [] s
  | read {k : ℕ} {call : ChannelCall M} {message : M} {rest : List M} : s.calls k = some call →
      call.queue = message :: rest → call.phase = .returned → call.hasExited = false →
      Effect protocols s (.read k) [] (s.setCall k { call with queue := rest, read := call.read ++ [message] })
  | close {k : ℕ} {call : ChannelCall M} {failure : Option Err} {sent : List Message} :
      s.calls k = some call →
      call.phase = .returned → call.isClosed = false → sent ⊆ [call.handle.closeMessage] →
      Effect protocols s (.close k failure) sent (s.setCall k { call with isClosed := true })
  | exit {k : ℕ} {call : ChannelCall M} : s.calls k = some call → call.isClosed = true →
      call.hasExited = false →
      Effect protocols s (.exit k) [] (s.setCall k { call with hasExited := true, queue := [] })
  | closeSession : s.isDone = false → Effect protocols s .closeSession [] { s with isDone := true }
  | stopBroker : s.isDone = true → (s.broker = .ready ∨ ∃ k message, s.broker = .delivering k message) →
      Effect protocols s .stopBroker [] { s with broker := .stopped }
  | stopReader : s.reader = .reading → Effect protocols s .stopReader [] { s with reader := .stopped }
  | leave {k : ℕ} {call : ChannelCall M} :
      s.calls k = some call → s.isDone = true → call.phase = .waiting →
      Effect protocols s (.leave k) [] (s.setCall k { call with phase := .failed .sessionClosed })

/-- A broker that is ready. -/
theorem Broker.isReady_iff (broker : Broker M) : broker.isReady = true ↔ broker = .ready := by
  cases broker <;> simp [Broker.isReady]

namespace Effect

variable {protocols : Protocols M} {s t : SessionState M}

/-- The broker registers a call. -/
theorem of_takeWait {k : ℕ} (h : s.step protocols (.takeWait k) = some t) :
    Effect protocols s (.takeWait k) [] t := by
  simp only [SessionState.step, Option.bind_eq_bind, Option.bind_eq_some_iff,
    Option.ite_none_right_eq_some, Broker.isReady_iff] at h
  obtain ⟨call, hc, ⟨hready, hphase⟩, h⟩ := h
  split at h
  · rename_i hkind
    obtain rfl := Option.some.inj h
    unfold SessionState.waitAccept
    split
    · exact .panic hready rfl
    · rename_i hfree
      simp only [Bool.or_eq_true, not_or, Option.not_isSome_iff_eq_none] at hfree
      exact .waitAccept hready hc hkind hphase hfree.1 hfree.2
  · rename_i hkind
    obtain rfl := Option.some.inj h
    unfold SessionState.waitOpen
    split
    · exact .panic hready rfl
    · rename_i hfree
      exact .waitOpen hready hc hkind hphase (Option.not_isSome_iff_eq_none.mp hfree)

/-- The broker takes a message of the reading goroutine. -/
theorem of_takeMessage (h : s.step protocols .takeMessage = some t) :
    Effect protocols s .takeMessage [] t := by
  simp only [SessionState.step, Option.ite_none_right_eq_some, Broker.isReady_iff] at h
  obtain ⟨hready, h⟩ := h
  split at h
  · rename_i data hreader
    obtain rfl := Option.some.inj h
    unfold SessionState.inData
    split
    · rename_i hnone
      exact .dropData hready hreader fun k call hk _ => absurd (hnone.symm.trans hk) (by simp)
    · rename_i k hk
      split
      · rename_i hnone
        refine .dropData hready hreader fun k' call hk' hc => ?_
        obtain rfl := Option.some.inj (hk.symm.trans hk')
        exact absurd (hnone.symm.trans hc) (by simp)
      · rename_i call hc
        split
        · rename_i err herr
          refine .dropData hready hreader fun k' call' hk' hc' => ?_
          obtain rfl := Option.some.inj (hk.symm.trans hk')
          obtain rfl := Option.some.inj (hc.symm.trans hc')
          exact ⟨err, herr⟩
        · rename_i message hmessage
          exact .takeData hready hreader hk hc hmessage
  · rename_i channelId protocolId hreader
    obtain rfl := Option.some.inj h
    have hother : ∀ data, s.reader ≠ .data data := by simp [hreader]
    unfold SessionState.inOpen
    split
    · exact .dropOther hready hother
    · rename_i hfree
      split
      · exact .dropOther hready hother
      · rename_i k hk
        exact .takeOpen hready hreader (Option.not_isSome_iff_eq_none.mp hfree) hk
  · rename_i channelId hreader
    obtain rfl := Option.some.inj h
    have hother : ∀ data, s.reader ≠ .data data := by simp [hreader]
    unfold SessionState.inAccept
    split
    · exact .dropOther hready hother
    · rename_i hfree
      split
      · exact .dropOther hready hother
      · rename_i k hk
        split
        · exact .dropOther hready hother
        · rename_i call hc
          exact .takeAccept hready hreader (Option.not_isSome_iff_eq_none.mp hfree) hk hc
  · simp at h
  · simp at h

/-- The one that the broker hands something to receives it. -/
theorem of_pass (h : s.step protocols .pass = some t) : Effect protocols s .pass [] t := by
  simp only [SessionState.step] at h
  split at h
  · rename_i k channelId protocolId hbroker
    simp only [Option.bind_eq_bind, Option.bind_eq_some_iff, Option.ite_none_right_eq_some,
      Option.some.injEq] at h
    obtain ⟨call, hc, hphase, rfl⟩ := h
    exact .passOpen hbroker hc hphase
  · rename_i k message hbroker
    simp only [Option.bind_eq_bind, Option.bind_eq_some_iff, Option.ite_none_left_eq_some,
      Option.some.injEq, Bool.not_eq_true] at h
    obtain ⟨call, hc, hexited, rfl⟩ := h
    exact .passData hbroker hc hexited
  · simp at h
  · simp at h
  · simp at h

/-- A call writes its message. -/
theorem of_writeCall {k : ℕ} {failure : Option Err}
    (h : s.step protocols (.writeCall k failure) = some t) :
    Effect protocols s (.writeCall k failure) (s.sends protocols (.writeCall k failure)) t := by
  simp only [SessionState.step, Option.bind_eq_bind, Option.bind_eq_some_iff,
    Option.ite_none_right_eq_some] at h
  obtain ⟨call, hc, hphase, h⟩ := h
  cases failure with
  | some err =>
    obtain rfl := Option.some.inj h
    exact .writeFails hc hphase
  | none =>
    obtain rfl := Option.some.inj h
    simp only [SessionState.sends, hc]
    split
    · rename_i hkind
      have hafter : SessionState.afterWrite call.kind = .waiting := congrArg SessionState.afterWrite hkind
      rw [hafter]
      exact .writeOpen hc hphase hkind
    · rename_i hkind
      have hafter : SessionState.afterWrite call.kind = .joining := congrArg SessionState.afterWrite hkind
      rw [hafter]
      exact .writeAccept hc hphase hkind

/-- A message is written to a channel. -/
theorem of_write {k : ℕ} {message : M} {failure : Option Err}
    (h : s.step protocols (.write k message failure) = some t) :
    Effect protocols s (.write k message failure) (s.sends protocols (.write k message failure)) t := by
  simp only [SessionState.step, Option.bind_eq_bind, Option.bind_eq_some_iff,
    Option.ite_none_right_eq_some] at h
  obtain ⟨call, hc, ⟨hphase, hclosed⟩, h⟩ := h
  cases hdata : call.handle.wrapMessage protocols message with
  | error err =>
    simp only [hdata, Option.some.injEq] at h
    subst h
    cases failure with
    | none =>
      simp only [SessionState.sends, hc, hdata]
      exact .notWritten rfl
    | some err => exact .notWritten rfl
  | ok data =>
    cases failure with
    | none =>
      simp only [hdata, Option.some.injEq] at h
      subst h
      simp only [SessionState.sends, hc, hdata]
      exact .write hc hphase hclosed hdata
    | some err =>
      simp only [hdata, Option.some.injEq] at h
      subst h
      exact .notWritten rfl

end Effect

/-- Every step has one of the effects. -/
theorem SessionState.step_effect {protocols : Protocols M} {s t : SessionState M}
    {event : SessionEvent M} (h : s.step protocols event = some t) :
    Effect protocols s event (s.sends protocols event) t := by
  cases event with
  | openChannel k protocolId =>
    cases hc : s.calls k with
    | some call => simp [step, hc] at h
    | none =>
      simp only [step, hc, Option.some.injEq] at h
      exact h ▸ .openChannel hc
  | acceptChannel k protocolId =>
    cases hc : s.calls k with
    | some call => simp [step, hc] at h
    | none =>
      simp only [step, hc, Option.some.injEq] at h
      exact h ▸ .acceptChannel hc
  | takeWait k => exact .of_takeWait h
  | takeMessage => exact .of_takeMessage h
  | takeChannel k =>
    simp only [step, Option.bind_eq_bind, Option.bind_eq_some_iff, Option.ite_none_right_eq_some,
      Broker.isReady_iff, Option.some.injEq] at h
    obtain ⟨call, hc, ⟨hready, hphase⟩, rfl⟩ := h
    unfold register
    split
    · exact .panic hready rfl
    · rename_i hfree
      exact .register hready hc hphase (Option.not_isSome_iff_eq_none.mp hfree)
  | pass => exact .of_pass h
  | writeCall k failure => exact .of_writeCall h
  | proceed k =>
    simp only [step, Option.bind_eq_bind, Option.bind_eq_some_iff, Option.ite_none_right_eq_some,
      Option.some.injEq] at h
    obtain ⟨call, hc, ⟨hkind, hphase, haccepted⟩, rfl⟩ := h
    exact .proceed hc hkind hphase haccepted
  | receive message =>
    simp only [step] at h
    split at h
    · rename_i hreader
      obtain rfl := Option.some.inj h
      exact .receive hreader
    · simp at h
  | write k message failure => exact .of_write h
  | read k =>
    simp only [step, Option.bind_eq_bind, Option.bind_eq_some_iff] at h
    obtain ⟨call, hc, h⟩ := h
    split at h
    · simp at h
    · rename_i message rest hqueue
      simp only [Option.ite_none_right_eq_some, Option.some.injEq] at h
      obtain ⟨⟨hphase, hexited⟩, rfl⟩ := h
      exact .read hc hqueue hphase hexited
  | close k failure =>
    simp only [step, Option.bind_eq_bind, Option.bind_eq_some_iff, Option.ite_none_right_eq_some,
      Option.some.injEq] at h
    obtain ⟨call, hc, ⟨hphase, hclosed⟩, rfl⟩ := h
    refine .close hc hphase hclosed ?_
    cases failure <;> simp [sends, hc]
  | exit k =>
    simp only [step, Option.bind_eq_bind, Option.bind_eq_some_iff, Option.ite_none_right_eq_some,
      Option.some.injEq] at h
    obtain ⟨call, hc, ⟨hclosed, hexited⟩, rfl⟩ := h
    exact .exit hc hclosed hexited
  | closeSession =>
    simp only [step, Option.ite_none_left_eq_some, Option.some.injEq, Bool.not_eq_true] at h
    obtain ⟨hdone, rfl⟩ := h
    exact .closeSession hdone
  | stopBroker =>
    simp only [step, Option.ite_none_right_eq_some] at h
    obtain ⟨hdone, h⟩ := h
    split at h
    · rename_i hbroker
      obtain rfl := Option.some.inj h
      exact .stopBroker hdone (.inl hbroker)
    · rename_i k message hbroker
      obtain rfl := Option.some.inj h
      exact .stopBroker hdone (.inr ⟨k, message, hbroker⟩)
    · simp at h
    · simp at h
    · simp at h
  | stopReader =>
    simp only [step] at h
    split at h
    · rename_i hreader
      obtain rfl := Option.some.inj h
      exact .stopReader hreader
    · simp at h
  | leave k =>
    simp only [step, Option.bind_eq_bind, Option.bind_eq_some_iff, Option.ite_none_right_eq_some,
      Option.some.injEq] at h
    obtain ⟨call, hc, ⟨hdone, hphase⟩, rfl⟩ := h
    exact .leave hc hdone hphase

/-- What a call keeps from its start: its kind, its protocol and, for an opener, its channel. -/
structure CallCard where
  kind : CallKind
  protocolId : ℤ
  openedId : Option ℕ
deriving Repr, DecidableEq

/-- What a call keeps from its start. -/
def ChannelCall.card (call : ChannelCall M) : CallCard where
  kind := call.kind
  protocolId := call.handle.protocolId
  openedId :=
    match call.kind with
    | .opener => some call.handle.id
    | .acceptor => none

/-- What the calls keep from their start. -/
def SessionState.cards (s : SessionState M) (k : ℕ) :
    Option CallCard := (s.calls k).map ChannelCall.card

namespace SessionState

variable {s t : SessionState M}

/-- A call that goes on keeps its card. -/
theorem cards_goOn {k : ℕ} {call call' : ChannelCall M} (hc : s.calls k = some call)
    (hcalls : t.calls = (s.setCall k call').calls) (hcard : call'.card = call.card) :
    t.cards = s.cards := by
  funext j
  rw [cards, cards, hcalls]
  by_cases hj : j = k
  · subst hj
    rw [setCall_self, hc]
    exact congrArg some hcard
  · rw [setCall_of_ne s call' hj]

/-- A new call has a card of its own. -/
theorem cards_newCall {k : ℕ} {call : ChannelCall M} (hcalls : t.calls = (s.setCall k call).calls) :
    t.cards = Function.update s.cards k (some call.card) := by
  funext j
  rw [cards, hcalls]
  by_cases hj : j = k
  · subst hj
    rw [setCall_self, Function.update_self]
    rfl
  · rw [setCall_of_ne s call hj, Function.update_of_ne hj]
    rfl

end SessionState

/-- A step makes a new call or keeps the cards of all calls. -/
theorem Effect.cards_eq {protocols : Protocols M} {s t : SessionState M} {event : SessionEvent M}
    {sent : List Message} (h : Effect protocols s event sent t)
    (hopening : ∀ k i p call, s.broker = .opening k i p → s.calls k = some call → call.kind = .acceptor) :
    t.cards = s.cards ∨
      (∃ k p, s.calls k = none ∧ event = .openChannel k p ∧
        t.cards = Function.update s.cards k (some ⟨.opener, p, some s.nextId⟩)) ∨
      ∃ k p, s.calls k = none ∧ event = .acceptChannel k p ∧
        t.cards = Function.update s.cards k (some ⟨.acceptor, p, none⟩) := by
  cases h with
  | openChannel hnew => exact .inr (.inl ⟨_, _, hnew, rfl, SessionState.cards_newCall rfl⟩)
  | acceptChannel hnew => exact .inr (.inr ⟨_, _, hnew, rfl, SessionState.cards_newCall rfl⟩)
  | waitAccept _ hc => exact .inl (SessionState.cards_goOn hc rfl rfl)
  | waitOpen _ hc => exact .inl (SessionState.cards_goOn hc rfl rfl)
  | takeAccept _ _ _ _ hc => exact .inl (SessionState.cards_goOn hc rfl rfl)
  | register _ hc => exact .inl (SessionState.cards_goOn hc rfl rfl)
  | passOpen hbroker hc =>
    have hkind := hopening _ _ _ _ hbroker hc
    exact .inl (SessionState.cards_goOn hc rfl (by simp only [ChannelCall.card, hkind]))
  | passData _ hc => exact .inl (SessionState.cards_goOn hc rfl rfl)
  | writeFails hc => exact .inl (SessionState.cards_goOn hc rfl rfl)
  | writeOpen hc => exact .inl (SessionState.cards_goOn hc rfl rfl)
  | writeAccept hc => exact .inl (SessionState.cards_goOn hc rfl rfl)
  | proceed hc => exact .inl (SessionState.cards_goOn hc rfl rfl)
  | write hc => exact .inl (SessionState.cards_goOn hc rfl rfl)
  | read hc => exact .inl (SessionState.cards_goOn hc rfl rfl)
  | close hc => exact .inl (SessionState.cards_goOn hc rfl rfl)
  | exit hc => exact .inl (SessionState.cards_goOn hc rfl rfl)
  | leave hc => exact .inl (SessionState.cards_goOn hc rfl rfl)
  | _ => exact .inl rfl

/-- A message that opens a channel is written by an opener. -/
theorem Effect.sent_open {protocols : Protocols M} {s t : SessionState M} {event : SessionEvent M}
    {sent : List Message} (h : Effect protocols s event sent t) {i : ℕ} {p : ℤ}
    (hsent : ⟨some (.openChannel i p)⟩ ∈ sent) : ∃ k, t.cards k = some ⟨.opener, p, some i⟩ := by
  cases h with
  | @writeOpen k call hc _ hkind =>
    simp only [ChannelHandle.openMessage, List.mem_singleton, Message.mk.injEq, Option.some.injEq,
      Content.openChannel.injEq] at hsent
    obtain ⟨rfl, rfl⟩ := hsent
    refine ⟨k, ?_⟩
    rw [SessionState.cards, SessionState.setCall_self, Option.map_some, ChannelCall.card]
    simp only [hkind]
  | writeAccept => simp [ChannelHandle.acceptMessage] at hsent
  | write => simp at hsent
  | close _ _ _ hclose =>
    have hmem := hclose hsent
    simp [ChannelHandle.closeMessage] at hmem
  | _ => simp at hsent

/-- A closed session stays closed. -/
theorem Effect.isDone {protocols : Protocols M} {s t : SessionState M} {event : SessionEvent M}
    {sent : List Message} (h : Effect protocols s event sent t) (hdone : s.isDone = true) :
    t.isDone = true := by
  cases h with
  | closeSession => rfl
  | _ => exact hdone

end ProjektCore.Session
