import Mathlib.Data.List.Nodup
import ProjektCore.Session.Agreement
import ProjektCore.Session.Panics

/-!
# Two sessions do not crash each other

A peer that is free to choose the numbers of its channels can make the broker of a session panic.
The peer of a session is another session, which numbers its channels with a counter of its own
parity and announces each of them once. So the message that opens a channel is on its way once, and
no call is told about a channel twice: the numbers of the peer are always new. If the calls of both
sides await no protocol twice at the same time and none on a closed session, and the counters do not
overflow, neither broker panics, in any order of the steps of both sides.
-/

namespace ProjektCore.Session

open Foundation

variable {M : Type} {protocols : Protocols M}

/-- The number of the channel that the reading goroutine has received. -/
def Reader.opens : Reader → Option ℕ
  | .inOpen channelId _ => some channelId
  | .reading | .data _ | .inAccept _ | .stopped => none

/-- The number of the channel that the broker tells an acceptor. -/
def Broker.opens : Broker M → Option ℕ
  | .opening _ channelId _ => some channelId
  | .ready | .delivering .. | .panicked | .stopped => none

/-- The number of the channel that a message opens. -/
def Message.opens (message : Message) : Option ℕ := (readHandler message).opens

/-- The number that an acceptor was told. -/
def ChannelCall.told (call : ChannelCall M) : Option ℕ :=
  if call.kind = .acceptor ∧ call.phase.isTold = true then some call.handle.id else none

/-- The number of an opener that has not written its message yet. -/
def ChannelCall.unwritten (call : ChannelCall M) : Option ℕ :=
  if call.kind = .opener ∧ (call.phase = .registering ∨ call.phase = .writing) then some call.handle.id else none

namespace SessionState

variable {s t : SessionState M}

/-- The numbers of the channels that the peer has opened and no call was told yet, with those that
are on their way. -/
def announced (s : SessionState M) (incoming : List Message) : List ℕ :=
  s.broker.opens.toList ++ (s.reader.opens.toList ++ incoming.filterMap Message.opens)

/-- A call has a number, in a given sense. -/
def Has (f : ChannelCall M → Option ℕ) (s : SessionState M) (i : ℕ) : Prop :=
  ∃ k call, s.calls k = some call ∧ f call = some i

variable {f : ChannelCall M → Option ℕ} {i : ℕ}

/-- The same calls have the same numbers. -/
theorem Has.congr (h : t.Has f i) (hcalls : t.calls = s.calls) : s.Has f i := by
  obtain ⟨k, call, hc, hi⟩ := h
  exact ⟨k, call, hcalls ▸ hc, hi⟩

/-- The numbers after a call is replaced. -/
theorem Has.of_setCall {k : ℕ} {call : ChannelCall M} (h : t.Has f i)
    (hcalls : t.calls = (s.setCall k call).calls) :
    s.Has f i ∨ f call = some i := by
  obtain ⟨j, other, ho, hi⟩ := h
  rw [hcalls] at ho
  rcases setCall_cases ho with ⟨-, rfl⟩ | ⟨-, ho⟩
  · exact .inr hi
  · exact .inl ⟨j, other, ho, hi⟩

/-- A call that goes on has no number that it did not have. -/
theorem Has.of_goOn {k : ℕ} {call call' : ChannelCall M} (h : t.Has f i)
    (hc : s.calls k = some call) (hcalls : t.calls = (s.setCall k call').calls)
    (hf : f call' = none ∨ f call' = f call) : s.Has f i := by
  rcases h.of_setCall hcalls with h | hi
  · exact h
  · rcases hf with hf | hf
    · rw [hf] at hi
      cases hi
    · exact ⟨k, call, hc, hf ▸ hi⟩

end SessionState

namespace Effect

open SessionState

variable {s t : SessionState M} {event : SessionEvent M} {sent : List Message}

/-- A call is told about a channel only when the broker hands it to the call. -/
theorem told (h : Effect protocols s event sent t) {i : ℕ} (ht : t.Has ChannelCall.told i) :
    s.Has ChannelCall.told i ∨ event = .pass ∧ ∃ k p, s.broker = .opening k i p := by
  cases h with
  | openChannel | acceptChannel =>
    refine .inl ((ht.of_setCall rfl).resolve_right ?_)
    simp [ChannelCall.told, ChannelCall.new, CallPhase.isTold]
  | @passOpen k channelId p call hbroker =>
    have hcases : s.Has ChannelCall.told i ∨
        ChannelCall.told { call with handle := ⟨call.handle.protocolId, channelId⟩, phase := .writing } = some i :=
      ht.of_setCall rfl
    rcases hcases with ht | hi
    · exact .inl ht
    · obtain ⟨-, hid⟩ := Option.ite_none_right_eq_some.mp hi
      obtain rfl := Option.some.inj hid
      exact .inr ⟨rfl, k, p, hbroker⟩
  | panic | dropData | dropOther | takeData | takeOpen | receive | closeSession | stopBroker | stopReader =>
    exact .inl (ht.congr rfl)
  | notWritten => exact .inl ht
  | waitAccept _ hc hkind => exact .inl (ht.of_goOn hc rfl (.inl (by simp [ChannelCall.told, hkind])))
  | waitOpen _ hc | writeFails hc | leave hc =>
    exact .inl (ht.of_goOn hc rfl (.inl (by simp [ChannelCall.told, CallPhase.isTold])))
  | takeAccept _ _ _ _ hc | passData _ hc | write hc | read hc | close hc | exit hc =>
    exact .inl (ht.of_goOn hc rfl (.inr rfl))
  | register _ hc hphase | writeAccept hc hphase =>
    exact .inl (ht.of_goOn hc rfl (.inr (by simp [ChannelCall.told, CallPhase.isTold, hphase])))
  | writeOpen hc _ hkind | proceed hc hkind =>
    exact .inl (ht.of_goOn hc rfl (.inl (by simp [ChannelCall.told, hkind])))

/-- A step keeps what is announced, apart from what it drops and from what it tells a call. -/
theorem announced (h : Effect protocols s event sent t) (rest : List Message) :
    (t.announced rest).Sublist (s.announced (event.receives ++ rest)) ∧
        (∀ i, t.Has ChannelCall.told i → s.Has ChannelCall.told i) ∨
      ∃ i, s.announced (event.receives ++ rest) = i :: t.announced rest ∧
        ∀ j, t.Has ChannelCall.told j → s.Has ChannelCall.told j ∨ j = i := by
  have htold (i : ℕ) (ht : t.Has ChannelCall.told i) := h.told ht
  have hkept (hlist : (t.announced rest).Sublist (s.announced (event.receives ++ rest)))
      (hbroker : ∀ k i p, s.broker ≠ .opening k i p ∨ event ≠ .pass) :
      (t.announced rest).Sublist (s.announced (event.receives ++ rest)) ∧
        (∀ i, t.Has ChannelCall.told i → s.Has ChannelCall.told i) := by
    refine ⟨hlist, fun i ht => (htold i ht).resolve_right ?_⟩
    rintro ⟨hpass, k, p, hopening⟩
    exact (hbroker k i p).elim (fun hne => hne hopening) (fun hne => hne hpass)
  cases h with
  | @passOpen k i p call hbroker =>
    right
    refine ⟨i, ?_, ?_⟩
    · simp [SessionState.announced, SessionEvent.receives, hbroker, opened, setCall, Broker.opens]
    · intro j ht
      rcases htold j ht with ht | ⟨-, k', p', hopening⟩
      · exact .inl ht
      · rw [hbroker] at hopening
        obtain ⟨-, rfl, -⟩ := Broker.opening.inj hopening
        exact .inr rfl
  | passData hbroker =>
    refine .inl (hkept ?_ fun k i p => .inl (by simp [hbroker]))
    simp [SessionState.announced, SessionEvent.receives, setCall, hbroker, Broker.opens]
  | panic hready hreceives =>
    refine .inl (hkept ?_ fun k i p => .inl (by simp [hready]))
    simp [SessionState.announced, hreceives, hready, Broker.opens]
  | notWritten hreceives => exact .inl ⟨by simp [hreceives], fun _ h => h⟩
  | dropData | dropOther =>
    refine .inl (hkept ?_ fun _ _ _ => .inr (by simp))
    simp [SessionState.announced, SessionEvent.receives, Reader.opens]
  | takeData hready hreader =>
    refine .inl (hkept ?_ fun _ _ _ => .inr (by simp))
    simp [SessionState.announced, SessionEvent.receives, hready, hreader, Broker.opens,
      Reader.opens]
  | takeOpen hready hreader =>
    refine .inl (hkept ?_ fun _ _ _ => .inr (by simp))
    simp [SessionState.announced, SessionEvent.receives, hready, hreader, Broker.opens,
      Reader.opens]
  | takeAccept hready hreader =>
    refine .inl (hkept ?_ fun _ _ _ => .inr (by simp))
    simp [SessionState.announced, SessionEvent.receives, setCall, hreader, Reader.opens]
  | @receive message hreader =>
    refine .inl (hkept ?_ fun _ _ _ => .inr (by simp))
    have hmessage : (readHandler message).opens.toList ++ rest.filterMap Message.opens =
        ([message] ++ rest).filterMap Message.opens := by
      rw [List.filterMap_append, List.filterMap_cons, Message.opens]
      cases (readHandler message).opens <;> rfl
    rw [SessionState.announced, SessionState.announced, SessionEvent.receives, ← hmessage, hreader]
    exact List.Sublist.refl _
  | stopBroker _ hbroker =>
    refine .inl (hkept ?_ fun _ _ _ => .inr (by simp))
    rcases hbroker with hbroker | ⟨k, message, hbroker⟩ <;>
      simp [SessionState.announced, SessionEvent.receives, hbroker, Broker.opens]
  | stopReader hreader =>
    refine .inl (hkept ?_ fun _ _ _ => .inr (by simp))
    simp [SessionState.announced, SessionEvent.receives, hreader, Reader.opens]
  | _ =>
    refine .inl (hkept ?_ fun _ _ _ => .inr (by simp))
    simp [SessionState.announced, SessionEvent.receives, setCall]

/-- A step announces the number of an opener that has not been announced before, or none; openers
that have not written their message are new or were there before. -/
theorem unwritten (h : Effect protocols s event sent t)
    (hopening : ∀ k i p call, s.broker = .opening k i p → s.calls k = some call → call.kind = .acceptor) :
    sent.filterMap Message.opens = [] ∧ (∀ i, t.Has ChannelCall.unwritten i →
        s.Has ChannelCall.unwritten i ∨ i = s.nextId) ∨
      ∃ k call, s.calls k = some call ∧ call.unwritten = some call.handle.id ∧
        sent.filterMap Message.opens = [call.handle.id] ∧
        t.calls = (s.setCall k { call with phase := .waiting }).calls := by
  have hsilent {k : ℕ} {call call' : ChannelCall M} (hc : s.calls k = some call)
      (hcalls : t.calls = (s.setCall k call').calls) (hsent : sent.filterMap Message.opens = [])
      (hf : call'.unwritten = none ∨ call'.unwritten = call.unwritten) :
      sent.filterMap Message.opens = [] ∧ (∀ i, t.Has ChannelCall.unwritten i →
        s.Has ChannelCall.unwritten i ∨ i = s.nextId) :=
    ⟨hsent, fun i ht => .inl (ht.of_goOn hc hcalls hf)⟩
  cases h with
  | openChannel =>
    refine .inl ⟨rfl, fun i ht => ?_⟩
    rcases ht.of_setCall rfl with ht | hi
    · exact .inl ht
    · simp only [ChannelCall.unwritten, ChannelCall.new, Option.ite_none_right_eq_some,
        Option.some.injEq] at hi
      exact .inr hi.2.symm
  | acceptChannel =>
    refine .inl ⟨rfl, fun i ht => .inl ((ht.of_setCall rfl).resolve_right ?_)⟩
    simp [ChannelCall.unwritten, ChannelCall.new]
  | panic | dropData | dropOther | takeData | takeOpen | receive | closeSession
  | stopBroker | stopReader | notWritten =>
    exact .inl ⟨rfl, fun i ht => .inl (ht.congr rfl)⟩
  | waitAccept _ hc _ hphase => exact .inl (hsilent hc rfl rfl (.inr (by simp [ChannelCall.unwritten, hphase])))
  | waitOpen _ hc hkind => exact .inl (hsilent hc rfl rfl (.inl (by simp [ChannelCall.unwritten, hkind])))
  | takeAccept _ _ _ _ hc | passData _ hc | read hc | exit hc => exact .inl (hsilent hc rfl rfl (.inr rfl))
  | register _ hc | writeFails hc | proceed hc | leave hc =>
    exact .inl (hsilent hc rfl rfl (.inl (by simp [ChannelCall.unwritten])))
  | passOpen hbroker hc =>
    have hkind := hopening _ _ _ _ hbroker hc
    exact .inl (hsilent hc rfl rfl (.inl (by simp [ChannelCall.unwritten, hkind])))
  | writeAccept hc => exact .inl (hsilent hc rfl rfl (.inl (by simp [ChannelCall.unwritten])))
  | write hc => exact .inl (hsilent hc rfl rfl (.inr rfl))
  | @close k call _ sent hc _ _ hclose =>
    refine .inl (hsilent hc rfl ?_ (.inr rfl))
    refine List.filterMap_eq_nil_iff.mpr fun message hmem => ?_
    rw [List.mem_singleton.mp (hclose hmem)]
    rfl
  | @writeOpen k call hc hphase hkind =>
    exact .inr ⟨k, call, hc, by simp [ChannelCall.unwritten, hphase, hkind], rfl, rfl⟩

end Effect

namespace SessionState

/-- What is announced to a session is announced once: no call was told about it, and the peer has
not written the messages of openers with other numbers. -/
structure AnnouncedOnce (s peer : SessionState M) (incoming : List Message) : Prop where
  distinct : (s.announced incoming).Nodup
  told : ∀ i, s.Has ChannelCall.told i → i ∉ s.announced incoming
  unwritten : ∀ i, peer.Has ChannelCall.unwritten i → i ∉ s.announced incoming ∧ ¬ s.Has ChannelCall.told i

variable {s t peer : SessionState M} {event : SessionEvent M} {sent rest : List Message}

/-- A step of the session that receives keeps this. -/
theorem AnnouncedOnce.take (h : s.AnnouncedOnce peer (event.receives ++ rest))
    (heffect : Effect protocols s event sent t) : t.AnnouncedOnce peer rest := by
  rcases heffect.announced rest with ⟨hlist, htold⟩ | ⟨i, hlist, htold⟩
  · refine ⟨h.distinct.sublist hlist, ?_, ?_⟩
    · intro i ht hmem
      exact h.told i (htold i ht) (hlist.subset hmem)
    · intro i hi
      obtain ⟨hnot, huntold⟩ := h.unwritten i hi
      exact ⟨fun hmem => hnot (hlist.subset hmem), fun ht => huntold (htold i ht)⟩
  · have hdistinct := h.distinct
    rw [hlist, List.nodup_cons] at hdistinct
    refine ⟨hdistinct.2, ?_, ?_⟩
    · intro j ht hmem
      rcases htold j ht with ht | rfl
      · exact h.told j ht (hlist ▸ List.mem_cons_of_mem _ hmem)
      · exact hdistinct.1 hmem
    · intro j hj
      obtain ⟨hnot, huntold⟩ := h.unwritten j hj
      rw [hlist, List.mem_cons, not_or] at hnot
      refine ⟨hnot.2, fun ht => ?_⟩
      rcases htold j ht with ht | hi
      · exact huntold ht
      · exact hnot.1 hi

/-- What is announced after the peer has written messages. -/
theorem announced_append (s : SessionState M) (incoming sent : List Message) :
    s.announced (incoming ++ sent) = s.announced incoming ++ sent.filterMap Message.opens := by
  simp [announced, List.filterMap_append]

/-- An opener is the only call with its number. -/
theorem Orderly.unwritten_ne (h : s.Orderly) {k : ℕ} {call : ChannelCall M}
    (hc : s.calls k = some call) (hcall : call.unwritten = some call.handle.id) {i : ℕ}
    (hi : (s.setCall k { call with phase := .waiting }).Has ChannelCall.unwritten i) :
    s.Has ChannelCall.unwritten i ∧ i ≠ call.handle.id := by
  obtain ⟨j, other, ho, hother⟩ := hi
  rcases setCall_cases ho with ⟨-, rfl⟩ | ⟨hj, ho⟩
  · simp [ChannelCall.unwritten] at hother
  · refine ⟨⟨j, other, ho, hother⟩, ?_⟩
    rintro rfl
    obtain ⟨⟨hkind, -⟩, -⟩ := Option.ite_none_right_eq_some.mp hcall
    obtain ⟨⟨hkind', -⟩, hid⟩ := Option.ite_none_right_eq_some.mp hother
    have hclaims : s.claims j = some call.handle.id := by
      rw [claims_eq ho, ChannelCall.claimed_opener hkind', hid]
    have hclaims' : s.claims k = some call.handle.id := by
      rw [claims_eq hc, ChannelCall.claimed_opener hkind]
    exact hj (h.unique j k _ hclaims hclaims')

/-- A step of the session that announces keeps this. -/
theorem AnnouncedOnce.write {incoming : List Message} {peer' : SessionState M}
    (h : s.AnnouncedOnce peer incoming) (horderly : peer.Orderly)
    (hopening : ∀ k i p call, peer.broker = .opening k i p → peer.calls k = some call → call.kind = .acceptor)
    (hopened : ∀ i, i ∈ s.announced incoming ∨ s.Has ChannelCall.told i → i < peer.nextId)
    (heffect : Effect protocols peer event sent peer') :
    s.AnnouncedOnce peer' (incoming ++ sent) := by
  rcases heffect.unwritten hopening with ⟨hsent, hnew⟩ | ⟨k, call, hc, hcall, hsent, hcalls⟩
  · have hsame : s.announced (incoming ++ sent) = s.announced incoming := by
      rw [announced_append, hsent, List.append_nil]
    refine ⟨hsame ▸ h.distinct, fun i ht => hsame ▸ h.told i ht, ?_⟩
    intro i hi
    rw [hsame]
    rcases hnew i hi with hi | rfl
    · exact h.unwritten i hi
    · exact ⟨fun hmem => lt_irrefl _ (hopened _ (.inl hmem)), fun ht => lt_irrefl _ (hopened _ (.inr ht))⟩
  · have hwritten : peer.Has ChannelCall.unwritten call.handle.id := ⟨k, call, hc, hcall⟩
    obtain ⟨hnot, huntold⟩ := h.unwritten _ hwritten
    have hsame : s.announced (incoming ++ sent) = s.announced incoming ++ [call.handle.id] := by
      rw [announced_append, hsent]
    refine ⟨?_, ?_, ?_⟩
    · rw [hsame, List.nodup_append]
      exact ⟨h.distinct, List.nodup_singleton _, by rintro i hi j hj rfl; exact hnot (List.mem_singleton.mp hj ▸ hi)⟩
    · intro i ht
      rw [hsame, List.mem_append, List.mem_singleton, not_or]
      refine ⟨h.told i ht, ?_⟩
      rintro rfl
      exact huntold ht
    · intro i hi
      obtain ⟨hi, hne⟩ := horderly.unwritten_ne hc hcall (hi.congr hcalls)
      obtain ⟨hnot, huntold⟩ := h.unwritten i hi
      rw [hsame, List.mem_append, List.mem_singleton, not_or]
      exact ⟨⟨hnot, hne⟩, huntold⟩

/-- The counter of the session's own numbers does not overflow. -/
def NumbersLeft (s : SessionState M) : SessionEvent M → Prop
  | .openChannel _ _ => s.nextId + 2 < 2 ^ 64
  | _ => True

/-- The parity of the counter does not change. -/
theorem nextId_parity (heffect : Effect protocols s event sent t) (hleft : s.NumbersLeft event) :
    t.nextId % 2 = s.nextId % 2 := by
  cases heffect with
  | openChannel =>
    have hbound : s.nextId + 2 < 2 ^ 64 := hleft
    simp only [setCall]
    omega
  | _ => rfl

end SessionState

namespace Link

open SessionState

/-- No protocol is awaited by two calls of a side at the same time, no channel is accepted on a
session that is closed, and the counters do not overflow. -/
def CallsApart (l : Link M) : LinkEvent M → Prop
  | .act x event => (l.sessions x).AwaitsOnce event ∧ (l.sessions x).NumbersLeft event
  | .deliver _ => True

/-- What holds for each side of two sessions. -/
structure Peaceful (l : Link M) (x : End) : Prop where
  orderly : (l.sessions x).Orderly
  registry : (l.sessions x).Registry
  running : (l.sessions x).broker ≠ .panicked
  parity : (l.sessions x).nextId % 2 = x.firstId % 2
  once : (l.sessions x).AnnouncedOnce (l.sessions x.peer) (l.incoming x)
  informed : Informed (fun _ => Set.univ) (fun _ => Set.univ) l x

variable {l l' : Link M}

/-- New sessions. -/
theorem peaceful_new (x : End) : Peaceful (.new : Link M) x where
  orderly := orderly_new _
  registry := registry_new _
  running := by simp [new, SessionState.new]
  parity := rfl
  once := by
    constructor <;> simp [new, SessionState.new, announced, Has, Broker.opens, Reader.opens]
  informed := informed_new x

/-- Every number that is announced or told was given to a channel by the peer. -/
theorem Peaceful.opened {x : End} (h : l.Peaceful x) {i : ℕ}
    (hi : i ∈ (l.sessions x).announced (l.incoming x) ∨ (l.sessions x).Has ChannelCall.told i) :
    (l.sessions x.peer).Opened i := by
  rcases hi with hmem | ⟨k, call, hc, hcall⟩
  · rcases List.mem_append.mp hmem with hbroker | hmem
    · cases hopening : (l.sessions x).broker with
      | opening k j p =>
        rw [hopening, Broker.opens, Option.mem_toList] at hbroker
        obtain rfl := Option.some.inj hbroker
        exact (h.informed.told.opening k j p hopening).2.1
      | _ =>
        rw [hopening] at hbroker
        cases hbroker
    · rcases List.mem_append.mp hmem with hreader | hmem
      · cases hinOpen : (l.sessions x).reader with
        | inOpen j p =>
          rw [hinOpen, Reader.opens, Option.mem_toList] at hreader
          obtain rfl := Option.some.inj hreader
          exact (h.informed.told.reader j p hinOpen).2
        | _ =>
          rw [hinOpen] at hreader
          cases hreader
      · obtain ⟨message, hmessage, hopens⟩ := List.mem_filterMap.mp hmem
        unfold Message.opens at hopens
        cases hhandler : readHandler message with
        | inOpen j p =>
          rw [hhandler, Reader.opens] at hopens
          obtain rfl := Option.some.inj hopens
          obtain ⟨-, type, rfl⟩ := readHandler_eq_inOpen hhandler
          exact h.informed.incoming j type hmessage
        | _ =>
          rw [hhandler] at hopens
          cases hopens
  · obtain ⟨⟨hkind, htold⟩, hid⟩ := Option.ite_none_right_eq_some.mp hcall
    obtain rfl := Option.some.inj hid
    exact (h.informed.told.told k call hc hkind htold).2

/-- A number of a channel of the peer is below the counter of the peer and has its parity. -/
theorem opened_lt {x : End} (h : (l.sessions x).Orderly) {i : ℕ} (hi : (l.sessions x).Opened i) :
    i < (l.sessions x).nextId ∧ i % 2 = (l.sessions x).nextId % 2 := by
  obtain ⟨k, opener, ho, hkind, rfl⟩ := hi.exists_opener
  exact h.openers k opener ho hkind

/-- The numbers that the peer announces are new and of its own parity. -/
theorem Peaceful.numbersApart (h : ∀ x, l.Peaceful x) {x : End} {event : SessionEvent M}
    (hleft : (l.sessions x).NumbersLeft event) : (l.sessions x).NumbersApart event := by
  cases event with
  | openChannel k p => exact hleft
  | takeMessage =>
    intro i p hreader _ _
    have hmem : i ∈ (l.sessions x).announced (l.incoming x) := by
      refine List.mem_append_right _ (List.mem_append_left _ ?_)
      rw [hreader]
      exact List.mem_singleton.mpr rfl
    obtain ⟨-, hparity⟩ := opened_lt (h x.peer).orderly ((h x).opened (.inl hmem))
    refine ⟨?_, ?_⟩
    · rw [hparity, (h x.peer).parity, (h x).parity]
      cases x <;> decide
    · intro k call hc hkind htold hid
      refine (h x).once.told i ⟨k, call, hc, ?_⟩ hmem
      rw [ChannelCall.told, if_pos ⟨hkind, htold⟩, hid]
  | _ => trivial

/-- Every step keeps what holds for both sides. -/
theorem peaceful_step (h : ∀ x, l.Peaceful x) {event : LinkEvent M} (hguard : l.CallsApart event)
    (hstep : l.step protocols event = some l') (y : End) : l'.Peaceful y := by
  have hallowed : Allowed (fun _ => Set.univ) (fun _ => Set.univ) event := by
    unfold Allowed
    split <;> trivial
  have hinformed := informed_step (fun x => (h x).informed) hallowed hstep
  obtain ⟨x, e, s, rest, hs, hact, hincoming, hx, hpeer, hrest, hout⟩ := step_eq_some hstep
  have heffect := step_effect hs
  obtain ⟨hawaits, hleft⟩ : (l.sessions x).AwaitsOnce e ∧ (l.sessions x).NumbersLeft e := by
    by_cases hreceives : e.receives = []
    · rw [hact hreceives] at hguard
      exact hguard
    · cases e with
      | receive message => exact ⟨trivial, trivial⟩
      | _ => exact absurd rfl hreceives
  by_cases hy : y = x
  · subst hy
    have horderly := (h y).orderly.step hawaits (Peaceful.numbersApart h hleft) heffect
    refine ⟨hx ▸ horderly, hx ▸ (h y).registry.step heffect, ?_, ?_, ?_, hinformed y⟩
    · rw [hx]
      intro hpanic
      exact (h y).orderly.no_panicCause (h y).registry (panicCause_of_step hs (h y).running hpanic)
    · rw [hx, nextId_parity heffect hleft]
      exact (h y).parity
    · rw [hx, hpeer, hrest]
      exact AnnouncedOnce.take (hincoming ▸ (h y).once) heffect
  · obtain rfl := End.eq_peer_of_ne hy
    refine ⟨hpeer ▸ (h x.peer).orderly, hpeer ▸ (h x.peer).registry, hpeer ▸ (h x.peer).running,
      hpeer ▸ (h x.peer).parity, ?_, hinformed x.peer⟩
    have honce := (h x.peer).once
    rw [End.peer_peer] at honce
    rw [hpeer, hout, End.peer_peer, hx]
    refine honce.write (h x).orderly (fun _ _ _ _ => (h x).informed.told.opening_kind) ?_ heffect
    intro i hi
    have hopened := (h x.peer).opened hi
    rw [End.peer_peer] at hopened
    exact (opened_lt (h x).orderly hopened).1

/-- What holds for both sides in every state that two sessions reach. -/
theorem peaceful_of_reached (h : Reached (Link.step protocols) CallsApart .new l) (x : End) :
    l.Peaceful x :=
  h.invariant (fun l => ∀ x, l.Peaceful x) peaceful_new (fun _ _ _ h hguard hstep => peaceful_step h hguard hstep) x

end Link

/-- Two sessions do not crash each other. If no protocol is awaited by two calls of a side at the
same time, no channel is accepted on a session that is closed and the counters do not overflow, then
in every state that two sessions reach neither broker panics, and no two calls of a side are told
about the same channel. A call on a closed session is left out, since it may take the place of one
that has left before the broker stops. -/
theorem two_brokers_never_panic (protocols : Protocols M) {l : Link M}
    (h : Reached (Link.step protocols) Link.CallsApart .new l) (x : End) :
    (l.sessions x).broker ≠ .panicked ∧
      ∀ j k c d, (l.sessions x).calls j = some c → (l.sessions x).calls k = some d → c.kind = .acceptor →
        d.kind = .acceptor → c.phase.isTold = true → d.phase.isTold = true → c.handle.id = d.handle.id → j = k := by
  have hpeaceful := Link.peaceful_of_reached h x
  refine ⟨hpeaceful.running, ?_⟩
  intro j k c d hc hd hkind hkind' htold htold' hid
  refine hpeaceful.orderly.unique j k c.handle.id ?_ ?_
  · rw [SessionState.claims_eq hc, ChannelCall.claimed_acceptor hkind, if_pos htold]
  · rw [SessionState.claims_eq hd, ChannelCall.claimed_acceptor hkind', if_pos htold', hid]

/-- Both sides await and open a channel, and the messages that open them cross. -/
theorem two_brokers_never_panic_crossed :
    ∃ l : Link Bytes, Reached (Link.step ⟨fun _ => plainCodec, 100⟩) Link.CallsApart .new l ∧
      (l.sessions .initiator).channels 1 = some 0 ∧ (l.sessions .initiator).channels 2 = some 1 ∧
      (l.sessions .responder).channels 1 = some 1 ∧ (l.sessions .responder).channels 2 = some 0 ∧
      ∀ x, (l.sessions x).broker ≠ .panicked := by
  have hstart : Reached (Link.step ⟨fun _ => plainCodec, 100⟩) Link.CallsApart (.new : Link Bytes) .new := .start
  have hawait := hstart.extend (.act .initiator (.acceptChannel 1 1)) ⟨awaitsOnce_new true 1 1, trivial⟩ rfl
  have hawaits := hawait.extend (.act .responder (.acceptChannel 1 1)) ⟨awaitsOnce_new false 1 1, trivial⟩ rfl
  have hopen := hawaits.extend (.act .initiator (.openChannel 0 1)) ⟨trivial, (by decide : 1 + 2 < 2 ^ 64)⟩ rfl
  have hopens := hopen.extend (.act .responder (.openChannel 0 1)) ⟨trivial, (by decide : 2 + 2 < 2 ^ 64)⟩ rfl
  have hjoined := hopens.executeLabels
    ([.act .initiator (.takeWait 0), .act .initiator (.takeWait 1), .act .initiator (.writeCall 0 none),
      .act .responder (.takeWait 0), .act .responder (.takeWait 1), .act .responder (.writeCall 0 none)] ++
      acceptsPeer .initiator ++ acceptsPeer .responder ++ joinsOwn .initiator ++ joinsOwn .responder)
    (by simp [acceptsPeer, joinsOwn, Link.CallsApart, SessionState.AwaitsOnce, SessionState.NumbersLeft]) rfl
  exact ⟨_, hjoined, rfl, rfl, rfl, rfl, fun x => (two_brokers_never_panic _ hjoined x).1⟩

end ProjektCore.Session
