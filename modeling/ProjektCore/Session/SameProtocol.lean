import Mathlib.Data.Set.Basic
import ProjektCore.Session.Effect
import ProjektCore.Session.Link

/-!
# The protocol of a channel

The reading goroutine takes the number of the protocol that a message opens from the type of the
message, which is one for all messages that open a channel. So a channel of any protocol is accepted
by a call for the protocol with the number one, and by no other call. The two ends of every channel
speak the same protocol exactly if no protocol but this one is opened, or this one is not accepted.
-/

namespace ProjektCore.Session

open Foundation

variable {M : Type} {protocols : Protocols M}

/-- An acceptor in this phase knows the number of its channel. -/
def CallPhase.isTold : CallPhase → Bool
  | .writing | .joining | .returned => true
  | .registering | .waiting | .failed _ => false

namespace SessionState

/-- A call of this session has opened a channel. -/
def Opened (s : SessionState M) (channelId : ℕ) :
    Prop := ∃ k p, s.cards k = some ⟨.opener, p, some channelId⟩

/-- The calls open and accept only channels of given protocols. -/
def UsesOnly (opened accepted : Set ℤ) (s : SessionState M) : Prop :=
  ∀ k card, s.cards k = some card → (card.kind = .opener → card.protocolId ∈ opened) ∧
    (card.kind = .acceptor → card.protocolId ∈ accepted)

/-- Every channel that an acceptor is told about was opened by the peer, and only acceptors of the
protocol with the number one are told. -/
structure Told (opened : ℕ → Prop) (s : SessionState M) : Prop where
  opens : ∀ p k, s.opens p = some k →
    ∃ call, s.calls k = some call ∧ call.kind = .acceptor ∧ call.handle.protocolId = p
  reader : ∀ i p, s.reader = .inOpen i p → p = 1 ∧ opened i
  opening : ∀ k i p, s.broker = .opening k i p → p = 1 ∧ opened i ∧ s.opens p = some k
  told : ∀ k call, s.calls k = some call → call.kind = .acceptor → call.phase.isTold = true →
    call.handle.protocolId = 1 ∧ opened call.handle.id

end SessionState

/-- The call that has opened a channel. -/
theorem SessionState.Opened.exists_opener {s : SessionState M} {i : ℕ} (h : s.Opened i) :
    ∃ k opener, s.calls k = some opener ∧ opener.kind = .opener ∧ opener.handle.id = i := by
  obtain ⟨k, p, hk⟩ := h
  rw [cards, Option.map_eq_some_iff] at hk
  obtain ⟨opener, ho, heq⟩ := hk
  cases hkind : opener.kind with
  | opener =>
    simp only [ChannelCall.card, hkind, CallCard.mk.injEq, Option.some.injEq, true_and] at heq
    exact ⟨k, opener, ho, hkind, heq.2⟩
  | acceptor => simp [ChannelCall.card, hkind] at heq

/-- The reading goroutine takes every protocol for the one with the number one. -/
theorem readHandler_eq_inOpen {message : Message} {i : ℕ} {p : ℤ}
    (h : readHandler message = .inOpen i p) :
    p = 1 ∧ ∃ type, message = ⟨some (.openChannel i type)⟩ := by
  obtain ⟨content⟩ := message
  cases content with
  | none => simp [readHandler, unwrapMessage] at h
  | some content =>
    cases content with
    | openChannel id type =>
      simp [readHandler, unwrapMessage, ChannelMessage.isData, ChannelMessage.opensChannel,
        ChannelMessageTypeOpen, ChannelMessageTypeData] at h
      obtain ⟨rfl, rfl⟩ := h
      exact ⟨rfl, type, rfl⟩
    | acceptChannel id =>
      simp [readHandler, unwrapMessage, ChannelMessage.isData, ChannelMessage.opensChannel,
        ChannelMessage.acceptsChannel, ChannelMessageTypeOpen, ChannelMessageTypeAccept,
        ChannelMessageTypeData] at h
    | closeChannel id =>
      simp [readHandler, unwrapMessage, ChannelMessage.isData, ChannelMessage.opensChannel,
        ChannelMessage.acceptsChannel, ChannelMessageTypeOpen, ChannelMessageTypeAccept,
        ChannelMessageTypeClose, ChannelMessageTypeData] at h
    | data data => simp [readHandler, unwrapMessage, ChannelMessage.isData] at h

namespace SessionState.Told

variable {opened : ℕ → Prop} {s t : SessionState M} {event : SessionEvent M} {sent : List Message}

/-- More channels may have been opened. -/
theorem mono {opened' : ℕ → Prop} (h : s.Told opened) (hopened : ∀ i, opened i → opened' i) :
    s.Told opened' where
  opens := h.opens
  reader i p hreader := ⟨(h.reader i p hreader).1, hopened i (h.reader i p hreader).2⟩
  opening k i p hopening :=
    have ⟨hp, hi, hk⟩ := h.opening k i p hopening
    ⟨hp, hopened i hi, hk⟩
  told k call hc hkind hphase :=
    have ⟨hp, hi⟩ := h.told k call hc hkind hphase
    ⟨hp, hopened _ hi⟩

/-- Only the waiting acceptors, the messages that open channels and the calls matter. -/
theorem congr (h : s.Told opened) (hopens : t.opens = s.opens)
    (hreader : ∀ i p, t.reader = .inOpen i p → s.reader = .inOpen i p)
    (hbroker : ∀ k i p, t.broker = .opening k i p → s.broker = .opening k i p)
    (hcalls : t.calls = s.calls) :
    t.Told opened where
  opens := by
    rw [hopens, hcalls]
    exact h.opens
  reader i p hr := h.reader i p (hreader i p hr)
  opening k i p hb := by
    rw [hopens]
    exact h.opening k i p (hbroker k i p hb)
  told := by
    rw [hcalls]
    exact h.told

/-- A new call is told nothing. -/
theorem newCall (h : s.Told opened) {k : ℕ} (hnew : s.calls k = none) (kind : CallKind) (p : ℤ)
    (i : ℕ) :
    (s.setCall k (.new kind p i)).Told opened := by
  refine ⟨?_, h.reader, h.opening, ?_⟩
  · intro q j hq
    obtain ⟨call, hc, hcall⟩ := h.opens q j hq
    have hne : j ≠ k := by
      rintro rfl
      simp [hnew] at hc
    exact ⟨call, (s.setCall_of_ne _ hne).trans hc, hcall⟩
  · intro j call hc hkind hphase
    rcases setCall_cases hc with ⟨-, rfl⟩ | ⟨-, hc⟩
    · simp [ChannelCall.new, CallPhase.isTold] at hphase
    · exact h.told j call hc hkind hphase

/-- A call that goes on without being told anything. -/
theorem setCall (h : s.Told opened) {k : ℕ} {call call' : ChannelCall M}
    (hc : s.calls k = some call) (hkind : call'.kind = call.kind)
    (hhandle : call'.handle = call.handle)
    (hphase : call'.kind = .acceptor → call'.phase.isTold = true → call.phase.isTold = true) :
    (s.setCall k call').Told opened := by
  refine ⟨?_, h.reader, h.opening, ?_⟩
  · intro q j hq
    obtain ⟨other, ho, hother⟩ := h.opens q j hq
    by_cases hj : j = k
    · subst hj
      obtain rfl := Option.some.inj (hc.symm.trans ho)
      exact ⟨call', s.setCall_self .., hkind ▸ hother.1, hhandle ▸ hother.2⟩
    · exact ⟨other, (s.setCall_of_ne _ hj).trans ho, hother⟩
  · intro j other ho hacceptor htold
    rcases setCall_cases ho with ⟨rfl, rfl⟩ | ⟨-, ho⟩
    · rw [hhandle]
      exact h.told j call hc (hkind ▸ hacceptor) (hphase hacceptor htold)
    · exact h.told j other ho hacceptor htold

/-- A call goes on, while nothing else that matters changes. -/
theorem goOn (h : s.Told opened) {k : ℕ} {call call' : ChannelCall M} (hc : s.calls k = some call)
    (hcalls : t.calls = (s.setCall k call').calls) (hkind : call'.kind = call.kind)
    (hhandle : call'.handle = call.handle)
    (hphase : call'.kind = .acceptor → call'.phase.isTold = true → call.phase.isTold = true)
    (hopens : t.opens = s.opens) (hreader : ∀ i p, t.reader = .inOpen i p → s.reader = .inOpen i p)
    (hbroker : ∀ k i p, t.broker = .opening k i p → s.broker = .opening k i p) : t.Told opened :=
  (h.setCall hc hkind hhandle hphase).congr hopens hreader hbroker hcalls

/-- An acceptor registers for its protocol. -/
theorem waitOpen (h : s.Told opened) {k : ℕ} {call : ChannelCall M} (hc : s.calls k = some call)
    (hkind : call.kind = .acceptor) (hready : s.broker = .ready) :
    Told opened { s.setCall k { call with phase := .waiting } with
      opens := Function.update s.opens call.handle.protocolId (some k) } := by
  have hset : (s.setCall k { call with phase := .waiting }).Told opened :=
    h.setCall hc rfl rfl fun _ htold => absurd htold (by simp [CallPhase.isTold])
  refine ⟨?_, hset.reader, ?_, hset.told⟩
  · intro q j hq
    simp only [Function.update_apply] at hq
    split at hq
    · rename_i hp
      obtain rfl := Option.some.inj hq
      exact ⟨_, s.setCall_self .., hkind, hp.symm⟩
    · exact hset.opens q j hq
  · intro j i p hopening
    exact absurd (hready.symm.trans hopening) (by simp)

/-- An acceptor is told about a channel. -/
theorem passOpen (h : s.Told opened) {k i : ℕ} {p : ℤ} {call : ChannelCall M}
    (hbroker : s.broker = .opening k i p) (hc : s.calls k = some call) :
    (s.opened k call i p).Told opened := by
  obtain ⟨hp, hi, hk⟩ := h.opening k i p hbroker
  obtain ⟨call', hc', hkind, hprotocol⟩ := h.opens p k hk
  obtain rfl := Option.some.inj (hc.symm.trans hc')
  refine ⟨?_, h.reader, ?_, ?_⟩
  · intro q j hq
    simp only [SessionState.opened, Function.update_apply, Option.ite_none_left_eq_some] at hq
    obtain ⟨other, ho, hother⟩ := h.opens q j hq.2
    have hj : j ≠ k := by
      rintro rfl
      obtain rfl := Option.some.inj (hc.symm.trans ho)
      exact hq.1 (hother.2.symm.trans hprotocol)
    exact ⟨other, (s.setCall_of_ne _ hj).trans ho, hother⟩
  · intro j i' p' hopening
    simp [SessionState.opened] at hopening
  · intro j other ho hacceptor htold
    rcases setCall_cases ho with ⟨rfl, rfl⟩ | ⟨-, ho⟩
    · exact ⟨hprotocol.trans hp, hi⟩
    · exact h.told j other ho hacceptor htold

/-- A step of a session keeps what its acceptors are told. -/
theorem step (h : s.Told opened) (heffect : Effect protocols s event sent t)
    (hreceive : ∀ i type, event = .receive ⟨some (.openChannel i type)⟩ → opened i) :
    t.Told opened := by
  cases heffect with
  | openChannel hnew => exact (h.newCall hnew .opener _ s.nextId).congr rfl (fun _ _ h => h) (fun _ _ _ h => h) rfl
  | acceptChannel hnew => exact h.newCall hnew _ _ _
  | panic hready => exact h.congr rfl (fun _ _ h => h) (by simp) rfl
  | waitAccept _ hc hkind =>
    exact h.goOn hc rfl rfl rfl (by simp [hkind]) rfl (fun _ _ h => h) (fun _ _ _ h => h)
  | waitOpen hready hc hkind => exact h.waitOpen hc hkind hready
  | dropData => exact h.congr rfl (by simp) (fun _ _ _ h => h) rfl
  | dropOther => exact h.congr rfl (by simp) (fun _ _ _ h => h) rfl
  | takeData => exact h.congr rfl (by simp) (by simp) rfl
  | takeOpen hready hreader _ hopens =>
    obtain ⟨hp, hi⟩ := h.reader _ _ hreader
    refine ⟨h.opens, by simp, ?_, h.told⟩
    intro k i p hopening
    simp only [Broker.opening.injEq] at hopening
    obtain ⟨rfl, rfl, rfl⟩ := hopening
    exact ⟨hp, hi, hopens⟩
  | takeAccept _ _ _ _ hc => exact h.goOn hc rfl rfl rfl (fun _ h => h) rfl (by simp) (fun _ _ _ h => h)
  | register _ hc hphase =>
    exact h.goOn hc rfl rfl rfl (by simp [hphase, CallPhase.isTold]) rfl (fun _ _ h => h) (fun _ _ _ h => h)
  | passOpen hbroker hc => exact h.passOpen hbroker hc
  | passData _ hc => exact h.goOn hc rfl rfl rfl (fun _ h => h) rfl (fun _ _ h => h) (by simp)
  | writeFails hc => exact h.setCall hc rfl rfl (by simp [CallPhase.isTold])
  | writeOpen hc _ hkind => exact h.setCall hc rfl rfl (by simp [hkind])
  | writeAccept hc hphase => exact h.setCall hc rfl rfl (by simp [hphase, CallPhase.isTold])
  | proceed hc hkind => exact h.setCall hc rfl rfl (by simp [hkind])
  | receive hreader =>
    refine ⟨h.opens, ?_, h.opening, h.told⟩
    intro i p hmessage
    obtain ⟨hp, type, rfl⟩ := readHandler_eq_inOpen hmessage
    exact ⟨hp, hreceive i type rfl⟩
  | write hc => exact h.setCall hc rfl rfl fun _ h => h
  | notWritten => exact h
  | read hc => exact h.setCall hc rfl rfl fun _ h => h
  | close hc => exact h.setCall hc rfl rfl fun _ h => h
  | exit hc => exact h.setCall hc rfl rfl fun _ h => h
  | closeSession => exact h.congr rfl (fun _ _ h => h) (fun _ _ _ h => h) rfl
  | stopBroker => exact h.congr rfl (fun _ _ h => h) (by simp) rfl
  | stopReader => exact h.congr rfl (by simp) (fun _ _ _ h => h) rfl
  | leave hc => exact h.setCall hc rfl rfl (by simp [CallPhase.isTold])

/-- The call that the broker tells about a channel is an acceptor. -/
theorem opening_kind (h : s.Told opened) {k i : ℕ} {p : ℤ} {call : ChannelCall M}
    (hbroker : s.broker = .opening k i p) (hc : s.calls k = some call) : call.kind = .acceptor := by
  obtain ⟨call', hc', hkind, -⟩ := h.opens p k (h.opening k i p hbroker).2.2
  exact Option.some.inj (hc.symm.trans hc') ▸ hkind

/-- Channels that have been opened stay so. -/
theorem opened_step {i : ℕ} (h : s.Told opened) (heffect : Effect protocols s event sent t)
    (hopened : s.Opened i) : t.Opened i := by
  obtain ⟨k, p, hk⟩ := hopened
  have hnew {j : ℕ} (hj : s.calls j = none) : k ≠ j := by
    rintro rfl
    simp [cards, hj] at hk
  rcases heffect.cards_eq fun _ _ _ _ => h.opening_kind with hcards | ⟨j, q, hj, -, hcards⟩ | ⟨j, q, hj, -, hcards⟩
  · exact ⟨k, p, by rw [hcards, hk]⟩
  · exact ⟨k, p, by rw [hcards, Function.update_of_ne (hnew hj), hk]⟩
  · exact ⟨k, p, by rw [hcards, Function.update_of_ne (hnew hj), hk]⟩

/-- Steps that open and accept only channels of given protocols. -/
theorem usesOnly_step {openedProtocols acceptedProtocols : Set ℤ} (h : s.Told opened)
    (heffect : Effect protocols s event sent t)
    (huses : s.UsesOnly openedProtocols acceptedProtocols)
    (hopen : ∀ k p, event = .openChannel k p → p ∈ openedProtocols)
    (haccept : ∀ k p, event = .acceptChannel k p → p ∈ acceptedProtocols) :
    t.UsesOnly openedProtocols acceptedProtocols := by
  intro k card hk
  rcases heffect.cards_eq fun _ _ _ _ => h.opening_kind with hcards | ⟨j, q, -, he, hcards⟩ | ⟨j, q, -, he, hcards⟩
  · exact huses k card (hcards ▸ hk)
  · rw [hcards, Function.update_apply] at hk
    split at hk
    · obtain rfl := Option.some.inj hk
      exact ⟨fun _ => hopen j q he, by simp⟩
    · exact huses k card hk
  · rw [hcards, Function.update_apply] at hk
    split at hk
    · obtain rfl := Option.some.inj hk
      exact ⟨by simp, fun _ => haccept j q he⟩
    · exact huses k card hk

end SessionState.Told

namespace Link

/-- Only channels of given protocols are opened and accepted on the two sides. -/
def Allowed (opened accepted : End → Set ℤ) : LinkEvent M → Prop
  | .act x (.openChannel _ p) => p ∈ opened x
  | .act x (.acceptChannel _ p) => p ∈ accepted x
  | _ => True

/-- Every channel that an acceptor has returned was opened by the peer, with the same protocol. -/
def SameProtocol (l : Link M) : Prop :=
  ∀ x k call, (l.sessions x).calls k = some call → call.kind = .acceptor → call.phase = .returned →
    (∃ j opener, (l.sessions x.peer).calls j = some opener ∧ opener.kind = .opener ∧
      opener.handle.id = call.handle.id) ∧
    ∀ j opener, (l.sessions x.peer).calls j = some opener → opener.kind = .opener →
      opener.handle.id = call.handle.id → opener.handle.protocolId = call.handle.protocolId

/-- What one side knows about the channels of the other side. -/
structure Informed (opened accepted : End → Set ℤ) (l : Link M) (x : End) : Prop where
  told : (l.sessions x).Told (l.sessions x.peer).Opened
  uses : (l.sessions x).UsesOnly (opened x) (accepted x)
  incoming : ∀ i p, ⟨some (.openChannel i p)⟩ ∈ l.incoming x → (l.sessions x.peer).Opened i

variable {opened accepted : End → Set ℤ} {l l' : Link M}

/-- New sessions know nothing. -/
theorem informed_new (x : End) : Informed opened accepted (.new : Link M) x where
  told := by constructor <;> simp [new, SessionState.new]
  uses := by simp [SessionState.UsesOnly, SessionState.cards, new, SessionState.new]
  incoming := by simp [new]

/-- Every step keeps both sides informed. -/
theorem informed_step (h : ∀ x, Informed opened accepted l x) {event : LinkEvent M}
    (hallowed : Allowed opened accepted event) (hstep : l.step protocols event = some l')
    (y : End) :
    Informed opened accepted l' y := by
  obtain ⟨x, e, s, rest, hs, hact, hincoming, hx, hpeer, hrest, hout⟩ := step_eq_some hstep
  have heffect := SessionState.step_effect hs
  by_cases hy : y = x
  · subst hy
    constructor
    · rw [hx, hpeer]
      apply (h y).told.step heffect
      intro i p hreceive
      subst hreceive
      apply (h y).incoming i p
      rw [hincoming]
      exact List.mem_cons_self
    · rw [hx]
      apply (h y).told.usesOnly_step heffect (h y).uses
      · intro k p he
        subst he
        rw [hact rfl] at hallowed
        exact hallowed
      · intro k p he
        subst he
        rw [hact rfl] at hallowed
        exact hallowed
    · rw [hrest, hpeer]
      intro i p hmem
      apply (h y).incoming i p
      rw [hincoming]
      exact List.mem_append_right _ hmem
  · obtain rfl := End.eq_peer_of_ne hy
    have hmono : ∀ i, (l.sessions x).Opened i → s.Opened i := fun i => (h x).told.opened_step heffect
    have htold := (h x.peer).told
    have hincoming := (h x.peer).incoming
    rw [End.peer_peer] at htold hincoming
    constructor
    · rw [hpeer, End.peer_peer, hx]
      exact htold.mono hmono
    · rw [hpeer]
      exact (h x.peer).uses
    · rw [hout, End.peer_peer, hx]
      intro i p hmem
      rcases List.mem_append.mp hmem with hmem | hmem
      · exact hmono i (hincoming i p hmem)
      · obtain ⟨k, hk⟩ := heffect.sent_open hmem
        exact ⟨k, p, hk⟩

/-- If only the protocol with the number one is opened, or it is not accepted, then the ends of
every channel speak the same protocol. -/
theorem sameProtocol_of_informed (h : ∀ x, Informed opened accepted l x)
    (hone : ∀ x, 1 ∉ accepted x ∨ opened x.peer ⊆ {1}) : l.SameProtocol := by
  intro x k call hc hkind hphase
  have hcard : (l.sessions x).cards k = some call.card := congrArg (Option.map ChannelCall.card) hc
  obtain ⟨hprotocol, hid⟩ := (h x).told.told k call hc hkind (by rw [hphase]; rfl)
  have hopened : opened x.peer ⊆ {1} := by
    rcases hone x with hnot | hsub
    · have haccepted : call.handle.protocolId ∈ accepted x := ((h x).uses k _ hcard).2 hkind
      exact absurd haccepted (hprotocol ▸ hnot)
    · exact hsub
  refine ⟨hid.exists_opener, ?_⟩
  intro j opener ho hopener _
  have hcard' : (l.sessions x.peer).cards j = some opener.card := congrArg (Option.map ChannelCall.card) ho
  exact (hopened (((h x.peer).uses j _ hcard').1 hopener)).trans hprotocol.symm

end Link

/-- One side opens a channel, and the other side accepts it. -/
def acceptedChannel (x : End) (p q : ℤ) : List (LinkEvent M) :=
  [.act x.peer (.openChannel 0 p), .act x.peer (.takeWait 0), .act x.peer (.writeCall 0 none),
    .act x (.acceptChannel 0 q), .act x (.takeWait 0), .deliver x, .act x .takeMessage, .act x .pass,
    .act x (.writeCall 0 none), .act x (.takeChannel 0)]

/-- A channel of any protocol is accepted by a call for the protocol with the number one. -/
theorem acceptedChannel_run (protocols : Protocols M) (x : End) (p : ℤ) :
    ∃ l opener acceptor, execute (Link.step protocols) anyStep (acceptedChannel x p 1) .new = some l ∧
      (l.sessions x).calls 0 = some acceptor ∧ (l.sessions x.peer).calls 0 = some opener ∧
      acceptor.kind = .acceptor ∧ acceptor.phase = .returned ∧ acceptor.handle.protocolId = 1 ∧
      opener.kind = .opener ∧ opener.handle.id = acceptor.handle.id ∧ opener.handle.protocolId = p := by
  cases x <;> exact ⟨_, _, _, rfl, rfl, rfl, rfl, rfl, rfl, rfl, rfl, rfl⟩

/-- The ends of every channel speak the same protocol, in every run in which only given protocols
are opened and accepted, exactly if the side of each acceptor of the protocol with the number one
has a peer that opens no other protocol. -/
theorem same_protocol_iff (protocols : Protocols M) (opened accepted : End → Set ℤ) :
    (∀ l, Reached (Link.step protocols) (fun _ => Link.Allowed opened accepted) .new l → l.SameProtocol) ↔
      ∀ x, 1 ∉ accepted x ∨ opened x.peer ⊆ {1} := by
  constructor
  · intro hall x
    by_contra hnot
    simp only [not_or, not_not, Set.not_subset, Set.mem_singleton_iff] at hnot
    obtain ⟨hone, p, hp, hne⟩ := hnot
    obtain ⟨l, opener, acceptor, hrun, hacceptor, hopener, hkind, hphase, hprotocol, hkind', hid, hprotocol'⟩ :=
      acceptedChannel_run protocols x p
    have hallowed : ∀ event ∈ acceptedChannel x p 1, Link.Allowed (M := M) opened accepted event := by
      simp [acceptedChannel, Link.Allowed, hone, hp]
    have hreached := reached_of_labels _ hallowed hrun
    have hsame := (hall l hreached x 0 acceptor hacceptor hkind hphase).2 0 opener hopener hkind' hid
    exact hne (hprotocol'.symm.trans (hsame.trans hprotocol))
  · intro hone l hl
    have hinformed : ∀ x, Link.Informed opened accepted l x :=
      hl.invariant (fun l => ∀ x, Link.Informed opened accepted l x) Link.informed_new
        fun _ _ _ h hallowed hstep => Link.informed_step h hallowed hstep
    exact Link.sameProtocol_of_informed hinformed hone

/-- A channel that was opened for the protocol with the number two is accepted for the protocol with
the number one. -/
theorem opened_two_accepted_one :
    ∃ l : Link Bytes, Reached (Link.step ⟨fun _ => plainCodec, 100⟩) anyStep .new l ∧ ¬ l.SameProtocol := by
  obtain ⟨l, opener, acceptor, hrun, hacceptor, hopener, hkind, hphase, hprotocol, hkind', hid, hprotocol'⟩ :=
    acceptedChannel_run ⟨fun _ => plainCodec, 100⟩ .responder 2
  refine ⟨l, reached_of_execute _ hrun, ?_⟩
  intro hsame
  have heq := (hsame .responder 0 acceptor hacceptor hkind hphase).2 0 opener hopener hkind' hid
  rw [hprotocol, hprotocol'] at heq
  exact absurd heq (by decide)

end ProjektCore.Session
