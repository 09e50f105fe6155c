import ProjektCore.Session.SameProtocol

/-!
# The numbers of the channels

Each side of a connection gives numbers of its own parity to the channels that it opens, but nothing
makes the peer keep to that. If the numbers of the peer are of its own parity and new, if no
protocol is awaited twice and if the counter of the session's own numbers does not overflow, every
channel has a number of its own and every registration with the broker waits for something else.
-/

namespace ProjektCore.Session

variable {M : Type} {protocols : Protocols M}

/-- The number that a call has for its channel. -/
def ChannelCall.claimed (call : ChannelCall M) : Option ℕ :=
  match call.kind with
  | .opener => some call.handle.id
  | .acceptor => if call.phase.isTold then some call.handle.id else none

/-- An opener has the number of its channel from the start. -/
theorem ChannelCall.claimed_opener {call : ChannelCall M} (h : call.kind = .opener) :
    call.claimed = some call.handle.id := by
  simp only [claimed, h]

/-- An acceptor has a number once it is told. -/
theorem ChannelCall.claimed_acceptor {call : ChannelCall M} (h : call.kind = .acceptor) :
    call.claimed = if call.phase.isTold then some call.handle.id else none := by
  simp only [claimed, h]

/-- The number is that of the handle. -/
theorem ChannelCall.claimed_eq_some {call : ChannelCall M} {i : ℕ} (h : call.claimed = some i) :
    call.handle.id = i := by
  cases hkind : call.kind with
  | opener =>
    rw [claimed_opener hkind] at h
    exact Option.some.inj h
  | acceptor =>
    rw [claimed_acceptor hkind, Option.ite_none_right_eq_some] at h
    exact Option.some.inj h.2

namespace SessionState

variable {s t : SessionState M}

/-- The numbers that the calls have for their channels. -/
def claims (s : SessionState M) (k : ℕ) : Option ℕ := (s.calls k).bind ChannelCall.claimed

/-- A call that accepts a channel is made while the session is not closed, and no other call awaits
its protocol at the same time. -/
def AwaitsOnce (s : SessionState M) : SessionEvent M → Prop
  | .acceptChannel _ protocolId => s.isDone = false ∧ ∀ k call, s.calls k = some call → call.kind = .acceptor →
      call.handle.protocolId = protocolId → call.phase ≠ .registering ∧ call.phase ≠ .waiting
  | _ => True

/-- A number that the peer may give to a channel: not one of the session's own parity, and not that
of a channel that the peer has opened before. -/
def Unclaimed (s : SessionState M) (i : ℕ) : Prop :=
  i % 2 ≠ s.nextId % 2 ∧ ∀ k call, s.calls k = some call → call.kind = .acceptor → call.phase.isTold = true →
    call.handle.id ≠ i

/-- The peer's numbers do not clash, and the counter of the session's own numbers does not
overflow. -/
def NumbersApart (s : SessionState M) : SessionEvent M → Prop
  | .openChannel _ _ => s.nextId + 2 < 2 ^ 64
  | .takeMessage => ∀ i p, s.reader = .inOpen i p → s.channels i = none → (s.opens p).isSome = true → s.Unclaimed i
  | _ => True

/-- Both conditions: on the calls, and on the numbers. -/
def KeepsOrder (s : SessionState M) (event : SessionEvent M) :
    Prop := s.AwaitsOnce event ∧ s.NumbersApart event

/-- Every channel has a number of its own, and every registration waits for something else. -/
structure Orderly (s : SessionState M) : Prop where
  unique : ∀ j k i, s.claims j = some i → s.claims k = some i → j = k
  openers : ∀ k call, s.calls k = some call → call.kind = .opener →
    call.handle.id < s.nextId ∧ call.handle.id % 2 = s.nextId % 2
  acceptors : ∀ k call, s.calls k = some call → call.kind = .acceptor → call.phase.isTold = true →
    call.handle.id % 2 ≠ s.nextId % 2
  accepts : ∀ i k, s.accepts i = some k → ∃ call, s.calls k = some call ∧ call.kind = .opener ∧
    call.handle.id = i ∧ call.phase ≠ .registering
  opens : ∀ p k, s.opens p = some k → ∃ call, s.calls k = some call ∧ call.kind = .acceptor ∧
    call.handle.protocolId = p ∧ call.phase ≠ .registering ∧ (call.phase = .waiting ∨ s.isDone = true)
  registering : ∀ k call, s.calls k = some call → call.kind = .acceptor → call.phase = .registering →
    s.opens call.handle.protocolId = none
  alone : ∀ j k c d, s.calls j = some c → s.calls k = some d → c.kind = .acceptor → d.kind = .acceptor →
    c.phase = .registering → d.phase = .registering → c.handle.protocolId = d.handle.protocolId → j = k
  opening : ∀ k i p, s.broker = .opening k i p → s.opens p = some k ∧ i % 2 ≠ s.nextId % 2 ∧
    ∀ j, s.claims j ≠ some i

/-- A call that goes on in another phase: it is not told anything, does not register again and does
not stop waiting for the peer, unless the session is closed. -/
structure PhaseGoesOn (s : SessionState M) (call call' : ChannelCall M) : Prop where
  kind : call'.kind = call.kind
  handle : call'.handle = call.handle
  told : call.kind = .acceptor → call'.phase.isTold = true → call.phase.isTold = true
  registering : call'.phase = .registering → call.phase = .registering
  waiting : call.kind = .acceptor → call.phase = .waiting → call'.phase = .waiting ∨ s.isDone = true

/-- A call that stays in its phase goes on. -/
theorem PhaseGoesOn.of_phase_eq {call call' : ChannelCall M} (hkind : call'.kind = call.kind)
    (hhandle : call'.handle = call.handle) (hphase : call'.phase = call.phase) :
    s.PhaseGoesOn call call' where
  kind := hkind
  handle := hhandle
  told _ htold := hphase ▸ htold
  registering hregistering := hphase ▸ hregistering
  waiting _ hwaiting := .inl (hphase.trans hwaiting)

/-- A call that goes on has no number that it did not have. -/
theorem PhaseGoesOn.claimed {call call' : ChannelCall M} (h : s.PhaseGoesOn call call') {i : ℕ}
    (hclaimed : call'.claimed = some i) : call.claimed = some i := by
  cases hkind : call.kind with
  | opener =>
    rw [ChannelCall.claimed_opener (h.kind.trans hkind), h.handle] at hclaimed
    rw [ChannelCall.claimed_opener hkind, hclaimed]
  | acceptor =>
    rw [ChannelCall.claimed_acceptor (h.kind.trans hkind), Option.ite_none_right_eq_some,
      h.handle] at hclaimed
    rw [ChannelCall.claimed_acceptor hkind, if_pos (h.told hkind hclaimed.1), hclaimed.2]

/-- The numbers after a call is replaced. -/
theorem claims_setCall (s : SessionState M) (k : ℕ) (call : ChannelCall M) :
    (s.setCall k call).claims = Function.update s.claims k call.claimed := by
  funext j
  rw [claims, Function.update_apply]
  split
  · rename_i hj
    rw [hj, setCall_self, Option.bind_some]
  · rename_i hj
    rw [setCall_of_ne s call hj, claims]

/-- The number of a call. -/
theorem claims_eq {k : ℕ} {call : ChannelCall M} (hc : s.calls k = some call) :
    s.claims k = call.claimed := by
  rw [claims, hc, Option.bind_some]

namespace Orderly

/-- Only the broker, the reader and the table of channels change, or entries of openers are
removed. -/
theorem congr (h : s.Orderly) (hcalls : t.calls = s.calls) (hnext : t.nextId = s.nextId)
    (hopens : t.opens = s.opens) (haccepts : ∀ i k, t.accepts i = some k → s.accepts i = some k)
    (hdone : s.isDone = true → t.isDone = true)
    (hbroker : ∀ k i p, t.broker = .opening k i p → s.broker = .opening k i p) : t.Orderly := by
  have hclaims : t.claims = s.claims := by
    funext k
    rw [claims, claims, hcalls]
  constructor
  case unique =>
    rw [hclaims]
    exact h.unique
  case openers =>
    rw [hcalls, hnext]
    exact h.openers
  case acceptors =>
    rw [hcalls, hnext]
    exact h.acceptors
  case accepts =>
    intro i k hk
    rw [hcalls]
    exact h.accepts i k (haccepts i k hk)
  case opens =>
    intro p k hk
    rw [hopens] at hk
    obtain ⟨call, hc, hkind, hprotocol, hnot, hwaiting⟩ := h.opens p k hk
    rw [hcalls]
    exact ⟨call, hc, hkind, hprotocol, hnot, hwaiting.imp_right hdone⟩
  case registering =>
    rw [hcalls, hopens]
    exact h.registering
  case alone =>
    rw [hcalls]
    exact h.alone
  case opening =>
    intro k i p hk
    rw [hopens, hnext, hclaims]
    exact h.opening k i p (hbroker k i p hk)

/-- A call goes on. -/
theorem setCall (h : s.Orderly) {k : ℕ} {call call' : ChannelCall M} (hc : s.calls k = some call)
    (hgoesOn : s.PhaseGoesOn call call') : (s.setCall k call').Orderly := by
  have hkept : ∀ j i, (s.setCall k call').claims j = some i → s.claims j = some i := by
    intro j i hj
    rw [claims_setCall, Function.update_apply] at hj
    split at hj
    · rename_i heq
      rw [heq, claims_eq hc]
      exact hgoesOn.claimed hj
    · exact hj
  constructor
  case unique =>
    intro j j' i hj hj'
    exact h.unique j j' i (hkept j i hj) (hkept j' i hj')
  case openers =>
    intro j other ho hkind
    rcases setCall_cases ho with ⟨-, rfl⟩ | ⟨-, ho⟩
    · rw [hgoesOn.handle]
      exact h.openers k call hc (hgoesOn.kind.symm.trans hkind)
    · exact h.openers j other ho hkind
  case acceptors =>
    intro j other ho hkind htold
    rcases setCall_cases ho with ⟨-, rfl⟩ | ⟨-, ho⟩
    · have hkind' := hgoesOn.kind.symm.trans hkind
      rw [hgoesOn.handle]
      exact h.acceptors k call hc hkind' (hgoesOn.told hkind' htold)
    · exact h.acceptors j other ho hkind htold
  case accepts =>
    intro i j hj
    obtain ⟨other, ho, hkind, hid, hnot⟩ := h.accepts i j hj
    by_cases hne : j = k
    · subst hne
      obtain rfl := Option.some.inj (hc.symm.trans ho)
      exact ⟨call', s.setCall_self .., hgoesOn.kind.trans hkind, hgoesOn.handle ▸ hid, mt hgoesOn.registering hnot⟩
    · exact ⟨other, (s.setCall_of_ne _ hne).trans ho, hkind, hid, hnot⟩
  case opens =>
    intro p j hj
    obtain ⟨other, ho, hkind, hprotocol, hnot, hwaiting⟩ := h.opens p j hj
    by_cases hne : j = k
    · subst hne
      obtain rfl := Option.some.inj (hc.symm.trans ho)
      refine ⟨call', s.setCall_self .., hgoesOn.kind.trans hkind, hgoesOn.handle ▸ hprotocol,
        mt hgoesOn.registering hnot, ?_⟩
      rcases hwaiting with hwaiting | hdone
      · exact hgoesOn.waiting hkind hwaiting
      · exact .inr hdone
    · exact ⟨other, (s.setCall_of_ne _ hne).trans ho, hkind, hprotocol, hnot, hwaiting⟩
  case registering =>
    intro j other ho hkind hphase
    rcases setCall_cases ho with ⟨-, rfl⟩ | ⟨-, ho⟩
    · rw [hgoesOn.handle]
      exact h.registering k call hc (hgoesOn.kind.symm.trans hkind) (hgoesOn.registering hphase)
    · exact h.registering j other ho hkind hphase
  case alone =>
    have hold : ∀ j other, (s.setCall k call').calls j = some other → other.kind = .acceptor →
        other.phase = .registering → ∃ before, s.calls j = some before ∧ before.kind = .acceptor ∧
          before.phase = .registering ∧ before.handle = other.handle := by
      intro j other ho hkind hphase
      rcases setCall_cases ho with ⟨rfl, rfl⟩ | ⟨-, ho⟩
      · exact ⟨call, hc, hgoesOn.kind.symm.trans hkind, hgoesOn.registering hphase, hgoesOn.handle.symm⟩
      · exact ⟨other, ho, hkind, hphase, rfl⟩
    intro j j' c d hj hj' hckind hdkind hcphase hdphase hprotocol
    obtain ⟨c', hc', hckind', hcphase', hchandle⟩ := hold j c hj hckind hcphase
    obtain ⟨d', hd', hdkind', hdphase', hdhandle⟩ := hold j' d hj' hdkind hdphase
    rw [← hchandle, ← hdhandle] at hprotocol
    exact h.alone j j' c' d' hc' hd' hckind' hdkind' hcphase' hdphase' hprotocol
  case opening =>
    intro j i p hj
    obtain ⟨hopens, hparity, hunclaimed⟩ := h.opening j i p hj
    exact ⟨hopens, hparity, fun j' hj' => hunclaimed j' (hkept j' i hj')⟩

/-- A new call keeps the entries of the others. -/
theorem calls_of_new {k j : ℕ} {call other : ChannelCall M} (hnew : s.calls k = none)
    (ho : s.calls j = some other) :
    (s.setCall k call).calls j = some other := by
  have hne : j ≠ k := by
    rintro rfl
    simp [hnew] at ho
  exact (s.setCall_of_ne call hne).trans ho

/-- A number belongs to an opener, or to an acceptor that was told it. -/
theorem claims_cases {j i : ℕ} (hj : s.claims j = some i) :
    ∃ call, s.calls j = some call ∧ call.handle.id = i ∧
    (call.kind = .opener ∨ call.kind = .acceptor ∧ call.phase.isTold = true) := by
  obtain ⟨call, hc, hclaimed⟩ := Option.bind_eq_some_iff.mp hj
  refine ⟨call, hc, ChannelCall.claimed_eq_some hclaimed, ?_⟩
  cases hkind : call.kind with
  | opener => exact .inl rfl
  | acceptor =>
    rw [ChannelCall.claimed_acceptor hkind, Option.ite_none_right_eq_some] at hclaimed
    exact .inr ⟨rfl, hclaimed.1⟩

/-- Giving a call a number that nothing else has keeps the numbers apart. -/
theorem unique_update (h : s.Orderly) {k i : ℕ} (hfresh : ∀ j, s.claims j ≠ some i) {j j' n : ℕ}
    (hj : Function.update s.claims k (some i) j = some n)
    (hj' : Function.update s.claims k (some i) j' = some n) :
    j = j' := by
  rw [Function.update_apply] at hj hj'
  split at hj
  · rename_i hjk
    split at hj'
    · rename_i hjk'
      exact hjk.trans hjk'.symm
    · exact absurd (hj'.trans hj.symm) (hfresh j')
  · split at hj'
    · exact absurd (hj.trans hj'.symm) (hfresh j)
    · exact h.unique j j' n hj hj'

/-- A call opens a channel with the next number of the session's own. -/
theorem newOpener (h : s.Orderly) {k : ℕ} {p : ℤ} (hnew : s.calls k = none)
    (hbound : s.nextId + 2 < 2 ^ 64) :
    Orderly ({ s with nextId := (s.nextId + 2) % 2 ^ 64 }.setCall k (.new .opener p s.nextId)) := by
  have hnext : (s.nextId + 2) % 2 ^ 64 = s.nextId + 2 := Nat.mod_eq_of_lt hbound
  have hparity : (s.nextId + 2) % 2 = s.nextId % 2 := Nat.add_mod_right _ _
  rw [hnext]
  have hfresh : ∀ j, s.claims j ≠ some s.nextId := by
    intro j hj
    obtain ⟨call, hc, hid, hkind | ⟨hkind, htold⟩⟩ := claims_cases hj
    · have hlt := (h.openers j call hc hkind).1
      omega
    · have hodd := h.acceptors j call hc hkind htold
      rw [hid] at hodd
      exact hodd rfl
  have hclaims : (SessionState.setCall { s with nextId := s.nextId + 2 } k (.new .opener p s.nextId)).claims =
      Function.update s.claims k (some s.nextId) := claims_setCall ..
  constructor
  case unique =>
    intro j j' i hj hj'
    rw [hclaims] at hj hj'
    exact h.unique_update hfresh hj hj'
  case openers =>
    intro j other ho hkind
    rcases setCall_cases ho with ⟨-, rfl⟩ | ⟨-, ho⟩
    · exact ⟨Nat.lt_add_of_pos_right (by decide), hparity.symm⟩
    · obtain ⟨hlt, hmod⟩ := h.openers j other ho hkind
      exact ⟨Nat.lt_add_right 2 hlt, hmod.trans hparity.symm⟩
  case acceptors =>
    intro j other ho hkind htold
    rcases setCall_cases ho with ⟨-, rfl⟩ | ⟨-, ho⟩
    · cases hkind
    · exact fun hmod => h.acceptors j other ho hkind htold (hmod.trans hparity)
  case accepts =>
    intro i j hj
    obtain ⟨other, ho, hother⟩ := h.accepts i j hj
    exact ⟨other, calls_of_new hnew ho, hother⟩
  case opens =>
    intro q j hj
    obtain ⟨other, ho, hother⟩ := h.opens q j hj
    exact ⟨other, calls_of_new hnew ho, hother⟩
  case registering =>
    intro j other ho hkind hphase
    rcases setCall_cases ho with ⟨-, rfl⟩ | ⟨-, ho⟩
    · cases hkind
    · exact h.registering j other ho hkind hphase
  case alone =>
    intro j j' c d hj hj' hckind hdkind
    rcases setCall_cases hj with ⟨-, rfl⟩ | ⟨-, hj⟩
    · cases hckind
    · rcases setCall_cases hj' with ⟨-, rfl⟩ | ⟨-, hj'⟩
      · cases hdkind
      · exact h.alone j j' c d hj hj' hckind hdkind
  case opening =>
    intro j i q hj
    obtain ⟨hopens, hmod, hunclaimed⟩ := h.opening j i q hj
    refine ⟨hopens, fun heq => hmod (heq.trans hparity), ?_⟩
    intro j' hj'
    rw [hclaims, Function.update_apply] at hj'
    split at hj'
    · obtain rfl := Option.some.inj hj'
      exact hmod rfl
    · exact hunclaimed j' hj'

/-- A call awaits a protocol that no other call awaits. -/
theorem newAcceptor (h : s.Orderly) {k : ℕ} {p : ℤ} (hnew : s.calls k = none)
    (hawaits : s.AwaitsOnce (.acceptChannel k p)) : (s.setCall k (.new .acceptor p 0)).Orderly := by
  obtain ⟨hrunning, halone⟩ := hawaits
  have hclaims : (s.setCall k (.new .acceptor p 0)).claims = Function.update s.claims k none := claims_setCall ..
  have hkept : ∀ j i, (s.setCall k (.new .acceptor p 0)).claims j = some i → s.claims j = some i := by
    intro j i hj
    rw [hclaims, Function.update_apply, Option.ite_none_left_eq_some] at hj
    exact hj.2
  constructor
  case unique =>
    intro j j' i hj hj'
    exact h.unique j j' i (hkept j i hj) (hkept j' i hj')
  case openers =>
    intro j other ho hkind
    rcases setCall_cases ho with ⟨-, rfl⟩ | ⟨-, ho⟩
    · cases hkind
    · exact h.openers j other ho hkind
  case acceptors =>
    intro j other ho hkind htold
    rcases setCall_cases ho with ⟨-, rfl⟩ | ⟨-, ho⟩
    · cases htold
    · exact h.acceptors j other ho hkind htold
  case accepts =>
    intro i j hj
    obtain ⟨other, ho, hother⟩ := h.accepts i j hj
    exact ⟨other, calls_of_new hnew ho, hother⟩
  case opens =>
    intro q j hj
    obtain ⟨other, ho, hother⟩ := h.opens q j hj
    exact ⟨other, calls_of_new hnew ho, hother⟩
  case registering =>
    intro j other ho hkind hphase
    rcases setCall_cases ho with ⟨-, rfl⟩ | ⟨-, ho⟩
    · change s.opens p = none
      cases hj : s.opens p with
      | none => rfl
      | some j' =>
        obtain ⟨waiter, hw, hacceptor, hprotocol, -, hwaiting⟩ := h.opens p j' hj
        rcases hwaiting with hwaiting | hdone
        · exact absurd hwaiting (halone j' waiter hw hacceptor hprotocol).2
        · rw [hrunning] at hdone
          cases hdone
    · exact h.registering j other ho hkind hphase
  case alone =>
    intro j j' c d hj hj' hckind hdkind hcphase hdphase hprotocol
    rcases setCall_cases hj with ⟨rfl, rfl⟩ | ⟨-, hj⟩
    · rcases setCall_cases hj' with ⟨rfl, -⟩ | ⟨-, hj'⟩
      · rfl
      · exact absurd hdphase (halone j' d hj' hdkind hprotocol.symm).1
    · rcases setCall_cases hj' with ⟨-, rfl⟩ | ⟨-, hj'⟩
      · exact absurd hcphase (halone j c hj hckind hprotocol).1
      · exact h.alone j j' c d hj hj' hckind hdkind hcphase hdphase hprotocol
  case opening =>
    intro j i q hj
    obtain ⟨hopens, hparity, hunclaimed⟩ := h.opening j i q hj
    exact ⟨hopens, hparity, fun j' hj' => hunclaimed j' (hkept j' i hj')⟩

/-- The broker remembers an opener. -/
theorem addAccept (h : s.Orderly) {k : ℕ} {call : ChannelCall M} (hc : s.calls k = some call)
    (hkind : call.kind = .opener) (hphase : call.phase ≠ .registering) :
    Orderly { s with accepts := Function.update s.accepts call.handle.id (some k) } := by
  refine { h with accepts := ?_ }
  intro i j hj
  simp only [Function.update_apply] at hj
  split at hj
  · rename_i hi
    obtain rfl := Option.some.inj hj
    exact ⟨call, hc, hkind, hi.symm, hphase⟩
  · exact h.accepts i j hj

/-- The broker remembers an acceptor. -/
theorem addOpen (h : s.Orderly) {k : ℕ} {call : ChannelCall M} (hc : s.calls k = some call)
    (hkind : call.kind = .acceptor) (hphase : call.phase = .waiting) (hready : s.broker = .ready)
    (halone : ∀ j other, s.calls j = some other → other.kind = .acceptor → other.phase = .registering →
      other.handle.protocolId ≠ call.handle.protocolId) :
    Orderly { s with opens := Function.update s.opens call.handle.protocolId (some k) } := by
  refine { h with opens := ?_, registering := ?_, opening := ?_ }
  · intro p j hj
    simp only [Function.update_apply] at hj
    split at hj
    · rename_i hp
      obtain rfl := Option.some.inj hj
      exact ⟨call, hc, hkind, hp.symm, by simp [hphase], .inl hphase⟩
    · exact h.opens p j hj
  · intro j other ho hacceptor hregistering
    exact (Function.update_of_ne (halone j other ho hacceptor hregistering) ..).trans
      (h.registering j other ho hacceptor hregistering)
  · intro j i p hj
    exact absurd (hready.symm.trans hj) (by simp)

/-- The broker tells an acceptor about a channel with a number that nothing else has. -/
theorem takeOpen (h : s.Orderly) {k i : ℕ} {p : ℤ} (hk : s.opens p = some k) (hi : s.Unclaimed i) :
    Orderly { s with reader := .reading, broker := .opening k i p } := by
  refine { h with opening := ?_ }
  intro j i' p' hj
  obtain ⟨rfl, rfl, rfl⟩ := Broker.opening.inj hj
  refine ⟨hk, hi.1, ?_⟩
  intro j hj
  obtain ⟨call, hc, hid, hkind | ⟨hkind, htold⟩⟩ := claims_cases hj
  · exact hi.1 (hid ▸ (h.openers j call hc hkind).2)
  · exact hi.2 j call hc hkind htold hid

/-- The acceptor takes the number. -/
theorem opened (h : s.Orderly) {k i : ℕ} {p : ℤ} {call : ChannelCall M}
    (hbroker : s.broker = .opening k i p) (hc : s.calls k = some call) :
    (s.opened k call i p).Orderly := by
  obtain ⟨hk, hparity, hunclaimed⟩ := h.opening k i p hbroker
  obtain ⟨other, ho, hkind, hprotocol, -, -⟩ := h.opens p k hk
  obtain rfl := Option.some.inj (hc.symm.trans ho)
  have hclaims : (s.opened k call i p).claims = Function.update s.claims k (some i) := by
    have hclaimed : ChannelCall.claimed { call with handle := ⟨call.handle.protocolId, i⟩, phase := .writing } =
        some i := ChannelCall.claimed_acceptor hkind
    rw [← hclaimed]
    exact claims_setCall ..
  constructor
  case unique =>
    intro j j' n hj hj'
    rw [hclaims] at hj hj'
    exact h.unique_update hunclaimed hj hj'
  case openers =>
    intro j other ho hopener
    rcases setCall_cases ho with ⟨-, rfl⟩ | ⟨-, ho⟩
    · exact absurd (hkind.symm.trans hopener) (by simp)
    · exact h.openers j other ho hopener
  case acceptors =>
    intro j other ho hacceptor htold
    rcases setCall_cases ho with ⟨-, rfl⟩ | ⟨-, ho⟩
    · exact hparity
    · exact h.acceptors j other ho hacceptor htold
  case accepts =>
    intro n j hj
    obtain ⟨opener, hcall, hopener, hother⟩ := h.accepts n j hj
    have hne : j ≠ k := by
      rintro rfl
      obtain rfl := Option.some.inj (hc.symm.trans hcall)
      exact absurd (hkind.symm.trans hopener) (by simp)
    exact ⟨opener, (s.setCall_of_ne _ hne).trans hcall, hopener, hother⟩
  case opens =>
    intro q j hj
    simp only [SessionState.opened, Function.update_apply, Option.ite_none_left_eq_some] at hj
    obtain ⟨hq, hj⟩ := hj
    obtain ⟨acceptor, hcall, hacceptor, hprotocol', hother⟩ := h.opens q j hj
    have hne : j ≠ k := by
      rintro rfl
      obtain rfl := Option.some.inj (hc.symm.trans hcall)
      exact hq (hprotocol'.symm.trans hprotocol)
    exact ⟨acceptor, (s.setCall_of_ne _ hne).trans hcall, hacceptor, hprotocol', hother⟩
  case registering =>
    intro j other ho hacceptor hphase
    rcases setCall_cases ho with ⟨-, rfl⟩ | ⟨-, ho⟩
    · cases hphase
    · simp only [SessionState.opened, Function.update_apply, ite_eq_left_iff]
      exact fun _ => h.registering j other ho hacceptor hphase
  case alone =>
    intro j j' c d hj hj' hckind hdkind hcphase hdphase
    rcases setCall_cases hj with ⟨-, rfl⟩ | ⟨-, hj⟩
    · cases hcphase
    · rcases setCall_cases hj' with ⟨-, rfl⟩ | ⟨-, hj'⟩
      · cases hdphase
      · exact h.alone j j' c d hj hj' hckind hdkind hcphase hdphase
  case opening =>
    intro j n q hj
    cases hj

/-- A call goes on, while nothing else that matters changes. -/
theorem goOn (h : s.Orderly) {k : ℕ} {call call' : ChannelCall M} (hc : s.calls k = some call)
    (hcalls : t.calls = (s.setCall k call').calls) (hgoesOn : s.PhaseGoesOn call call')
    (hnext : t.nextId = s.nextId) (hopens : t.opens = s.opens)
    (haccepts : ∀ i k, t.accepts i = some k → s.accepts i = some k) (hdone : t.isDone = s.isDone)
    (hbroker : ∀ k i p, t.broker = .opening k i p → s.broker = .opening k i p) :
    t.Orderly :=
  (h.setCall hc hgoesOn).congr hcalls hnext hopens haccepts (fun hclosed => hdone.trans hclosed) hbroker

/-- The broker registers an opener. -/
theorem waitAccept (h : s.Orderly) {k : ℕ} {call : ChannelCall M} (hc : s.calls k = some call)
    (hkind : call.kind = .opener) :
    Orderly { s.setCall k { call with phase := .writing } with
      accepts := Function.update s.accepts call.handle.id (some k) } := by
  have hgoesOn : s.PhaseGoesOn call { call with phase := .writing } :=
    ⟨rfl, rfl, by simp [hkind], by simp, by simp [hkind]⟩
  have hcall : (s.setCall k { call with phase := .writing }).calls k = some { call with phase := .writing } :=
    s.setCall_self ..
  have hadded := (h.setCall hc hgoesOn).addAccept hcall hkind (by simp)
  exact hadded

/-- The broker registers an acceptor. -/
theorem waitOpen (h : s.Orderly) {k : ℕ} {call : ChannelCall M} (hc : s.calls k = some call)
    (hkind : call.kind = .acceptor) (hphase : call.phase = .registering)
    (hready : s.broker = .ready) :
    Orderly { s.setCall k { call with phase := .waiting } with
      opens := Function.update s.opens call.handle.protocolId (some k) } := by
  have hgoesOn : s.PhaseGoesOn call { call with phase := .waiting } :=
    ⟨rfl, rfl, by simp [CallPhase.isTold], by simp, by simp⟩
  have hcall : (s.setCall k { call with phase := .waiting }).calls k = some { call with phase := .waiting } :=
    s.setCall_self ..
  have hadded := (h.setCall hc hgoesOn).addOpen hcall hkind rfl hready (by
    intro j other ho hacceptor hregistering hprotocol
    rcases setCall_cases ho with ⟨-, rfl⟩ | ⟨hne, ho⟩
    · cases hregistering
    · exact hne (h.alone j k other call ho hc hacceptor hkind hregistering hphase hprotocol))
  exact hadded

/-- Every step that keeps the numbers apart and awaits no protocol twice keeps the order. -/
theorem step (h : s.Orderly) {event : SessionEvent M} {sent : List Message}
    (hawaits : s.AwaitsOnce event) (hnumbers : s.NumbersApart event)
    (heffect : Effect protocols s event sent t) : t.Orderly := by
  have hkeep {k : ℕ} {call call' : ChannelCall M} (hc : s.calls k = some call)
      (hcalls : t.calls = (s.setCall k call').calls) (hgoesOn : s.PhaseGoesOn call call') (hnext : t.nextId = s.nextId)
      (hopens : t.opens = s.opens) (haccepts : t.accepts = s.accepts) (hdone : t.isDone = s.isDone)
      (hbroker : t.broker = s.broker) : t.Orderly :=
    h.goOn hc hcalls hgoesOn hnext hopens (fun i k hk => haccepts ▸ hk) hdone fun k i p hk => hbroker ▸ hk
  cases heffect with
  | openChannel hnew => exact h.newOpener hnew hnumbers
  | acceptChannel hnew => exact h.newAcceptor hnew hawaits
  | waitAccept hready hc hkind => exact h.waitAccept hc hkind
  | waitOpen hready hc hkind hphase => exact h.waitOpen hc hkind hphase hready
  | takeOpen hready hreader hnone hk => exact h.takeOpen hk (hnumbers _ _ hreader hnone (by simp [hk]))
  | takeAccept hready hreader hnone hk hc =>
    refine h.goOn hc rfl (.of_phase_eq rfl rfl rfl) rfl rfl ?_ rfl fun _ _ _ h => h
    intro i j hj
    simp only [Function.update_apply, Option.ite_none_left_eq_some] at hj
    exact hj.2
  | passOpen hbroker hc => exact h.opened hbroker hc
  | passData hbroker hc =>
    refine h.goOn hc rfl (.of_phase_eq rfl rfl rfl) rfl rfl (fun _ _ h => h) rfl ?_
    intro j i p hj
    cases hj
  | register hready hc hphase =>
    exact hkeep hc rfl ⟨rfl, rfl, by simp [hphase, CallPhase.isTold], by simp, by simp [hphase]⟩ rfl rfl rfl rfl rfl
  | writeFails hc hphase =>
    exact hkeep hc rfl ⟨rfl, rfl, by simp [CallPhase.isTold], by simp, by simp [hphase]⟩ rfl rfl rfl rfl rfl
  | writeOpen hc hphase hkind =>
    exact hkeep hc rfl ⟨rfl, rfl, by simp [hkind], by simp, by simp⟩ rfl rfl rfl rfl rfl
  | writeAccept hc hphase =>
    exact hkeep hc rfl ⟨rfl, rfl, by simp [hphase, CallPhase.isTold], by simp, by simp [hphase]⟩ rfl rfl rfl rfl rfl
  | proceed hc hkind =>
    exact hkeep hc rfl ⟨rfl, rfl, by simp [hkind], by simp, by simp [hkind]⟩ rfl rfl rfl rfl rfl
  | leave hc hdone =>
    exact hkeep hc rfl ⟨rfl, rfl, by simp [CallPhase.isTold], by simp, by simp [hdone]⟩ rfl rfl rfl rfl rfl
  | write hc => exact hkeep hc rfl (.of_phase_eq rfl rfl rfl) rfl rfl rfl rfl rfl
  | read hc => exact hkeep hc rfl (.of_phase_eq rfl rfl rfl) rfl rfl rfl rfl rfl
  | close hc => exact hkeep hc rfl (.of_phase_eq rfl rfl rfl) rfl rfl rfl rfl rfl
  | exit hc => exact hkeep hc rfl (.of_phase_eq rfl rfl rfl) rfl rfl rfl rfl rfl
  | panic => exact h.congr rfl rfl rfl (fun _ _ h => h) id (by simp)
  | takeData => exact h.congr rfl rfl rfl (fun _ _ h => h) id (by simp)
  | stopBroker => exact h.congr rfl rfl rfl (fun _ _ h => h) id (by simp)
  | closeSession => exact h.congr rfl rfl rfl (fun _ _ h => h) (fun _ => rfl) fun _ _ _ h => h
  | notWritten => exact h
  | _ => exact h.congr rfl rfl rfl (fun _ _ h => h) id fun _ _ _ h => h

end Orderly

/-- The channels of a new session are in order. -/
theorem orderly_new (isInitiator : Bool) : Orderly (M := M) (.new isInitiator) where
  unique j k i hj := by cases hj
  openers k call hc := by cases hc
  acceptors k call hc := by cases hc
  accepts i k hk := by cases hk
  opens p k hk := by cases hk
  registering k call hc := by cases hc
  alone j k c d hc := by cases hc
  opening k i p hk := by cases hk

end SessionState

end ProjektCore.Session
