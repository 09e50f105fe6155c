import Mathlib.Data.Set.Basic
import ProjektCore.Session.Registry
import ProjektCore.Session.SameProtocol

/-!
# The numbers of the channels of two sessions

Each session numbers the channels that it opens with a counter of its own: the initiator starts with
one, the other side with two, and both go on in steps of two. Below `2 ^ 63` channels on each side
the counters do not wrap around, so a number tells which call has opened the channel. A channel that
both brokers have registered was opened by one call, on the side of the number's parity, and
accepted on the other side.
-/

namespace ProjektCore.Session

open Foundation

variable {M : Type} {protocols : Protocols M}

namespace SessionState

variable {s t : SessionState M} {event : SessionEvent M} {sent : List Message}

/-- The numbers of the first channels that a session has opened, counted from the first number. -/
structure Numbered (first count : ℕ) (s : SessionState M) : Prop where
  next : s.nextId = (first + 2 * count) % 2 ^ 64
  openers : ∀ k p i, s.cards k = some ⟨.opener, p, some i⟩ → ∃ n < count, i = first + 2 * n
  distinct : ∀ j k p q i, s.cards j = some ⟨.opener, p, some i⟩ → s.cards k = some ⟨.opener, q, some i⟩ → j = k

/-- A new session has not opened channels. -/
theorem numbered_new (isInitiator : Bool) :
    (new isInitiator : SessionState M).Numbered (firstChannelId isInitiator) 0 where
  next := by cases isInitiator <;> rfl
  openers := by simp [new, cards]
  distinct := by simp [new, cards]

end SessionState

/-- A step takes the next number for a new opener, or keeps the counter and makes no opener. -/
theorem Effect.numbers {s t : SessionState M} {event : SessionEvent M} {sent : List Message}
    (h : Effect protocols s event sent t)
    (hopening : ∀ k i p call, s.broker = .opening k i p → s.calls k = some call → call.kind = .acceptor) :
    t.nextId = s.nextId ∧
        (∀ k p i, t.cards k = some ⟨.opener, p, some i⟩ → s.cards k = some ⟨.opener, p, some i⟩) ∨
      ∃ k p, event = .openChannel k p ∧ t.nextId = (s.nextId + 2) % 2 ^ 64 ∧
        t.cards = Function.update s.cards k (some ⟨.opener, p, some s.nextId⟩) := by
  have hcards := h.cards_eq hopening
  cases h with
  | openChannel hnew => exact .inr ⟨_, _, rfl, rfl, SessionState.cards_newCall rfl⟩
  | panic => exact .inl ⟨rfl, fun _ _ _ h => h⟩
  | notWritten => exact .inl ⟨rfl, fun _ _ _ h => h⟩
  | _ =>
    refine .inl ⟨rfl, ?_⟩
    intro k p i hk
    rcases hcards with hcards | ⟨_, _, -, he, -⟩ | ⟨j, q, -, -, hcards⟩
    · exact hcards ▸ hk
    · cases he
    · rw [hcards, Function.update_apply] at hk
      split at hk
      · cases hk
      · exact hk

namespace SessionState.Numbered

variable {first count : ℕ} {s t : SessionState M} {event : SessionEvent M} {sent : List Message}

/-- A new opener has the next number, which no other one has. -/
theorem newOpener (h : s.Numbered first count) (hbound : first + 2 * count < 2 ^ 64) {k : ℕ} {p : ℤ}
    (hnext : t.nextId = (s.nextId + 2) % 2 ^ 64)
    (hcards : t.cards = Function.update s.cards k (some ⟨.opener, p, some s.nextId⟩)) :
    t.Numbered first (count + 1) := by
  have hfirst : s.nextId = first + 2 * count := h.next.trans (Nat.mod_eq_of_lt hbound)
  have hfresh (j : ℕ) (q : ℤ) : s.cards j ≠ some ⟨.opener, q, some s.nextId⟩ := by
    intro hj
    obtain ⟨n, hn, hi⟩ := h.openers j q _ hj
    omega
  -- an opener is the new one, with the next number, or an old one
  have hcases (j : ℕ) (q : ℤ) (i : ℕ) (hj : t.cards j = some ⟨.opener, q, some i⟩) :
      j = k ∧ i = s.nextId ∨ s.cards j = some ⟨.opener, q, some i⟩ := by
    rw [hcards, Function.update_apply] at hj
    split at hj
    · rename_i hk
      simp only [Option.some.injEq, CallCard.mk.injEq, true_and] at hj
      exact .inl ⟨hk, hj.2.symm⟩
    · exact .inr hj
  constructor
  · rw [hnext, hfirst]
    rfl
  · intro j q i hj
    rcases hcases j q i hj with ⟨-, hi⟩ | hj
    · exact ⟨count, Nat.lt_succ_self count, hi.trans hfirst⟩
    · obtain ⟨n, hn, hi⟩ := h.openers j q i hj
      exact ⟨n, Nat.lt_succ_of_lt hn, hi⟩
  · intro j j' q q' i hj hj'
    rcases hcases j q i hj with ⟨hk, hi⟩ | hj
    · rcases hcases j' q' i hj' with ⟨hk', -⟩ | hj'
      · exact hk.trans hk'.symm
      · exact absurd (hi ▸ hj') (hfresh j' q')
    · rcases hcases j' q' i hj' with ⟨-, hi⟩ | hj'
      · exact absurd (hi ▸ hj) (hfresh j q)
      · exact h.distinct j j' q q' i hj hj'

/-- Every step goes on with the numbers, unless the counter wraps around. -/
theorem step (h : s.Numbered first count) (heffect : Effect protocols s event sent t)
    (hopening : ∀ k i p call, s.broker = .opening k i p → s.calls k = some call → call.kind = .acceptor)
    (hbound : (∃ k p, event = .openChannel k p) → first + 2 * count < 2 ^ 64) :
    t.Numbered first count ∨ (∃ k p, event = .openChannel k p) ∧ t.Numbered first (count + 1) := by
  rcases heffect.numbers hopening with ⟨hnext, hcards⟩ | ⟨k, p, he, hnext, hcards⟩
  · refine .inl ⟨hnext.trans h.next, ?_, ?_⟩
    · intro j q i hj
      exact h.openers j q i (hcards j q i hj)
    · intro j j' q q' i hj hj'
      exact h.distinct j j' q q' i (hcards j q i hj) (hcards j' q' i hj')
  · exact .inr ⟨⟨k, p, he⟩, h.newOpener (hbound ⟨k, p, he⟩) hnext hcards⟩

end SessionState.Numbered

/-- A call of `OpenChannel` on a side. -/
def LinkEvent.opensAt (x : End) : LinkEvent M → Bool
  | .act y (.openChannel _ _) => y = x
  | _ => false

/-- The first number of a side. -/
def End.firstId (x : End) : ℕ := SessionState.firstChannelId (x = .initiator)

namespace Link

/-- A channel that is registered on a side denotes a call of `OpenChannel`: its own call, or the
call of the peer that has given it its number. -/
def Denotes (l : Link M) (x : End) (i : ℕ) (y : End) (k : ℕ) : Prop :=
  ∃ j call, (l.sessions x).channels i = some j ∧ (l.sessions x).calls j = some call ∧
    (call.kind = .opener ∧ y = x ∧ k = j ∨
      call.kind = .acceptor ∧ y = x.peer ∧ ∃ opener, (l.sessions y).calls k = some opener ∧
        opener.kind = .opener ∧ opener.handle.id = i)

/-- Each side has numbered the channels that it has opened. -/
def Counted (events : List (LinkEvent M)) (l : Link M) : Prop :=
  ∀ x, ∃ count ≤ events.countP (LinkEvent.opensAt x), (l.sessions x).Numbered x.firstId count

/-- What both sides know, whatever protocols they use. -/
theorem informed_of_reached {l : Link M} (h : Reached (Link.step protocols) anyStep .new l)
    (x : End) :
    Informed (fun _ => Set.univ) (fun _ => Set.univ) l x := by
  refine h.invariant (fun l => ∀ x, Informed (fun _ => Set.univ) (fun _ => Set.univ) l x) informed_new ?_ x
  intro l event l' h _ hstep
  refine informed_step h ?_ hstep
  unfold Allowed
  split <;> trivial

/-- The tables of both sides have the channels that were returned. -/
theorem registry_of_reached {l : Link M} (h : Reached (Link.step protocols) anyStep .new l)
    (x : End) :
    (l.sessions x).Registry := by
  refine h.invariant (fun l => ∀ x, (l.sessions x).Registry) ?_ ?_ x
  · intro y
    exact SessionState.registry_new _
  · intro l event l' h _ hstep y
    obtain ⟨x, e, s, rest, hs, -, -, hx, hpeer, -⟩ := step_eq_some hstep
    by_cases hy : y = x
    · rw [hy, hx]
      exact (h x).step (SessionState.step_effect hs)
    · rw [End.eq_peer_of_ne hy, hpeer]
      exact h x.peer

/-- The numbers go on below `2 ^ 63` channels on each side. -/
theorem counted_of_execute {events : List (LinkEvent M)} {l : Link M}
    (hrun : execute (Link.step protocols) anyStep events .new = some l)
    (hbelow : ∀ x, events.countP (LinkEvent.opensAt x) < 2 ^ 63) : l.Counted events := by
  refine execute_invariant (fun events l => (∀ x, events.countP (LinkEvent.opensAt x) < 2 ^ 63) → l.Counted events)
    ?_ ?_ hrun hbelow
  · intro _ x
    exact ⟨0, Nat.zero_le _, SessionState.numbered_new _⟩
  · intro events l event l' hl hcounted _ hstep hbelow y
    have hmore (x : End) : events.countP (LinkEvent.opensAt x) ≤ (events ++ [event]).countP (LinkEvent.opensAt x) :=
      (List.sublist_append_left ..).countP_le
    obtain ⟨x, e, s, rest, hs, hact, -, hx, hpeer, -⟩ := step_eq_some hstep
    obtain ⟨count, hcount, hnumbered⟩ := hcounted (fun x => (hmore x).trans_lt (hbelow x)) y
    by_cases hy : y = x
    · subst hy
      have hopened (hopen : ∃ k p, e = .openChannel k p) :
          (events ++ [event]).countP (LinkEvent.opensAt y) = events.countP (LinkEvent.opensAt y) + 1 := by
        obtain ⟨k, p, rfl⟩ := hopen
        simp [hact rfl, LinkEvent.opensAt]
      have hinformed := informed_of_reached (reached_of_execute events hl) y
      rw [hx]
      rcases hnumbered.step (SessionState.step_effect hs) (fun _ _ _ _ => hinformed.told.opening_kind) (by
          intro hopen
          have hcount' := hopened hopen
          have hbelow' := hbelow y
          have hfirst : y.firstId ≤ 2 := by cases y <;> decide
          omega) with hnumbered | ⟨hopen, hnumbered⟩
      · exact ⟨count, hcount.trans (hmore y), hnumbered⟩
      · exact ⟨count + 1, by rw [hopened hopen]; omega, hnumbered⟩
    · obtain rfl := End.eq_peer_of_ne hy
      rw [hpeer]
      exact ⟨count, hcount.trans (hmore _), hnumbered⟩

variable {l : Link M} {events : List (LinkEvent M)}

/-- What an opener keeps from its start. -/
theorem cards_opener {x : End} {k : ℕ} {call : ChannelCall M}
    (hc : (l.sessions x).calls k = some call) (hkind : call.kind = .opener) :
    (l.sessions x).cards k = some ⟨.opener, call.handle.protocolId, some call.handle.id⟩ := by
  rw [SessionState.cards, hc, Option.map_some, ChannelCall.card]
  simp only [hkind]

/-- The number of an opener is not zero, and its parity gives the side. -/
theorem Counted.opener_id (h : l.Counted events)
    (hbelow : ∀ x, events.countP (LinkEvent.opensAt x) < 2 ^ 63) {x : End} {k : ℕ}
    {call : ChannelCall M} (hc : (l.sessions x).calls k = some call) (hkind : call.kind = .opener) :
    0 < call.handle.id ∧ call.handle.id < 2 ^ 64 ∧ (call.handle.id % 2 = 1 ↔ x = .initiator) := by
  obtain ⟨count, hcount, hnumbered⟩ := h x
  obtain ⟨n, hn, hid⟩ := hnumbered.openers k _ _ (cards_opener hc hkind)
  have hbelow' := hbelow x
  rw [hid]
  cases x with
  | initiator =>
    have hfirst : End.initiator.firstId = 1 := rfl
    refine ⟨by omega, by omega, ?_⟩
    simp only [iff_true]
    omega
  | responder =>
    have hfirst : End.responder.firstId = 2 := rfl
    refine ⟨by omega, by omega, ?_⟩
    simp only [reduceCtorEq, iff_false]
    omega

/-- A number belongs to one opener of both sides. -/
theorem Counted.opener_eq (h : l.Counted events)
    (hbelow : ∀ x, events.countP (LinkEvent.opensAt x) < 2 ^ 63) {x y : End} {j k : ℕ}
    {call other : ChannelCall M} (hc : (l.sessions x).calls j = some call)
    (ho : (l.sessions y).calls k = some other) (hkind : call.kind = .opener)
    (hkind' : other.kind = .opener) (hid : call.handle.id = other.handle.id) : x = y ∧ j = k := by
  have hx := (h.opener_id hbelow hc hkind).2.2
  have hy := (h.opener_id hbelow ho hkind').2.2
  rw [hid] at hx
  have hxy : x = y := by
    have hsame := hx.symm.trans hy
    cases x <;> cases y <;> simp_all
  subst hxy
  obtain ⟨count, -, hnumbered⟩ := h x
  have hcard := cards_opener hc hkind
  rw [hid] at hcard
  exact ⟨rfl, hnumbered.distinct j k _ _ _ hcard (cards_opener ho hkind')⟩

/-- A channel that an acceptor has registered was opened by the peer. -/
theorem opener_of_told (h : Reached (Link.step protocols) anyStep .new l) {x : End} {k : ℕ}
    {call : ChannelCall M} (hc : (l.sessions x).calls k = some call) (hkind : call.kind = .acceptor)
    (hphase : call.phase = .returned) :
    ∃ j opener, (l.sessions x.peer).calls j = some opener ∧ opener.kind = .opener ∧
      opener.handle.id = call.handle.id := by
  exact ((informed_of_reached h x).told.told k call hc hkind (by rw [hphase]; rfl)).2.exists_opener

/-- A channel that is registered denotes a call of `OpenChannel` with its number. -/
theorem denotes_of_registered (h : Reached (Link.step protocols) anyStep .new l) {x : End} {i j : ℕ}
    (hj : (l.sessions x).channels i = some j) :
    ∃ y k opener, l.Denotes x i y k ∧ (l.sessions y).calls k = some opener ∧ opener.kind = .opener ∧
      opener.handle.id = i := by
  obtain ⟨call, hc, hphase, hid⟩ := (registry_of_reached h x).registered i j hj
  cases hkind : call.kind with
  | opener => exact ⟨x, j, call, ⟨j, call, hj, hc, .inl ⟨hkind, rfl, rfl⟩⟩, hc, hkind, hid⟩
  | acceptor =>
    obtain ⟨k, opener, ho, hopener, hid'⟩ := opener_of_told h hc hkind hphase
    have hi := hid'.trans hid
    exact ⟨x.peer, k, opener, ⟨j, call, hj, hc, .inr ⟨hkind, rfl, opener, ho, hopener, hi⟩⟩, ho, hopener, hi⟩

/-- The call that a channel denotes has its number. -/
theorem Denotes.opener (h : Reached (Link.step protocols) anyStep .new l) {x y : End} {i k : ℕ}
    (hdenotes : l.Denotes x i y k) :
    ∃ opener, (l.sessions y).calls k = some opener ∧ opener.kind = .opener ∧ opener.handle.id = i := by
  obtain ⟨j, call, hj, hc, ⟨hkind, rfl, rfl⟩ | ⟨-, -, hopener⟩⟩ := hdenotes
  · obtain ⟨call', hc', -, hid⟩ := (registry_of_reached h y).registered i k hj
    obtain rfl := Option.some.inj (hc.symm.trans hc')
    exact ⟨call, hc, hkind, hid⟩
  · exact hopener

end Link

/-- In every run of two sessions with fewer than `2 ^ 63` calls of `OpenChannel` on each side: the
numbers of the opened channels are not zero and are all different, a broker registers one channel
for a number, and a channel that both brokers have registered denotes one call of `OpenChannel` on
both sides, which is a call of the initiator exactly if the number is odd. -/
theorem channel_ids_agree {events : List (LinkEvent M)} {l : Link M}
    (hrun : execute (Link.step protocols) anyStep events .new = some l)
    (hbelow : ∀ x, events.countP (LinkEvent.opensAt x) < 2 ^ 63) :
    (∀ x k call, (l.sessions x).calls k = some call → call.kind = .opener →
        call.handle.id ≠ 0 ∧ call.handle.id < 2 ^ 64) ∧
      (∀ x y j k call other, (l.sessions x).calls j = some call → (l.sessions y).calls k = some other →
        call.kind = .opener → other.kind = .opener → call.handle.id = other.handle.id → x = y ∧ j = k) ∧
      (∀ x j k call other, (l.sessions x).calls j = some call → (l.sessions x).calls k = some other →
        call.phase = .returned → other.phase = .returned → call.handle.id = other.handle.id → j = k) ∧
      ∀ i, (∀ x, ((l.sessions x).channels i).isSome = true) →
        ∃ y k, (∀ x, l.Denotes x i y k) ∧ (∀ x y' k', l.Denotes x i y' k' → y' = y ∧ k' = k) ∧
          (y = .initiator ↔ i % 2 = 1) := by
  have hreached := reached_of_execute events hrun
  have hcounted := Link.counted_of_execute hrun hbelow
  refine ⟨?_, ?_, ?_, ?_⟩
  · intro x k call hc hkind
    obtain ⟨hpos, hlt, -⟩ := hcounted.opener_id hbelow hc hkind
    exact ⟨Nat.ne_of_gt hpos, hlt⟩
  · intro x y j k call other hc ho hkind hkind' hid
    exact hcounted.opener_eq hbelow hc ho hkind hkind' hid
  · intro x j k call other hc ho hphase hphase' hid
    have hregistry := Link.registry_of_reached hreached x
    have hj := hregistry.returned j call hc hphase
    rw [hid] at hj
    exact Option.some.inj (hj.symm.trans (hregistry.returned k other ho hphase'))
  · intro i hboth
    have hone {y y' : End} {k k' : ℕ} {opener opener' : ChannelCall M} (ho : (l.sessions y).calls k = some opener)
        (ho' : (l.sessions y').calls k' = some opener') (hkind : opener.kind = .opener)
        (hkind' : opener'.kind = .opener) (hid : opener.handle.id = i) (hid' : opener'.handle.id = i) :
        y = y' ∧ k = k' :=
      hcounted.opener_eq hbelow ho ho' hkind hkind' (hid.trans hid'.symm)
    obtain ⟨j, hj⟩ := Option.isSome_iff_exists.mp (hboth .initiator)
    obtain ⟨y, k, opener, -, ho, hkind, hid⟩ := Link.denotes_of_registered hreached hj
    refine ⟨y, k, ?_, ?_, ?_⟩
    · intro x
      obtain ⟨j', hj'⟩ := Option.isSome_iff_exists.mp (hboth x)
      obtain ⟨y', k', opener', hdenotes, ho', hkind', hid'⟩ := Link.denotes_of_registered hreached hj'
      obtain ⟨rfl, rfl⟩ := hone ho ho' hkind hkind' hid hid'
      exact hdenotes
    · intro x y' k' hdenotes
      obtain ⟨opener', ho', hkind', hid'⟩ := hdenotes.opener hreached
      exact hone ho' ho hkind' hkind hid' hid
    · rw [← hid]
      exact (hcounted.opener_id hbelow ho hkind).2.2.symm

/-- A side opens a channel and awaits another one. -/
def opensAndAwaits (x : End) : List (LinkEvent Bytes) :=
  [.act x (.openChannel 0 1), .act x (.acceptChannel 1 1), .act x (.takeWait 0), .act x (.takeWait 1),
    .act x (.writeCall 0 none)]

/-- A side is told about the channel of its peer, accepts it and registers it. -/
def acceptsPeer (x : End) : List (LinkEvent Bytes) :=
  [.deliver x, .act x .takeMessage, .act x .pass, .act x (.writeCall 1 none), .act x (.takeChannel 1)]

/-- A side learns that its own channel was accepted, and registers it. -/
def joinsOwn (x : End) : List (LinkEvent Bytes) :=
  [.deliver x, .act x .takeMessage, .act x (.proceed 0), .act x (.takeChannel 0)]

/-- The messages that open two channels cross. -/
def crossedChannels : List (LinkEvent Bytes) :=
  opensAndAwaits .initiator ++ opensAndAwaits .responder ++ acceptsPeer .initiator ++ acceptsPeer .responder ++
    joinsOwn .initiator ++ joinsOwn .responder

/-- Both channels denote one call on both sides. -/
theorem channel_ids_agree_crossed :
    ∃ l : Link Bytes, execute (Link.step ⟨fun _ => plainCodec, 100⟩) anyStep crossedChannels .new = some l ∧
      ∀ i, i = 1 ∨ i = 2 → (∀ x, ((l.sessions x).channels i).isSome = true) ∧
        ∃ y k, (∀ x, l.Denotes x i y k) ∧ (y = .initiator ↔ i % 2 = 1) := by
  obtain ⟨l, hrun⟩ :
      ∃ l, execute (Link.step ⟨fun _ => plainCodec, 100⟩) anyStep crossedChannels .new = some l := ⟨_, rfl⟩
  have hchannels :
      (execute (Link.step ⟨fun _ => plainCodec, 100⟩) anyStep crossedChannels .new).map (fun l =>
        [(l.sessions .initiator).channels 1, (l.sessions .responder).channels 1,
          (l.sessions .initiator).channels 2, (l.sessions .responder).channels 2]) =
      some [some 0, some 1, some 1, some 0] := rfl
  rw [hrun, Option.map_some, Option.some.injEq, List.cons.injEq, List.cons.injEq, List.cons.injEq,
    List.cons.injEq] at hchannels
  obtain ⟨hi, hr, hi', hr', -⟩ := hchannels
  obtain ⟨-, -, -, hagree⟩ := channel_ids_agree hrun (fun x => by cases x <;> decide)
  refine ⟨l, hrun, ?_⟩
  intro i h
  have hboth : ∀ x, ((l.sessions x).channels i).isSome = true := by
    intro x
    cases x <;> rcases h with rfl | rfl <;> simp [*]
  obtain ⟨y, k, hdenotes, -, hparity⟩ := hagree i hboth
  exact ⟨hboth, y, k, hdenotes, hparity⟩

end ProjektCore.Session
