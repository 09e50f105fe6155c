import ProjektCore.Programs.Handshake

/-!
# Two sessions that create one channel

In a calm run the messages that create the channel are neither lost nor repeated: what the call of
one side has written is on its way to the other side, is held by its session, or has been taken by
its call. They are the first messages on the connection; data follows once the channel is registered
on the side that writes it.
-/

namespace ProjektCore.Programs

open Foundation Protocol Session

variable {N : Type} {protocols : Protocols N}

/-- What holds of the two sessions of a calm run. -/
structure Meets (l : Link N) : Prop where
  shape : ∀ x, Shape x (l.sessions x)
  incoming : ∀ x, ∀ m ∈ l.incoming x, MessageShape x m
  tokens : ∀ x, gotten x (l.sessions x) + (l.incoming x).countP createsChannel = told x.peer (l.sessions x.peer)
  first : ∀ x, (l.incoming x).tail.countP createsChannel = 0
  behind : ∀ x data, (l.sessions x).reader = .data data → (l.incoming x).countP createsChannel = 0
  stopped : ∀ x, (l.sessions x).reader = .stopped →
    (l.sessions x).isDone = true ∨ l.incoming x = [] ∧ (l.sessions x.peer).isDone = true

section Facts

variable {l : Link N} {x : End}

/-- New sessions. -/
theorem meets_new : Meets (.new : Link N) where
  shape x := by
    refine ⟨fun _ _ => rfl, ?_, fun _ h => ?_, rfl, rfl, trivial, trivial⟩
    · rintro rfl -
      rfl
    · cases h
  incoming x m hm := by cases hm
  tokens x := by cases x <;> rfl
  first x := rfl
  behind x data h := by cases h
  stopped x h := by cases h

/-- At most one message that creates the channel is written. -/
theorem told_le_one (x : End) (s : SessionState N) : told x s ≤ 1 := Bool.toNat_le _

/-- A message to a program that does not create the channel is data for it. -/
theorem dataFor_of_shape {m : Session.Message} (h : MessageShape x m)
    (hcreates : createsChannel m = false) :
    ∃ data, dataFor 1 m = some data := by
  obtain ⟨content⟩ := m
  cases content with
  | none => exact h.elim
  | some content =>
    cases content with
    | openChannel => cases hcreates
    | acceptChannel => cases hcreates
    | closeChannel => exact h.elim
    | data data => exact ⟨data, if_pos h⟩

/-- Data on its way to a side was written by a call of the peer that has returned. -/
theorem Meets.returned_of_data (h : Meets l) (hdelivers : l.Delivers protocols x)
    (hpeer : (l.sessions x.peer).Registry)
    (hdata : (∃ data, (l.sessions x).reader = .data data) ∨ ∃ m ∈ l.incoming x, createsChannel m = false) :
    ∃ call, (l.sessions x.peer).calls 0 = some call ∧ call.phase = .returned := by
  have htransit : l.transit x 1 ≠ [] := by
    rcases hdata with ⟨data, hreader⟩ | ⟨m, hm, hcreates⟩
    · have hid := (h.shape x).reader
      rw [hreader] at hid
      rw [Link.transit, SessionState.heldFor_data hreader, show data.channelId = 1 from hid,
        Function.update_self]
      simp
    · obtain ⟨data, hdata⟩ := dataFor_of_shape (h.incoming x m hm) hcreates
      intro hnone
      rw [Link.transit, List.append_eq_nil_iff, List.filterMap_eq_nil_iff] at hnone
      cases hdata.symm.trans (hnone.2 m hm)
  obtain ⟨data, more, hcons⟩ := List.exists_cons_of_ne_nil htransit
  obtain ⟨taken, rest, -, -, hall, -⟩ := hdelivers.remains 1
  rw [Link.Carries, hcons] at hall
  cases hall with
  | cons hm _ =>
    obtain ⟨c, hc, -⟩ := hm
    simp only [SessionState.handleAt, SessionState.logAt, Option.map_eq_some_iff,
      Option.bind_eq_some_iff] at hc
    obtain ⟨log, ⟨k, hk, -⟩, -⟩ := hc
    obtain ⟨call, hcall, hreturned, -⟩ := hpeer.registered 1 k hk
    obtain rfl := (h.shape x.peer).call_eq hcall
    exact ⟨call, hcall, hreturned⟩

/-- Before a call has written the message that creates the channel, nothing is on its way to the
peer. -/
theorem Meets.nothing_sent (h : Meets l) (hdelivers : l.Delivers protocols x)
    (hpeer : (l.sessions x.peer).Registry) (htold : told x.peer (l.sessions x.peer) = 0) :
    l.incoming x = [] ∧ ∀ data, (l.sessions x).reader ≠ .data data := by
  have htokens := h.tokens x
  have hreturned : ¬ ∃ call, (l.sessions x.peer).calls 0 = some call ∧ call.phase = .returned := by
    rintro ⟨call, hcall, hphase⟩
    rw [told, hcall, Option.any_some] at htold
    cases hx : x.peer <;> simp [hasTold, hx, hphase] at htold
  refine ⟨List.eq_nil_iff_forall_not_mem.mpr fun m hm => ?_, fun data hreader => ?_⟩
  · cases hcreates : createsChannel m with
    | false => exact hreturned (h.returned_of_data hdelivers hpeer (.inr ⟨m, hm, hcreates⟩))
    | true =>
      have hpos := List.countP_pos_iff.mpr ⟨m, hm, hcreates⟩
      omega
  · exact hreturned (h.returned_of_data hdelivers hpeer (.inl ⟨data, hreader⟩))

end Facts

/-- The reading goroutine only holds data that it had or receives. -/
theorem reader_data_of_step {s t : SessionState N} {e : SessionEvent N}
    (h : s.step protocols e = some t) {data : Data} (hreader : t.reader = .data data) :
    s.reader = .data data ∨ e.receives ≠ [] := by
  have heffect := SessionState.step_effect h
  generalize s.sends protocols e = sent at heffect
  cases heffect with
  | receive => exact .inr (by simp [SessionEvent.receives])
  | dropData | dropOther | takeData | takeOpen | takeAccept | stopReader => cases hreader
  | _ => exact .inl hreader

/-- A message does not stop the reading goroutine. -/
theorem readHandler_ne_stopped (message : Session.Message) : readHandler message ≠ .stopped := by
  intro hstopped
  obtain ⟨content⟩ := message
  cases content with
  | none => cases hstopped
  | some content => cases content <;> cases hstopped

/-- The reading goroutine only stops when it finds the end of the connection. -/
theorem reader_stopped_of_step {s t : SessionState N} {e : SessionEvent N}
    (h : s.step protocols e = some t) (hreader : t.reader = .stopped) :
    s.reader = .stopped ∧ e.receives = [] ∨ e = .stopReader := by
  have heffect := SessionState.step_effect h
  generalize s.sends protocols e = sent at heffect
  cases heffect with
  | stopReader => exact .inr rfl
  | receive => exact absurd hreader (readHandler_ne_stopped _)
  | dropData | dropOther | takeData | takeOpen | takeAccept => cases hreader
  | panic _ hreceives | notWritten hreceives => exact .inl ⟨hreader, hreceives⟩
  | _ => exact .inl ⟨hreader, rfl⟩

/-- A session that is closed stays closed. -/
theorem isDone_of_step {s t : SessionState N} {e : SessionEvent N} (h : s.step protocols e = some t)
    (hdone : s.isDone = true) : t.isDone = true := by
  have heffect := SessionState.step_effect h
  generalize s.sends protocols e = sent at heffect
  cases heffect with
  | closeSession => rfl
  | _ => exact hdone

/-- A step writes at most one message. -/
theorem sends_length_le_one {s t : SessionState N} {e : SessionEvent N}
    (h : s.step protocols e = some t) (hclose : ∀ k failure, e ≠ .close k failure) :
    (s.sends protocols e).length ≤ 1 := by
  have heffect := SessionState.step_effect h
  generalize s.sends protocols e = sent at heffect
  cases heffect with
  | close => exact absurd rfl (hclose _ _)
  | _ => simp

/-- Properties of both sides, one of which has made a step. -/
theorem forall_end {P : End → Prop} (x : End) (hx : P x) (hpeer : P x.peer) (y : End) : P y := by
  by_cases hy : y = x
  · exact hy ▸ hx
  · exact End.eq_peer_of_ne hy ▸ hpeer

section Advance

variable {l l' : Link N} {x : End} {e : SessionEvent N} {s : SessionState N} {rest : List Session.Message}

/-- One session makes a step. -/
theorem Meets.advance (h : Meets l) (hdelivers : ∀ x, l.Delivers protocols x)
    (hs : (l.sessions x).step protocols e = some s) (hclose : ∀ k failure, e ≠ .close k failure)
    (hadvances : Advances x e ((l.sessions x).sends protocols e) (l.sessions x) s)
    (hincoming : l.incoming x = e.receives ++ rest) (hsx : l'.sessions x = s)
    (hsy : l'.sessions x.peer = l.sessions x.peer) (hrest : l'.incoming x = rest)
    (hout : l'.incoming x.peer = l.incoming x.peer ++ (l.sessions x).sends protocols e)
    (hstop : e = .stopReader →
      (l.sessions x).isDone = true ∨ l.incoming x = [] ∧ (l.sessions x.peer).isDone = true)
    (hquiet : (l.sessions x).isDone = true → (l.sessions x).sends protocols e = []) : Meets l' := by
  have hlength := sends_length_le_one hs hclose
  generalize (l.sessions x).sends protocols e = sent at hadvances hout hquiet hlength
  -- a message that creates the channel is the first one to the peer
  have hfirst : sent.countP createsChannel ≠ 0 →
      l.incoming x.peer = [] ∧ ∀ data, (l.sessions x.peer).reader ≠ .data data := by
    intro hsome
    have hle := told_le_one x s
    have htold := hadvances.told
    refine h.nothing_sent (hdelivers x.peer) (hdelivers x.peer.peer).registry ?_
    rw [End.peer_peer]
    omega
  have htokens := h.tokens x
  have htokensPeer := h.tokens x.peer
  rw [End.peer_peer] at htokensPeer
  have hgotten := hadvances.gotten
  have htold := hadvances.told
  rw [hincoming, List.countP_append] at htokens
  refine ⟨forall_end x ?_ ?_, forall_end x ?_ ?_, forall_end x ?_ ?_, forall_end x ?_ ?_, forall_end x ?_ ?_,
    forall_end x ?_ ?_⟩
  · rw [hsx]
    exact hadvances.shape
  · rw [hsy]
    exact h.shape x.peer
  · rw [hrest]
    intro m hm
    exact h.incoming x m (hincoming ▸ List.mem_append_right _ hm)
  · rw [hout]
    intro m hm
    rcases List.mem_append.mp hm with hm | hm
    · exact h.incoming x.peer m hm
    · exact hadvances.sent m hm
  · rw [hsx, hsy, hrest]
    omega
  · rw [End.peer_peer, hsx, hsy, hout, List.countP_append]
    omega
  · have hbefore := h.first x
    rw [hrest]
    rw [hincoming] at hbefore
    cases e with
    | receive message =>
      have hsub : rest.tail.countP createsChannel ≤ rest.countP createsChannel := (List.tail_sublist rest).countP_le
      change rest.countP createsChannel = 0 at hbefore
      omega
    | _ => exact hbefore
  · have hbefore := h.first x.peer
    rw [hout]
    cases hqueue : l.incoming x.peer with
    | nil =>
      cases sent with
      | nil => rfl
      | cons m more =>
        cases more with
        | nil => rfl
        | cons => simp at hlength
    | cons m more =>
      rw [hqueue] at hbefore
      have hnone : sent.countP createsChannel = 0 := by
        by_contra hsome
        cases hqueue.symm.trans (hfirst hsome).1
      rw [List.cons_append, List.tail_cons, List.countP_append, hnone]
      exact hbefore
  · intro data hreader
    rw [hsx] at hreader
    rw [hrest]
    rcases reader_data_of_step hs hreader with hsame | hreceives
    · have hbefore := h.behind x data hsame
      rw [hincoming, List.countP_append] at hbefore
      omega
    · have hbefore := h.first x
      rw [hincoming] at hbefore
      cases e with
      | receive message => exact hbefore
      | _ => exact absurd rfl hreceives
  · intro data hreader
    rw [hsy] at hreader
    have hbefore := h.behind x.peer data hreader
    have hnone : sent.countP createsChannel = 0 := by
      by_contra hsome
      exact (hfirst hsome).2 data hreader
    rw [hout, List.countP_append, hbefore, hnone]
  · intro hreader
    rw [hsx] at hreader
    rw [hsx, hsy, hrest]
    rcases reader_stopped_of_step hs hreader with ⟨hsame, hreceives⟩ | hstopped
    · rw [hreceives, List.nil_append] at hincoming
      rw [← hincoming]
      exact (h.stopped x hsame).imp_left (isDone_of_step hs)
    · subst hstopped
      rw [show SessionEvent.receives (.stopReader : SessionEvent N) = [] from rfl,
        List.nil_append] at hincoming
      rw [← hincoming]
      exact (hstop rfl).imp_left (isDone_of_step hs)
  · intro hreader
    rw [hsy] at hreader
    rw [hsy, End.peer_peer, hsx, hout]
    rcases h.stopped x.peer hreader with hdone | ⟨hnone, hdone⟩
    · exact .inl hdone
    · rw [End.peer_peer] at hdone
      exact .inr ⟨by rw [hnone, hquiet hdone]; rfl, isDone_of_step hs hdone⟩

/-- A call that has written its message. -/
theorem told_pos {s : SessionState N} (h : 0 < told x s) :
    ∃ call, s.calls 0 = some call ∧ hasTold x call = true := by
  rw [told] at h
  cases hcall : s.calls 0 with
  | none =>
    rw [hcall] at h
    cases h
  | some call =>
    rw [hcall, Option.any_some] at h
    cases hhas : hasTold x call with
    | false =>
      rw [hhas] at h
      cases h
    | true => exact ⟨call, rfl, hhas⟩

/-- The responder writes its message once it has taken that of the initiator. -/
theorem told_initiator (h : Meets l) (htold : 0 < told .responder (l.sessions .responder)) :
    told .initiator (l.sessions .initiator) = 1 := by
  obtain ⟨call, hcall, hhas⟩ := told_pos htold
  have htokens := h.tokens .responder
  have hle := told_le_one .initiator (l.sessions .initiator)
  have hgot : hasGot .responder call = true := by
    cases hphase : call.phase <;> simp_all [hasTold, hasGot, isTold]
  change gotten .responder (l.sessions .responder) + _ = told .initiator (l.sessions .initiator) at htokens
  rw [gotten, hcall, Option.any_some, hgot] at htokens
  simp only [Bool.toNat_true] at htokens
  omega

/-- The message that accepts the channel is expected by the call of the initiator. -/
theorem Meets.awaitsAccept (h : Meets l) {i : ℕ} (hreader : (l.sessions x).reader = .inAccept i) :
    ∃ call, (l.sessions x).calls 0 = some call ∧ Programs.awaitsAccept call = true := by
  have hheld := (h.shape x).reader
  rw [hreader] at hheld
  obtain ⟨rfl, -⟩ := hheld
  have htokens := h.tokens .initiator
  change gotten .initiator (l.sessions .initiator) + _ = told .responder (l.sessions .responder) at htokens
  have hle := told_le_one .responder (l.sessions .responder)
  have hpos : 0 < told .responder (l.sessions .responder) := by
    rw [← htokens, gotten, hreader]
    simp only [isHandshake, Bool.toNat_true]
    omega
  obtain ⟨call, hcall, hhas⟩ := told_pos (by rw [told_initiator h hpos]; decide)
  have hshape := (h.shape .initiator).call call hcall
  have hnot : call.accepted = false := by
    rw [gotten, hreader, hcall, Option.any_some] at htokens
    cases haccepted : call.accepted with
    | false => rfl
    | true =>
      simp only [hasGot, haccepted, isHandshake, Bool.toNat_true] at htokens
      omega
  refine ⟨call, hcall, ?_⟩
  have hkind : call.kind = .opener := hshape.kind
  have hlate := hshape.late rfl
  cases hphase : call.phase <;> simp_all [hasTold, Programs.awaitsAccept]

end Advance

section Inner

variable {l : Link N} {x : End} {e : SessionEvent N} {s : SessionState N}

/-- The goroutines of a session advance. -/
theorem Meets.inner (h : Meets l) (hregistry : (l.sessions x).Registry) (hinner : isInner e = true)
    (hdone : (l.sessions x).isDone = true → ∀ call, (l.sessions x).calls 0 = some call → call.phase = .returned)
    (hmessage : ∀ m ∈ e.receives, m ∈ l.incoming x) (horderly : Orderly l (.act x e))
    (hs : (l.sessions x).step protocols e = some s) :
    Advances x e ((l.sessions x).sends protocols e) (l.sessions x) s := by
  have hshape := h.shape x
  cases e with
  | takeWait k => exact hshape.takeWait hregistry hs
  | takeMessage =>
    simp only [Orderly, isOrderly] at horderly
    cases hreader : (l.sessions x).reader with
    | reading | stopped => simp [SessionState.step, hreader] at hs
    | data data => exact hshape.takeData hreader hs
    | inOpen i p =>
      rw [hreader] at horderly
      exact hshape.takeOpen hregistry hreader horderly hs
    | inAccept i =>
      obtain ⟨call, hcall, hawaits⟩ := h.awaitsAccept hreader
      exact hshape.takeAccept hregistry hreader hcall hawaits hs
  | takeChannel k => exact hshape.takeChannel hregistry hs
  | pass => exact hshape.pass hs
  | writeCall k failure =>
    obtain rfl : failure = none := Option.isNone_iff_eq_none.mp horderly
    exact hshape.writeCall hs
  | proceed k => exact hshape.proceed hs
  | receive message => exact hshape.receive (h.incoming x message (hmessage message List.mem_cons_self)) hs
  | stopBroker =>
    simp only [SessionState.step, Option.ite_none_right_eq_some] at hs
    obtain ⟨hisDone, hs⟩ := hs
    have hstopped : Shape x { l.sessions x with broker := .stopped } :=
      hshape.ofSame rfl rfl rfl rfl hisDone hshape.reader
    split at hs
    · next hbroker =>
      obtain rfl := Option.some.inj hs
      exact hstopped.advances rfl rfl (by rw [hbroker]; rfl) rfl rfl (fun m hm => by cases hm)
    · next hbroker =>
      obtain rfl := Option.some.inj hs
      exact hstopped.advances rfl rfl (by rw [hbroker]; rfl) rfl rfl (fun m hm => by cases hm)
    all_goals cases hs
  | stopReader =>
    simp only [SessionState.step] at hs
    split at hs
    · next hreader =>
      obtain rfl := Option.some.inj hs
      have hstopped : Shape x { l.sessions x with reader := .stopped } :=
        hshape.ofSame rfl rfl rfl rfl hshape.broker trivial
      exact hstopped.advances rfl (by rw [hreader]; rfl) rfl rfl rfl (fun m hm => by cases hm)
    · cases hs
  | leave k =>
    simp only [SessionState.step, Option.bind_eq_bind, Option.bind_eq_some_iff,
      Option.ite_none_right_eq_some] at hs
    obtain ⟨call, hcall, ⟨hisDone, hphase⟩, -⟩ := hs
    obtain rfl := hshape.call_eq hcall
    cases hphase.symm.trans (hdone hisDone call hcall)
  | openChannel | acceptChannel | write | read | close | exit | closeSession => cases hinner

end Inner

namespace Stack

variable {M : Type} {State : End → Type} {c : Setup M State} {p q : Stack c}

/-- The sessions create the channel, and a program closes its session once its loop has returned. -/
structure Opens (p : Stack c) : Prop where
  meets : Meets p.link
  closing : ∀ x, (p.link.sessions x).isDone = true → ∃ l, p.loops x = some l ∧ l.phase = .returned none

/-- New programs. -/
theorem opens_new : Opens (new : Stack c) where
  meets := meets_new
  closing x h := by cases h

/-- A session is closed once its call has returned. -/
theorem Opens.returned (h : p.Opens) (hp : p.Prompt) {x : End}
    (hdone : (p.link.sessions x).isDone = true) (call : ChannelCall c.Encoded)
    (hcall : (p.link.sessions x).calls 0 = some call) : call.phase = .returned := by
  obtain ⟨l, hl, -⟩ := h.closing x hdone
  obtain ⟨call', hcall', hreturned, -⟩ := hp.sound.call_of_loop hl
  exact Option.some.inj (hcall'.symm.trans hcall) ▸ hreturned

/-- A loop that has returned does not go on. -/
theorem returned_of_step {S : Type} {a : Side S M} {l l' : Loop S M} {event : LoopEvent M}
    (h : l.step a event = some l') (hphase : l.phase = .returned none) :
    l'.phase = .returned none := by
  cases Loop.step_effect h with
  | arrive | lose | quit => exact hphase
  | finish hother | write hother | send hother | read hother | fail hother => cases hphase.symm.trans hother

/-- A session is closed by its program only. -/
theorem isDone_eq_of_step {N : Type} {protocols : Protocols N} {s t : SessionState N}
    {e : SessionEvent N} (h : s.step protocols e = some t) (hclose : e ≠ .closeSession) :
    t.isDone = s.isDone := by
  have heffect := SessionState.step_effect h
  generalize s.sends protocols e = sent at heffect
  cases heffect with
  | closeSession => exact absurd rfl hclose
  | _ => rfl

/-- One loop goes on, and the sessions that are closed stay the same. -/
theorem Opens.keepClosing (h : p.Opens) (hdone : ∀ x, (q.link.sessions x).isDone = (p.link.sessions x).isDone)
    (hloops : ∀ x l, p.loops x = some l → l.phase = .returned none →
      ∃ l', q.loops x = some l' ∧ l'.phase = .returned none) (x : End) (hisDone : (q.link.sessions x).isDone = true) :
    ∃ l, q.loops x = some l ∧ l.phase = .returned none := by
  obtain ⟨l, hl, hphase⟩ := h.closing x (hdone x ▸ hisDone)
  exact hloops x l hl hphase

/-- A replaced loop that had returned has returned. -/
theorem loops_setLoop {x : End} {l l' : Loop (State x) M} (hl : p.loops x = some l)
    (hreturned : l.phase = .returned none → l'.phase = .returned none) (y : End)
    (other : Loop (State y) M) (hother : p.loops y = some other)
    (hphase : other.phase = .returned none) (link : Link c.Encoded) :
    ∃ l'', ({ p with link := link }.setLoop x l').loops y = some l'' ∧ l''.phase = .returned none := by
  by_cases hy : y = x
  · subst hy
    obtain rfl := Option.some.inj (hl.symm.trans hother)
    exact ⟨l', setLoop_self _ y l', hreturned hphase⟩
  · exact ⟨other, (setLoop_of_ne _ l' hy).trans hother, hphase⟩

/-- A program acts on its session. -/
theorem Opens.act (h : p.Opens) (hp : p.Prompt) {x : End} {e : SessionEvent c.Encoded} {link : Link c.Encoded}
    (hact : p.link.act c.protocols x e = some link) (hreceives : e.receives = [])
    (hclose : ∀ k failure, e ≠ .close k failure) (hstop : e ≠ .stopReader)
    (hadvances : ∀ s, (p.link.sessions x).step c.protocols e = some s →
      Advances x e ((p.link.sessions x).sends c.protocols e) (p.link.sessions x) s)
    (hquiet : (p.link.sessions x).isDone = true → (p.link.sessions x).sends c.protocols e = []) : Meets link := by
  simp only [Link.act, Option.bind_eq_bind, Option.bind_eq_some_iff, Option.some.injEq] at hact
  obtain ⟨s, hs, rfl⟩ := hact
  exact h.meets.advance hp.delivers hs hclose (hadvances s hs) (by rw [hreceives, List.nil_append]) (by simp) (by simp)
    (by simp) (by simp) (fun hother => absurd hother hstop) hquiet

/-- The goroutines of the sessions go on. -/
theorem Opens.session (h : p.Opens) (hp : p.Prompt) {event : LinkEvent c.Encoded}
    {link : Link c.Encoded} (hinner : isInnerLink event = true) (horderly : Orderly p.link event)
    (hstep : p.link.step c.protocols event = some link) :
    Meets link ∧ ∀ x, (link.sessions x).isDone = (p.link.sessions x).isDone := by
  obtain ⟨x, e, s, rest, hs, hact, hincoming, hsx, hsy, hrest, hout⟩ := Link.step_eq_some hstep
  have hinnerSession : isInner e = true := by
    by_cases hreceives : e.receives = []
    · rw [hact hreceives] at hinner
      exact hinner
    · cases e with
      | receive message => rfl
      | _ => exact absurd rfl hreceives
  have hshape := h.meets.shape x
  have horderlySession : Orderly p.link (.act x e) := by
    by_cases hreceives : e.receives = []
    · rw [hact hreceives] at horderly
      exact horderly
    · cases e with
      | receive message => rfl
      | _ => exact absurd rfl hreceives
  have hadvances := h.meets.inner (hp.delivers x).registry hinnerSession (h.returned hp)
    (fun m hm => hincoming ▸ List.mem_append_left _ hm) horderlySession hs
  refine ⟨h.meets.advance hp.delivers hs ?_ hadvances hincoming hsx hsy hrest hout ?_ ?_, forall_end x ?_ ?_⟩
  · rintro k failure rfl
    cases hinnerSession
  · rintro rfl
    have hevent := hact rfl
    subst hevent
    simp only [Link.step, Option.ite_none_right_eq_some, Bool.or_eq_true] at hstep
    simp only [Orderly, isOrderly, Bool.or_eq_true, List.isEmpty_iff] at horderlySession
    rcases horderlySession with hdone | hnone
    · exact .inl hdone
    · exact hstep.1.imp_right fun hdone => ⟨hnone, hdone⟩
  · intro hdone
    cases e with
    | writeCall k failure =>
      obtain rfl : failure = none := Option.isNone_iff_eq_none.mp horderlySession
      simp only [SessionState.step, Option.bind_eq_bind, Option.bind_eq_some_iff,
        Option.ite_none_right_eq_some] at hs
      obtain ⟨call, hcall, hphase, -⟩ := hs
      obtain rfl := hshape.call_eq hcall
      cases hphase.symm.trans (h.returned hp hdone call hcall)
    | openChannel | acceptChannel | write | read | close | exit | closeSession => cases hinnerSession
    | _ => rfl
  · rw [hsx]
    refine isDone_eq_of_step hs ?_
    rintro rfl
    cases hinnerSession
  · rw [hsy]

/-- A program creates its channel. -/
theorem Opens.channelCall (hprotocol : c.protocolId = 1) (h : p.Opens) {x : End}
    {s : SessionState c.Encoded}
    (hs : (p.link.sessions x).step c.protocols (c.channelCall x) = some s) :
    Advances x (c.channelCall x) [] (p.link.sessions x) s := by
  have hshape := h.meets.shape x
  cases x with
  | initiator =>
    simp only [Setup.channelCall, SessionState.step] at hs
    split at hs
    · cases hs
    · next hnone =>
      obtain rfl := Option.some.inj hs
      have hid := hshape.fresh rfl hnone
      have hcall : CallShape .initiator
          (.new .opener c.protocolId (p.link.sessions .initiator).nextId : ChannelCall c.Encoded) :=
        ⟨rfl, hprotocol, rfl, rfl, fun _ => hid, fun _ herr => (by cases herr), fun _ => rfl,
          fun _ hother => (by rcases hother with hother | hother <;> cases hother)⟩
      exact hshape.create hnone (by rfl) hcall rfl (by rfl) (by rfl) (by rfl) (by rfl) (by rfl) (by rfl)
  | responder =>
    simp only [Setup.channelCall, SessionState.step] at hs
    split at hs
    · cases hs
    · next hnone =>
      obtain rfl := Option.some.inj hs
      have hcall : CallShape .responder (.new .acceptor c.protocolId 0 : ChannelCall c.Encoded) :=
        ⟨rfl, hprotocol, rfl, rfl, fun hother => (by rcases hother with hother | hother <;> cases hother),
          fun _ herr => (by cases herr), fun _ => rfl, fun hx => (by cases hx)⟩
      exact hshape.create hnone (by rfl) hcall rfl (by rfl) (by rfl) (by rfl) (by rfl) (by rfl) (by rfl)

/-- Every calm step of two programs that speak the protocol with number one keeps what holds. -/
theorem Opens.step (hprotocol : c.protocolId = 1) (h : p.Opens) (hp : p.Prompt)
    {event : StackEvent c} (hcalm : p.Calm event) (hstep : p.step event = some q) : q.Opens := by
  cases event with
  | session event =>
    simp only [Stack.step, Option.ite_none_right_eq_some, Option.map_eq_some_iff] at hstep
    obtain ⟨hinner, link, hlink, rfl⟩ := hstep
    obtain ⟨hmeets, hdone⟩ := h.session hp hinner hcalm.2 hlink
    exact ⟨hmeets, h.keepClosing hdone fun x l hl hphase => ⟨l, hl, hphase⟩⟩
  | call x =>
    obtain ⟨link, hlink, rfl⟩ := Option.map_eq_some_iff.mp hstep
    have hact : p.link.act c.protocols x (c.channelCall x) = some link := by cases x <;> exact hlink
    obtain ⟨hs, hpeer⟩ := act_sessions hact
    have hdone : ∀ y, (link.sessions y).isDone = (p.link.sessions y).isDone :=
      forall_end x (isDone_eq_of_step hs (by cases x <;> simp [Setup.channelCall])) (by rw [hpeer])
    have hsends : (p.link.sessions x).sends c.protocols (c.channelCall x) = [] := by cases x <;> rfl
    refine ⟨h.act hp hact (by cases x <;> rfl) (by cases x <;> simp [Setup.channelCall])
      (by cases x <;> simp [Setup.channelCall]) (fun s hs => ?_) (fun _ => hsends),
      h.keepClosing hdone fun x l hl hphase => ⟨l, hl, hphase⟩⟩
    rw [hsends]
    exact h.channelCall hprotocol hs
  | run x =>
    simp only [Stack.step] at hstep
    split at hstep
    · next call hloop hcall =>
      obtain ⟨-, heq⟩ := Option.ite_none_right_eq_some.mp hstep
      obtain rfl := Option.some.inj heq
      refine ⟨h.meets, fun y hdone => ?_⟩
      obtain ⟨l, hl, hphase⟩ := h.closing y hdone
      by_cases hy : y = x
      · subst hy
        cases hloop.symm.trans hl
      · exact ⟨l, (setLoop_of_ne p _ hy).trans hl, hphase⟩
    · cases hstep
  | iterate x event =>
    simp only [Stack.step, Option.bind_eq_bind, Option.bind_eq_some_iff,
      Option.ite_none_right_eq_some, Option.map_eq_some_iff] at hstep
    obtain ⟨l, hl, -, l', hiterate, rfl⟩ := hstep
    exact ⟨h.meets, h.keepClosing (q := p.setLoop x l') (fun _ => rfl) fun y other hother hphase =>
      loops_setLoop hl (returned_of_step hiterate) y other hother hphase p.link⟩
  | write x failure =>
    obtain rfl : failure = none := hcalm
    simp only [Stack.step, Option.bind_eq_bind, Option.bind_eq_some_iff] at hstep
    obtain ⟨l, hl, call, hcall, hstep⟩ := hstep
    split at hstep
    · next message hphase =>
      split at hstep
      · next hencodable =>
        simp only [Option.bind_eq_some_iff, Option.some.injEq] at hstep
        obtain ⟨link, hlink, l', hsend, rfl⟩ := hstep
        obtain ⟨hs, hpeer⟩ := act_sessions hlink
        have hdone : ∀ y, (link.sessions y).isDone = (p.link.sessions y).isDone :=
          forall_end x (isDone_eq_of_step hs (by simp)) (by rw [hpeer])
        refine ⟨h.act hp hlink rfl (by simp) (by simp) (fun s hs => (h.meets.shape x).write hs) (fun hisDone => ?_),
          h.keepClosing hdone fun y other hother hreturned =>
            loops_setLoop hl (returned_of_step hsend) y other hother hreturned link⟩
        obtain ⟨other, hother, hreturned⟩ := h.closing x hisDone
        obtain rfl := Option.some.inj (hl.symm.trans hother)
        cases hphase.symm.trans hreturned
      · cases hstep
    · cases hstep
  | read x =>
    simp only [Stack.step, Option.bind_eq_bind, Option.bind_eq_some_iff] at hstep
    obtain ⟨l, hl, call, hcall, hstep⟩ := hstep
    split at hstep
    · cases hstep
    · next message rest hqueue =>
      simp only [Option.bind_eq_some_iff, Option.some.injEq] at hstep
      obtain ⟨link, hlink, l', harrive, rfl⟩ := hstep
      obtain ⟨hs, hpeer⟩ := act_sessions hlink
      have hdone : ∀ y, (link.sessions y).isDone = (p.link.sessions y).isDone :=
        forall_end x (isDone_eq_of_step hs (by simp)) (by rw [hpeer])
      exact ⟨h.act hp hlink rfl (by simp) (by simp) (fun s hs => (h.meets.shape x).read hs) (fun _ => rfl),
        h.keepClosing hdone fun y other hother hreturned =>
          loops_setLoop hl (returned_of_step harrive) y other hother hreturned link⟩
  | close x =>
    simp only [Stack.step, Option.bind_eq_bind, Option.bind_eq_some_iff] at hstep
    obtain ⟨l, hl, hstep⟩ := hstep
    split at hstep
    · next hphase =>
      obtain ⟨link, hlink, rfl⟩ := Option.map_eq_some_iff.mp hstep
      obtain ⟨-, hpeer⟩ := act_sessions hlink
      refine ⟨h.act hp hlink rfl (by simp) (by simp) (fun s hs => ?_) (fun _ => rfl), forall_end x ?_ ?_⟩
      · obtain ⟨-, heq⟩ := Option.ite_none_left_eq_some.mp hs
        obtain rfl := Option.some.inj heq
        have hshape := h.meets.shape x
        have hclosed : Shape x { p.link.sessions x with isDone := true } :=
          hshape.ofSame rfl rfl rfl rfl (hshape.broker.congr rfl (fun _ => rfl) id) hshape.reader
        exact hclosed.advances rfl rfl rfl rfl rfl (fun m hm => by cases hm)
      · intro _
        exact ⟨l, hl, hphase⟩
      · intro hdone
        exact h.closing x.peer (hpeer ▸ hdone)
    · cases hstep

end Stack

end ProjektCore.Programs
