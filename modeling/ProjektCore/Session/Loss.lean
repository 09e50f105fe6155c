import ProjektCore.Session.Delivery

/-!
# What a channel may lose

Data that reaches the broker before the channel it is for is dropped. Nothing else is lost: once a
channel is registered, the broker takes all data for it in the order of writing, so that the lost
part of what the peer has written stays the same from then on. This needs no assumption about the
order of the two registrations, only that both ends speak the same protocol.
-/

namespace ProjektCore.Session

open Foundation

variable {M : Type} {protocols : Protocols M}

/-- A channel stays registered. -/
theorem SessionState.Registry.handleAt_ne_none {s t : SessionState M} (hs : s.Registry)
    {event : SessionEvent M} (hstep : s.step protocols event = some t) {i : ℕ}
    (h : s.handleAt i ≠ none) : t.handleAt i ≠ none := by
  have hroute := hs.route hstep
  generalize s.routes event = entries at hroute
  cases hroute with
  | keep hhandle => rwa [hhandle]
  | register _ hhandle =>
    rw [hhandle, Function.update_apply]
    split
    · exact Option.some_ne_none _
    · exact h
  | take hhandle => rwa [hhandle]

namespace Link

variable {l l' : Link M} {x : End}

/-- In every run the tables of channels are kept, and the messages of a channel are lost, taken or
on their way. -/
theorem remains_of_reached (h : Reached (Link.step protocols) Link.Matched .new l) :
    (∀ x, (l.sessions x).Registry) ∧ ∀ x i, ∃ lost taken rest, l.Remains protocols x i lost taken rest := by
  refine h.invariant (fun l => (∀ x, (l.sessions x).Registry) ∧
    ∀ x i, ∃ lost taken rest, l.Remains protocols x i lost taken rest)
    ⟨fun x => SessionState.registry_new _, fun x i => ⟨[], [], [], remains_new x i⟩⟩ ?_
  rintro l event l' ⟨hregistry, hremains⟩ hmatched hstep
  refine ⟨registry_step hregistry hstep, fun x i => ?_⟩
  obtain ⟨lost, taken, rest, hi⟩ := hremains x i
  obtain ⟨more, taken, rest, hi', -⟩ := remains_step hregistry hi hmatched hstep
  exact ⟨_, taken, rest, hi'⟩

/-- A side has a channel, and has lost given messages of it. -/
structure Settled (protocols : Protocols M) (l : Link M) (x : End) (i : ℕ) (lost : List M) :
    Prop where
  registry : ∀ x, (l.sessions x).Registry
  registered : (l.sessions x).handleAt i ≠ none
  remains : ∃ taken rest, l.Remains protocols x i lost taken rest

/-- No step loses messages of a channel that is registered. -/
theorem Settled.step {i : ℕ} {lost : List M} (h : l.Settled protocols x i lost)
    {event : LinkEvent M} (hmatched : l.Matched event) (hstep : l.step protocols event = some l') :
    l'.Settled protocols x i lost := by
  obtain ⟨taken, rest, hremains⟩ := h.remains
  obtain ⟨more, taken, rest, hremains, hmore⟩ := remains_step h.registry hremains hmatched hstep
  have hkept : more = [] := hmore.resolve_right fun hdrops => h.registered hdrops.2.2
  subst hkept
  rw [List.append_nil] at hremains
  refine ⟨registry_step h.registry hstep, ?_, taken, rest, hremains⟩
  obtain ⟨y, e, s, -, hs, -, -, hsy, hpeer, -, -⟩ := step_eq_some hstep
  by_cases hx : x = y
  · subst hx
    rw [hsy]
    exact (h.registry x).handleAt_ne_none hs h.registered
  · obtain rfl := End.eq_peer_of_ne hx
    rw [hpeer]
    exact h.registered

end Link

/-- In every run of two sessions: the messages written to a channel are some that are lost, followed
by those that the broker of the other side has taken, followed by those whose data is on the way.
What is read from the channel comes right behind the lost messages and has no gaps, and what the
broker has taken is read, queued or handed over as long as the broker and the handler run. Once the
channel is registered at the other side, the same messages are the lost ones in every state of every
continuation of the run. -/
theorem channel_loses_only_early {l : Link M}
    (h : Reached (Link.step protocols) Link.Matched .new l) (x : End) {j : ℕ}
    {writer : ChannelCall M} (hj : (l.sessions x.peer).calls j = some writer)
    (hwriter : writer.phase = .returned) :
    ∃ lost, (∃ taken rest, l.Accounts protocols x writer lost taken rest) ∧
      ((l.sessions x).channels writer.handle.id ≠ none →
        ∀ l', Reached (Link.step protocols) Link.Matched l l' →
          ∀ j' writer', (l'.sessions x.peer).calls j' = some writer' → writer'.phase = .returned →
            writer'.handle.id = writer.handle.id → ∃ taken rest, l'.Accounts protocols x writer' lost taken rest) := by
  obtain ⟨hregistry, hall⟩ := Link.remains_of_reached h
  obtain ⟨lost, taken, rest, hremains⟩ := hall x writer.handle.id
  refine ⟨lost, ⟨taken, rest, hremains.accounts hregistry hj hwriter⟩, ?_⟩
  intro hchannel l' hl' j' writer' hj' hwriter' hid
  have hregistered : (l.sessions x).handleAt writer.handle.id ≠ none := by
    obtain ⟨k, hk⟩ := Option.ne_none_iff_exists'.mp hchannel
    obtain ⟨call, hcall, -, -⟩ := (hregistry x).registered _ k hk
    simp [SessionState.handleAt, SessionState.logAt, hk, hcall]
  have hsettled : l'.Settled protocols x writer.handle.id lost :=
    hl'.invariant (fun l => l.Settled protocols x writer.handle.id lost) ⟨hregistry, hregistered, taken, rest, hremains⟩
      fun _ _ _ h hmatched hstep => h.step hmatched hstep
  obtain ⟨taken', rest', hremains'⟩ := hsettled.remains
  rw [← hid] at hremains'
  exact ⟨taken', rest', hremains'.accounts hsettled.registry hj' hwriter'⟩

/-- The initiator writes a message, and the responder registers its channel. -/
def earlyMessage : List (LinkEvent Bytes) :=
  openedChannel ++ takenMessage [7] ++ [.act .responder (.takeChannel 0)]

/-- Then the initiator writes another message, which the responder reads. -/
def lateMessage : List (LinkEvent Bytes) :=
  takenMessage [8] ++ [.act .responder .pass, .act .responder (.read 0)]

/-- The first message is lost before the channel is registered, and the second one is read. -/
theorem channel_loses_only_early_one :
    ∃ l l' writer reader, execute (Link.step ⟨fun _ => plainCodec, 100⟩) Link.Matched earlyMessage .new = some l ∧
      execute (Link.step ⟨fun _ => plainCodec, 100⟩) Link.Matched lateMessage l = some l' ∧
      (l'.sessions .initiator).calls 0 = some writer ∧ (l'.sessions .responder).calls 0 = some reader ∧
      writer.written = [[7], [8]] ∧ reader.read = [[8]] ∧ [[7]] ++ reader.read <+: writer.written := by
  have hrun :
      (execute (Link.step ⟨fun _ => plainCodec, 100⟩) Link.Matched earlyMessage .new).map (fun l =>
        ((l.sessions .initiator).calls 0, (l.sessions .responder).calls 0, (l.sessions .responder).channels 1,
          (l.sessions .responder).broker, l.transit .responder 1)) =
      some (some ⟨.opener, ⟨1, 1⟩, .returned, true, [], false, false, [[7]], []⟩,
        some ⟨.acceptor, ⟨1, 1⟩, .returned, false, [], false, false, [], []⟩, some 0, .ready, []) := rfl
  have hmore :
      ((execute (Link.step ⟨fun _ => plainCodec, 100⟩) Link.Matched earlyMessage .new).bind
        (execute (Link.step ⟨fun _ => plainCodec, 100⟩) Link.Matched lateMessage)).map (fun l =>
        ((l.sessions .initiator).calls 0, (l.sessions .responder).calls 0)) =
      some (some ⟨.opener, ⟨1, 1⟩, .returned, true, [], false, false, [[7], [8]], []⟩,
        some ⟨.acceptor, ⟨1, 1⟩, .returned, false, [], false, false, [], [[8]]⟩) := rfl
  simp only [Option.map_eq_some_iff, Option.bind_eq_some_iff, Prod.mk.injEq] at hrun hmore
  obtain ⟨l, hl, hwriter, hreader, hchannel, hready, htransit⟩ := hrun
  obtain ⟨l', ⟨m, hm, hl'⟩, hwriter', hreader'⟩ := hmore
  obtain rfl := Option.some.inj (hl.symm.trans hm)
  obtain ⟨lost, ⟨taken, rest, haccounts⟩, hlater⟩ :=
    channel_loses_only_early (reached_of_execute earlyMessage hl) .responder hwriter rfl
  -- nothing is taken or on its way, so the message is lost
  have hrest : rest = [] := List.forall₂_nil_right_iff.mp (htransit ▸ haccounts.coming)
  have htaken : taken = [] := by
    refine ((haccounts.read 0 _ hreader rfl rfl).2 (by simp [hready]) rfl).trans ?_
    simp [SessionState.deliveringTo, hready]
  have hlost : lost = [[7]] := by
    have hwritten : [[7]] = lost ++ (taken ++ rest) := haccounts.written
    rw [htaken, hrest, List.append_nil, List.append_nil] at hwritten
    exact hwritten.symm
  obtain ⟨taken', rest', haccounts'⟩ := hlater (by rw [hchannel]; exact Option.some_ne_none 0) l'
    (reached_of_execute lateMessage hl') 0 _ hwriter' rfl rfl
  exact ⟨l, l', _, _, hl, hl', hwriter', hreader', rfl, rfl, hlost ▸ (haccounts'.read 0 _ hreader' rfl rfl).1⟩

end ProjektCore.Session
