import Mathlib.Data.List.Forall2
import ProjektCore.Session.Link
import ProjektCore.Session.Routing

/-!
# Delivery of messages on a channel

The broker drops data for a channel that has not been handed to it. A call tells its peer about the
channel before it hands it to the broker, so the data of the peer may arrive too early. The messages
that one end has written are therefore some that were lost, followed by those that the broker of the
other end has taken, followed by those on their way, in the order of writing. A step loses a message
only if it takes data for a channel that is not registered.

As long as data reaches the broker only after the channel and both ends speak the same protocol,
nothing is lost. What the broker has taken is queued or read, unless the channel or the session has
been closed; what is read is always a prefix of what is written.
-/

namespace ProjektCore.Session

open Foundation

variable {M : Type} {protocols : Protocols M}

/-- The message that an entry of the record has received. -/
def RouteEntry.message : RouteEntry → Option Message
  | .received message => some message
  | _ => none

namespace SessionState

variable {s t : SessionState M}

/-- The record has the messages that a step receives. -/
theorem routes_message (s : SessionState M) (event : SessionEvent M) :
    (s.routes event).filterMap RouteEntry.message = event.receives := by
  cases event with
  | takeMessage =>
    simp only [routes]
    split <;> rfl
  | takeChannel k =>
    simp only [routes]
    split
    · rfl
    · split <;> rfl
  | _ => rfl

/-- Data is taken from the reading goroutine. -/
theorem reader_of_routes {event : SessionEvent M} {data : Data}
    (h : s.routes event = [.took data]) :
    event = .takeMessage ∧ s.reader = .data data := by
  cases event with
  | takeMessage =>
    simp only [routes] at h
    split at h
    · next hreader =>
      simp only [List.cons.injEq, RouteEntry.took.injEq, and_true] at h
      exact ⟨rfl, hreader.trans (congrArg Reader.data h)⟩
    · simp at h
  | takeChannel k =>
    simp only [routes] at h
    split at h
    · simp at h
    · split at h <;> simp at h
  | _ => simp [routes] at h

/-- The broker holds nothing for a channel that is not registered. -/
theorem Registry.holds_unregistered (hs : s.Registry) {i : ℕ} (h : s.handleAt i = none) :
    s.Holds i [] := by
  rw [handleAt, Option.map_eq_none_iff] at h
  have hkept : s.kept i = [] := by rw [kept, h]
  have hdelivering : s.deliveringTo i = [] := by
    unfold deliveringTo
    split
    · rw [ite_eq_right_iff]
      intro hi
      obtain ⟨call, hc, -, -⟩ := hs.registered i _ hi
      simp [logAt, hi, hc] at h
    · rfl
  exact ⟨hkept ▸ List.prefix_rfl, fun _ => by rw [hkept, hdelivering, List.append_nil]⟩

end SessionState

namespace Link

/-- The data for a channel on the way to the broker of a side. -/
def transit (l : Link M) (x : End) (i : ℕ) : List Data :=
  (l.sessions x).heldFor i ++ (l.incoming x).filterMap (dataFor i)

/-- Data reaches a broker only after the channel that it is for, and the channel of the peer has the
same protocol. -/
def InTime (l : Link M) : LinkEvent M → Prop
  | .act x .takeMessage =>
    match (l.sessions x).reader with
    | .data data => ∃ c ∈ (l.sessions x).handleAt data.channelId,
        ∀ c' ∈ (l.sessions x.peer).handleAt data.channelId, c'.protocolId = c.protocolId
    | _ => True
  | _ => True

instance (l : Link M) (event : LinkEvent M) : Decidable (l.InTime event) := by
  unfold InTime
  split
  · split <;> infer_instance
  all_goals infer_instance

/-- The messages of a channel on their way to a side, with the data that carries them. -/
def Carries (protocols : Protocols M) (l : Link M) (x : End) (i : ℕ) (rest : List M)
    (transit : List Data) : Prop :=
  List.Forall₂ (fun m data => ∃ c, (l.sessions x.peer).handleAt i = some c ∧ c.wrapMessage protocols m = .ok data)
    rest transit

/-- Whether both sides speak the same protocol on a channel that data is taken for. -/
def isMatched (l : Link M) : LinkEvent M → Bool
  | .act x .takeMessage =>
    match (l.sessions x).reader with
    | .data data => ((l.sessions x).handleAt data.channelId).all fun c =>
        ((l.sessions x.peer).handleAt data.channelId).all fun c' => c'.protocolId = c.protocolId
    | _ => true
  | _ => true

/-- A step in which the ends of a channel are matched, as a guard on runs. -/
def Matched (l : Link M) (event : LinkEvent M) : Prop := l.isMatched event = true

instance (l : Link M) (event : LinkEvent M) : Decidable (l.Matched event) :=
  inferInstanceAs (Decidable (l.isMatched event = true))

/-- What the guard says about data that the broker takes. -/
theorem Matched.protocolId_eq {l : Link M} {x : End} (h : l.Matched (.act x .takeMessage))
    {data : Data} (hreader : (l.sessions x).reader = .data data) {c c' : ChannelHandle}
    (hc : (l.sessions x).handleAt data.channelId = some c)
    (hc' : (l.sessions x.peer).handleAt data.channelId = some c') :
    c'.protocolId = c.protocolId := by
  simpa [Matched, isMatched, hreader, hc, hc'] using h

/-- The messages that the peer has written to a channel: the first ones have been lost, the next
ones have been taken by the broker, the others are on their way. Nothing is taken for a channel that
is not registered. -/
def Remains (protocols : Protocols M) (l : Link M) (x : End) (i : ℕ) (lost taken rest : List M) :
    Prop :=
  (l.sessions x.peer).written i = lost ++ (taken ++ rest) ∧ (l.sessions x).Holds i taken ∧
    l.Carries protocols x i rest (l.transit x i) ∧ ((l.sessions x).handleAt i = none → taken = [])

/-- A step in which the broker of a side takes data for a channel that it does not know. -/
def Drops (l : Link M) (x : End) (i : ℕ) (event : LinkEvent M) : Prop :=
  event = .act x .takeMessage ∧ (∃ data, (l.sessions x).reader = .data data ∧ data.channelId = i) ∧
    (l.sessions x).handleAt i = none

variable {l l' : Link M} {x : End}

/-- Data that is in time is data for a channel whose ends are matched. -/
theorem InTime.matched {event : LinkEvent M} (h : l.InTime event) : l.Matched event := by
  cases event with
  | deliver => rfl
  | act y e =>
    cases e with
    | takeMessage =>
      cases hreader : (l.sessions y).reader with
      | data data =>
        simp only [InTime, hreader] at h
        obtain ⟨c, hc, hsame⟩ := h
        rw [Option.mem_def] at hc
        simpa [Matched, isMatched, hreader, hc, Option.all_eq_true] using hsame
      | _ => simp [Matched, isMatched, hreader]
    | _ => rfl

/-- Data that is in time is not dropped. -/
theorem InTime.not_drops {event : LinkEvent M} (h : l.InTime event) (i : ℕ) :
    ¬ l.Drops x i event := by
  rintro ⟨rfl, ⟨data, hreader, rfl⟩, hnone⟩
  simp only [InTime, hreader, hnone] at h
  obtain ⟨c, hc, -⟩ := h
  cases hc

/-- Nothing has been written in new sessions. -/
theorem remains_new (x : End) (i : ℕ) : (new : Link M).Remains protocols x i [] [] [] :=
  ⟨rfl, (SessionState.registry_new _).holds_unregistered rfl, .nil, fun _ => rfl⟩

/-- Data that the broker takes is the next message on its way. It is decoded to this message if the
channel is registered. -/
theorem Remains.next {data : Data} {lost taken messages : List M}
    (h : l.Remains protocols x data.channelId lost taken messages) (hx : (l.sessions x).Registry)
    (hpeer : (l.sessions x.peer).Registry) (hreader : (l.sessions x).reader = .data data)
    (hmatched : l.Matched (.act x .takeMessage)) :
    ∃ m rest, messages = m :: rest ∧
      l.Carries protocols x data.channelId rest ((l.incoming x).filterMap (dataFor data.channelId)) ∧
      ∀ c, (l.sessions x).handleAt data.channelId = some c → c.decode protocols data = .ok m := by
  obtain ⟨-, -, hall, -⟩ := h
  rw [transit, SessionState.heldFor_data hreader, Function.update_self,
    List.singleton_append] at hall
  cases hall with
  | @cons m _ rest _ hm hrest =>
    refine ⟨m, rest, rfl, hrest, ?_⟩
    intro c hc
    obtain ⟨c', hc', hwrap⟩ := hm
    have heq : c' = c := hx.handle_eq hpeer hc hc' (hmatched.protocolId_eq hreader hc hc')
    exact ChannelHandle.decode_wrapMessage (heq ▸ hwrap)

/-- The side that makes a step loses a message only if it drops it. -/
theorem remains_mover {e : SessionEvent M} {s : SessionState M} {incoming : List Message} {i : ℕ}
    {lost taken rest : List M} (h : l.Remains protocols x i lost taken rest)
    (hx : (l.sessions x).Registry) (hpeer : (l.sessions x.peer).Registry)
    (hstep : (l.sessions x).step protocols e = some s)
    (hmatched : e = .takeMessage → l.Matched (.act x .takeMessage))
    (hincoming : l.incoming x = e.receives ++ incoming) (hsx : l'.sessions x = s)
    (hsy : l'.sessions x.peer = l.sessions x.peer) (hrest : l'.incoming x = incoming) :
    ∃ more taken rest, l'.Remains protocols x i (lost ++ more) taken rest ∧
      (more = [] ∨ l.Drops x i (.act x e)) := by
  have hreceives := SessionState.routes_message (l.sessions x) e
  have hroute := hx.route hstep
  have hregistry := hx.step (SessionState.step_effect hstep)
  have ⟨hwritten, htaken, hall, hnone⟩ := h
  unfold Remains Carries
  rw [transit, hsx, hsy, hrest]
  generalize hentries : (l.sessions x).routes e = entries at hreceives hroute
  cases hroute with
  | @keep messages hhandle hholds hheld =>
    have hmessages : messages = e.receives := by
      rw [← hreceives, List.filterMap_map]
      exact (List.filterMap_some).symm
    refine ⟨[], taken, rest, ⟨?_, hholds i taken htaken, ?_, fun h => hnone (hhandle ▸ h)⟩, .inl rfl⟩
    · rw [List.append_nil]
      exact hwritten
    · rw [hheld, hmessages, List.append_assoc, ← List.filterMap_append, ← hincoming]
      exact hall
  | @register c hnew hhandle _ hholds hheld =>
    have hnothing : e.receives = [] := hreceives.symm
    refine ⟨[], taken, rest, ⟨?_, hholds i taken htaken, ?_, ?_⟩, .inl rfl⟩
    · rw [List.append_nil]
      exact hwritten
    · rw [hnothing, List.nil_append] at hincoming
      rw [hheld, ← hincoming]
      exact hall
    · intro h
      rw [hhandle, Function.update_apply] at h
      split at h
      · cases h
      · exact hnone h
  | @take data hhandle hholds hheld hheld' =>
    obtain ⟨rfl, hreader⟩ := SessionState.reader_of_routes hentries
    rw [show SessionEvent.receives (.takeMessage : SessionEvent M) = [] from rfl,
      List.nil_append] at hincoming
    rw [hheld', List.nil_append, ← hincoming, hhandle]
    by_cases hi : i = data.channelId
    · subst hi
      obtain ⟨m, coming, rfl, hcoming, hdecode⟩ := h.next hx hpeer hreader (hmatched rfl)
      cases hc : (l.sessions x).handleAt data.channelId with
      | none =>
        obtain rfl := hnone hc
        refine ⟨[m], [], coming, ⟨?_, hregistry.holds_unregistered (by rw [hhandle, hc]), hcoming, fun _ => rfl⟩,
          .inr ⟨rfl, ⟨data, hreader, rfl⟩, hc⟩⟩
        rw [hwritten, List.append_assoc]
        rfl
      | some c =>
        have hpayload : [RouteEntry.took data].filterMap (c.payload protocols) = [m] := by
          simp [ChannelHandle.payload, hx.handleAt_id hc, hdecode c hc, Except.toOption]
        refine ⟨[], taken ++ [m], coming, ⟨?_, hpayload ▸ hholds _ c taken hc htaken, hcoming, by simp⟩, .inl rfl⟩
        rw [hwritten, List.append_assoc taken, List.append_nil]
        rfl
    · have hother : (l.sessions x).heldFor i = [] := by
        rw [SessionState.heldFor_data hreader, Function.update_of_ne hi]
      rw [transit, hother, List.nil_append] at hall
      refine ⟨[], taken, rest, ⟨by rw [List.append_nil, hwritten], ?_, hall, hnone⟩, .inl rfl⟩
      cases hc : (l.sessions x).handleAt i with
      | none =>
        rw [hnone hc]
        exact hregistry.holds_unregistered (by rw [hhandle, hc])
      | some c =>
        have hpayload : [RouteEntry.took data].filterMap (c.payload protocols) = [] := by
          simp [ChannelHandle.payload, hx.handleAt_id hc, Ne.symm hi]
        have hsame := hholds i c taken hc htaken
        rwa [hpayload, List.append_nil] at hsame

/-- What the side that makes a step has written is on its way to the peer. -/
theorem remains_peer {e : SessionEvent M} {s : SessionState M} {sent : List Message}
    (hx : (l.sessions x).Registry) (heffect : Effect protocols (l.sessions x) e sent s)
    (hsx : l'.sessions x = s) (hsy : l'.sessions x.peer = l.sessions x.peer)
    (hout : l'.incoming x.peer = l.incoming x.peer ++ sent) {i : ℕ} {lost taken rest : List M}
    (h : l.Remains protocols x.peer i lost taken rest) :
    ∃ messages, l'.Remains protocols x.peer i lost taken messages := by
  obtain ⟨hwritten, htaken, hall, hnone⟩ := h
  rw [Carries, End.peer_peer] at hall
  rw [End.peer_peer] at hwritten
  unfold Remains Carries
  rw [End.peer_peer, transit, hsx, hsy, hout, List.filterMap_append, ← List.append_assoc]
  rcases (hx.move heffect).sending hx i with ⟨hsame, hhandle, hsent⟩ | ⟨c, m, data, hc, hc', hwrap, happend, hsent⟩
  · refine ⟨rest, hsame.trans hwritten, htaken, ?_, hnone⟩
    rw [hsent, List.append_nil]
    rcases hhandle with hhandle | hunregistered
    · rw [hhandle]
      exact hall
    · have hempty : rest = [] := by
        rw [SessionState.written, hunregistered] at hwritten
        exact (List.append_eq_nil_iff.mp (List.append_eq_nil_iff.mp hwritten.symm).2).2
      subst hempty
      rw [List.forall₂_nil_left_iff] at hall
      rw [← transit, hall]
      exact .nil
  · refine ⟨rest ++ [m], ?_, htaken, ?_, hnone⟩
    · rw [happend, hwritten, List.append_assoc, List.append_assoc]
    · rw [hsent, hc']
      rw [hc] at hall
      exact List.rel_append hall (.cons ⟨c, rfl, hwrap⟩ .nil)

/-- Every step in which the ends of a channel speak the same protocol loses a message only if it
drops it. -/
theorem remains_step (hregistry : ∀ x, (l.sessions x).Registry) {i : ℕ} {lost taken rest : List M}
    (h : l.Remains protocols x i lost taken rest) {event : LinkEvent M} (hmatched : l.Matched event)
    (hstep : l.step protocols event = some l') :
    ∃ more taken rest, l'.Remains protocols x i (lost ++ more) taken rest ∧ (more = [] ∨ l.Drops x i event) := by
  obtain ⟨y, e, s, incoming, hs, hact, hincoming, hsy, hpeer, hrest, hout⟩ := step_eq_some hstep
  by_cases hx : x = y
  · subst hx
    obtain ⟨more, taken, rest, hremains, hmore⟩ := remains_mover h (hregistry x) (hregistry x.peer) hs
      (fun he => by subst he; rw [hact rfl] at hmatched; exact hmatched) hincoming hsy hpeer hrest
    refine ⟨more, taken, rest, hremains, hmore.imp id ?_⟩
    intro hdrops
    have htake : e = .takeMessage := (LinkEvent.act.inj hdrops.1).2
    subst htake
    rwa [hact rfl]
  · obtain rfl := End.eq_peer_of_ne hx
    obtain ⟨messages, hremains⟩ :=
      remains_peer (hregistry y) (SessionState.step_effect hs) hsy hpeer hout h
    exact ⟨[], taken, messages, (List.append_nil lost).symm ▸ hremains, .inl rfl⟩

/-- Every step keeps the tables of channels. -/
theorem registry_step (h : ∀ x, (l.sessions x).Registry) {event : LinkEvent M}
    (hstep : l.step protocols event = some l') (x : End) : (l'.sessions x).Registry := by
  obtain ⟨y, e, s, -, hs, -, -, hsy, hpeer, -, -⟩ := step_eq_some hstep
  by_cases hx : x = y
  · subst hx
    exact hsy ▸ (h x).step (SessionState.step_effect hs)
  · obtain rfl := End.eq_peer_of_ne hx
    exact hpeer ▸ h y.peer

/-- What holds on each side as long as data is in time: nothing is lost. -/
structure Delivers (protocols : Protocols M) (l : Link M) (x : End) : Prop where
  registry : (l.sessions x).Registry
  remains : ∀ i, ∃ taken rest, l.Remains protocols x i [] taken rest

/-- Nothing has been written in new sessions. -/
theorem delivers_new (x : End) : Delivers protocols (.new : Link M) x :=
  ⟨SessionState.registry_new _, fun i => ⟨[], [], remains_new x i⟩⟩

/-- Every step in which data is in time keeps both sides. -/
theorem delivers_step (h : ∀ x, Delivers protocols l x) {event : LinkEvent M}
    (hintime : l.InTime event) (hstep : l.step protocols event = some l') (x : End) :
    Delivers protocols l' x := by
  have hregistry (x : End) : (l.sessions x).Registry := (h x).registry
  refine ⟨registry_step hregistry hstep x, fun i => ?_⟩
  obtain ⟨taken, rest, hremains⟩ := (h x).remains i
  obtain ⟨more, taken, rest, hremains, hmore⟩ := remains_step hregistry hremains hintime.matched hstep
  obtain rfl := hmore.resolve_right (hintime.not_drops i)
  exact ⟨taken, rest, hremains⟩

/-- What is known about the messages of a channel that a call of the peer writes to: they are lost,
taken or on their way. What is read from the channel comes right behind the lost ones and has no
gaps, and what the broker has taken is read, queued or handed over as long as the broker and the
handler run. Nothing is taken or read as long as the channel is not registered. -/
structure Accounts (protocols : Protocols M) (l : Link M) (x : End) (writer : ChannelCall M)
    (lost taken rest : List M) : Prop where
  written : writer.written = lost ++ (taken ++ rest)
  coming : List.Forall₂ (fun m data => writer.handle.wrapMessage protocols m = .ok data) rest
    (l.transit x writer.handle.id)
  unregistered : (l.sessions x).channels writer.handle.id = none → taken = []
  read : ∀ k reader, (l.sessions x).calls k = some reader → reader.phase = .returned →
    reader.handle.id = writer.handle.id → lost ++ reader.read <+: writer.written ∧
      ((l.sessions x).broker ≠ .stopped → reader.hasExited = false →
        taken = reader.read ++ reader.queue ++ (l.sessions x).deliveringTo writer.handle.id)
  fresh : ∀ k reader, (l.sessions x).calls k = some reader → reader.phase ≠ .returned → reader.read = []

/-- The messages of a channel that a call has created are accounted for. -/
theorem Remains.accounts {lost taken rest : List M} {j : ℕ} {writer : ChannelCall M}
    (h : l.Remains protocols x writer.handle.id lost taken rest)
    (hregistry : ∀ x, (l.sessions x).Registry) (hj : (l.sessions x.peer).calls j = some writer)
    (hwriter : writer.phase = .returned) :
    l.Accounts protocols x writer lost taken rest := by
  obtain ⟨hwritten, htaken, hall, hnone⟩ := h
  have hlog := (hregistry x.peer).logAt_eq hj hwriter
  have hwritten' : writer.written = lost ++ (taken ++ rest) := by
    rw [← hwritten, SessionState.written, hlog]
    rfl
  refine ⟨hwritten', ?_, ?_, ?_, fun k reader hk hreader => ((hregistry x).fresh k reader hk hreader).1⟩
  · apply hall.imp
    rintro m data ⟨c, hc, hwrap⟩
    rw [SessionState.handleAt, hlog, Option.map_some, Option.some.injEq] at hc
    subst hc
    exact hwrap
  · intro hchannel
    exact hnone (by simp [SessionState.handleAt, SessionState.logAt, hchannel])
  · intro k reader hk hreader hid
    have hlog' := (hregistry x).logAt_eq hk hreader
    rw [hid] at hlog'
    have hkept : (l.sessions x).kept writer.handle.id = reader.read ++ reader.queue := by
      rw [SessionState.kept, hlog']
      rfl
    refine ⟨?_, ?_⟩
    · have hread : reader.read <+: taken := (hkept ▸ List.prefix_append ..).trans htaken.kept
      rw [hwritten', List.prefix_append_right_inj]
      exact hread.trans (List.prefix_append ..)
    · intro hrunning hexited
      rw [← hkept]
      refine (htaken.live ⟨hrunning, ?_⟩).symm
      intro log hother
      obtain rfl := Option.some.inj (hlog'.symm.trans hother)
      exact hexited

end Link

/-- In every run in which data is in time: the messages written to a channel are those that the
broker of the other side has taken, followed by those whose data is on the way. What has been read
from a channel is a prefix of what has been written to it, and what the broker has taken has been
read, is queued or is handed over, as long as the broker and the handler of the channel run. Nothing
is taken or read as long as the channel of the other side is not registered. -/
theorem channel_delivers {l : Link M} (h : Reached (Link.step protocols) Link.InTime .new l)
    (x : End) {j : ℕ} {writer : ChannelCall M} (hj : (l.sessions x.peer).calls j = some writer)
    (hwriter : writer.phase = .returned) :
    ∃ taken rest, writer.written = taken ++ rest ∧
      List.Forall₂ (fun m data => writer.handle.wrapMessage protocols m = .ok data) rest
        (l.transit x writer.handle.id) ∧
      ((l.sessions x).channels writer.handle.id = none → taken = []) ∧
      (∀ k reader, (l.sessions x).calls k = some reader → reader.phase ≠ .returned → reader.read = []) ∧
      ∀ k reader, (l.sessions x).calls k = some reader → reader.phase = .returned →
        reader.handle.id = writer.handle.id → reader.read <+: writer.written ∧
          ((l.sessions x).broker ≠ .stopped → reader.hasExited = false →
            taken = reader.read ++ reader.queue ++ (l.sessions x).deliveringTo writer.handle.id) := by
  have hdelivers : ∀ x, Link.Delivers protocols l x :=
    h.invariant (fun l => ∀ x, Link.Delivers protocols l x) Link.delivers_new
      fun _ _ _ h hintime hstep => Link.delivers_step h hintime hstep
  obtain ⟨taken, rest, hremains⟩ := (hdelivers x).remains writer.handle.id
  have haccounts := hremains.accounts (fun x => (hdelivers x).registry) hj hwriter
  exact ⟨taken, rest, haccounts.written, haccounts.coming, haccounts.unregistered, haccounts.fresh, haccounts.read⟩

/-- The initiator opens a channel and the responder accepts it; the responder has not handed its
channel to the broker. -/
def openedChannel : List (LinkEvent Bytes) :=
  [.act .responder (.acceptChannel 0 1), .act .responder (.takeWait 0), .act .initiator (.openChannel 0 1),
    .act .initiator (.takeWait 0), .act .initiator (.writeCall 0 none), .deliver .responder,
    .act .responder .takeMessage, .act .responder .pass, .act .responder (.writeCall 0 none), .deliver .initiator,
    .act .initiator .takeMessage, .act .initiator (.proceed 0), .act .initiator (.takeChannel 0)]

/-- The initiator writes a message, which the broker of the responder takes. -/
def takenMessage (message : Bytes) : List (LinkEvent Bytes) :=
  [.act .initiator (.write 0 message none), .deliver .responder, .act .responder .takeMessage]

/-- The initiator writes two messages once the responder has handed its channel to the broker, and
the responder reads the first one. -/
def deliveredMessages : List (LinkEvent Bytes) :=
  openedChannel ++ [.act .responder (.takeChannel 0)] ++ takenMessage [7] ++ [.act .responder .pass] ++
    takenMessage [8] ++ [.act .responder .pass, .act .responder (.read 0)]

/-- The message that is read is the first one of the two that were written. -/
theorem channel_delivers_two :
    ∃ l writer reader, execute (Link.step ⟨fun _ => plainCodec, 100⟩) Link.InTime deliveredMessages .new = some l ∧
      (l.sessions .initiator).calls 0 = some writer ∧ (l.sessions .responder).calls 0 = some reader ∧
      writer.written = [[7], [8]] ∧ reader.read = [[7]] ∧ reader.queue = [[8]] ∧ reader.read <+: writer.written := by
  obtain ⟨l, hrun⟩ :
      ∃ l, execute (Link.step ⟨fun _ => plainCodec, 100⟩) Link.InTime deliveredMessages .new = some l := ⟨_, rfl⟩
  have hcalls :
      (execute (Link.step ⟨fun _ => plainCodec, 100⟩) Link.InTime deliveredMessages .new).map (fun l =>
        ((l.sessions .initiator).calls 0, (l.sessions .responder).calls 0)) =
      some (some ⟨.opener, ⟨1, 1⟩, .returned, true, [], false, false, [[7], [8]], []⟩,
        some ⟨.acceptor, ⟨1, 1⟩, .returned, false, [[8]], false, false, [], [[7]]⟩) := rfl
  rw [hrun, Option.map_some, Option.some.injEq, Prod.mk.injEq] at hcalls
  obtain ⟨hwriter, hreader⟩ := hcalls
  obtain ⟨taken, rest, -, -, -, -, hread⟩ :=
    channel_delivers (reached_of_execute deliveredMessages hrun) .responder hwriter rfl
  exact ⟨l, _, _, hrun, hwriter, hreader, rfl, rfl, rfl, (hread 0 _ hreader rfl rfl).1⟩

/-- A message that reaches the broker of the responder before its channel is lost, so that the
responder reads the next one first. -/
theorem early_data_dropped :
    ∃ l writer reader, Reached (Link.step ⟨fun _ => plainCodec, 100⟩) anyStep .new l ∧
      (l.sessions .initiator).calls 0 = some writer ∧ (l.sessions .responder).calls 0 = some reader ∧
      writer.phase = .returned ∧ reader.phase = .returned ∧ reader.handle = writer.handle ∧
      writer.written = [[7], [8]] ∧ reader.read = [[8]] ∧ reader.queue = [] ∧
      l.transit .responder writer.handle.id = [] := by
  refine ⟨_, _, _, reached_of_execute (openedChannel ++ takenMessage [7] ++ [.act .responder (.takeChannel 0)] ++
    takenMessage [8] ++ [.act .responder .pass, .act .responder (.read 0)]) rfl, rfl, rfl, rfl, rfl, ?_, ?_, ?_, ?_, ?_⟩
  · decide
  · decide
  · decide
  · decide
  · rfl

end ProjektCore.Session
