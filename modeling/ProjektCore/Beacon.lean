import Mathlib.Data.List.Nodup
import Mathlib.Logic.Function.Basic
import ProjektCore.Errors
import ProjektCore.Foundation.Bytes
import ProjektCore.Foundation.Runs

/-!
# The broadcast beacon

A goroutine receives packets from the socket and offers them one after the other; when the socket
fails it closes its channel. The dispatch loop `handleReads` keeps a list of the calls of `Read`
that have registered. It hands each packet to all of them and starts over with an empty list. The
calls are numbered in the order in which they are made.

Receiving from the closed channel succeeds at once with a packet without data and address. The
dispatch loop hands this packet on as it does with every other one.
-/

namespace ProjektCore.Beacon

open Foundation

/-- A packet with the address of its sender; the zero value has no address. -/
structure InPacket (A : Type) where
  data : Bytes
  addr : Option A
deriving Repr, DecidableEq

/-- The zero value of a packet. -/
def InPacket.zero {A : Type} : InPacket A := ⟨[], none⟩

/-- How far the goroutine that receives is. -/
inductive Receiver (A : Type) where
  | reading
  /-- It offers a packet to the dispatch loop. -/
  | offering (packet : InPacket A)
  /-- It has closed its channel. -/
  | stopped
deriving Repr, DecidableEq

/-- How far the dispatch loop is. -/
inductive Dispatcher (A : Type) where
  | selecting
  /-- It hands a packet to the rest of the calls. -/
  | handing (packet : InPacket A) (rest : List ℕ)
  /-- It has returned, without serving some calls. -/
  | returned (unserved : List (ℕ × InPacket A))
deriving Repr, DecidableEq

/-- How far a call of `Read` is. -/
inductive ReadCall (A : Type) where
  | registering
  | waiting
  | returned (result : Except Err (InPacket A))
deriving DecidableEq

/-- A packet that the dispatch loop took, whether it comes from the socket, and the calls that were
registered at this moment. -/
structure Dispatch (A : Type) where
  packet : InPacket A
  isReceived : Bool
  registered : List ℕ
deriving Repr, DecidableEq

/-- The calls to which a packet is to be handed, with the packet. -/
def Dispatch.handOvers {A : Type} (d : Dispatch A) :
    List (ℕ × InPacket A) := d.registered.map (·, d.packet)

/-- A beacon with its goroutines and calls. -/
structure Broadcast (A : Type) where
  receiver : Receiver A
  dispatcher : Dispatcher A
  ins : List ℕ
  isCancelled : Bool
  reads : ℕ → Option (ReadCall A)
  nextRead : ℕ
  /-- The packets that were received on the socket. -/
  arrived : List (InPacket A)
  /-- The packets that the dispatch loop took. -/
  taken : List (Dispatch A)
  /-- The calls to which a packet was handed, with the packet. -/
  handed : List (ℕ × InPacket A)

/-- What happens to a beacon. -/
inductive BeaconEvent (A : Type) where
  /-- A packet is received on the socket. -/
  | arrive (data : Bytes) (addr : A)
  /-- Reading from the socket fails. -/
  | fail
  /-- The dispatch loop takes a packet. -/
  | take
  /-- It hands the packet to the next call. -/
  | hand
  /-- It has handed the packet to all calls. -/
  | finish
  /-- It finds the beacon to be closed. -/
  | stop
  /-- `Read` is called. -/
  | call
  | register (k : ℕ)
  /-- A call finds the beacon to be closed. -/
  | giveUp (k : ℕ)
  | close
deriving Repr, DecidableEq

variable {A : Type}

namespace Broadcast

/-- A beacon that listens. -/
def new : Broadcast A := ⟨.reading, .selecting, [], false, fun _ => none, 0, [], [], []⟩

/-- A call goes on. -/
def setRead (s : Broadcast A) (k : ℕ) (call : ReadCall A) : Broadcast A :=
  { s with reads := Function.update s.reads k (some call) }

/-- The dispatch loop takes a packet. -/
def dispatch (s : Broadcast A) (packet : InPacket A) (isReceived : Bool) : Broadcast A :=
  { s with dispatcher := .handing packet s.ins, taken := s.taken ++ [⟨packet, isReceived, s.ins⟩] }

/-- One step of a goroutine or of a call. -/
def step (s : Broadcast A) : BeaconEvent A → Option (Broadcast A)
  | .arrive data addr =>
    match s.receiver with
    | .reading =>
      if data.length ≤ 2 ^ 16 then
        some { s with receiver := .offering ⟨data, some addr⟩, arrived := s.arrived ++ [⟨data, some addr⟩] }
      else none
    | _ => none
  | .fail =>
    match s.receiver with
    | .reading => some { s with receiver := .stopped }
    | _ => none
  | .take =>
    match s.dispatcher, s.receiver with
    | .selecting, .offering packet => some { s.dispatch packet true with receiver := .reading }
    | .selecting, .stopped => some (s.dispatch .zero false)
    | _, _ => none
  | .hand =>
    match s.dispatcher with
    | .handing packet (k :: rest) =>
      match s.reads k with
      | some .waiting =>
        some { s.setRead k (.returned (.ok packet)) with
          dispatcher := .handing packet rest, handed := s.handed ++ [(k, packet)] }
      | _ => none
    | _ => none
  | .finish =>
    match s.dispatcher with
    | .handing _ [] => some { s with dispatcher := .selecting, ins := [] }
    | _ => none
  | .stop =>
    if s.isCancelled then
      match s.dispatcher with
      | .selecting => some { s with dispatcher := .returned [] }
      | .handing packet (k :: rest) => some { s with dispatcher := .returned ((k :: rest).map (·, packet)) }
      | _ => none
    else none
  | .call => some { s.setRead s.nextRead .registering with nextRead := s.nextRead + 1 }
  | .register k =>
    match s.dispatcher, s.reads k with
    | .selecting, some .registering => some { s.setRead k .waiting with ins := s.ins ++ [k] }
    | _, _ => none
  | .giveUp k =>
    match s.reads k with
    | some .waiting => if s.isCancelled then some (s.setRead k (.returned (.error .closed))) else none
    | _ => none
  | .close => some { s with isCancelled := true }

/-- The outcomes of the steps, each with what it needs. -/
inductive Effect (s : Broadcast A) : BeaconEvent A → Broadcast A → Prop
  | arrive {data : Bytes} {addr : A} : s.receiver = .reading → Effect s (.arrive data addr)
      { s with receiver := .offering ⟨data, some addr⟩, arrived := s.arrived ++ [⟨data, some addr⟩] }
  | fail : s.receiver = .reading → Effect s .fail { s with receiver := .stopped }
  | take {packet : InPacket A} : s.dispatcher = .selecting → s.receiver = .offering packet →
      Effect s .take { s.dispatch packet true with receiver := .reading }
  | takeZero : s.dispatcher = .selecting → s.receiver = .stopped → Effect s .take (s.dispatch .zero false)
  | hand {packet : InPacket A} {k : ℕ} {rest : List ℕ} :
      s.dispatcher = .handing packet (k :: rest) →
      s.reads k = some .waiting →
      Effect s .hand { s.setRead k (.returned (.ok packet)) with
        dispatcher := .handing packet rest, handed := s.handed ++ [(k, packet)] }
  | finish {packet : InPacket A} : s.dispatcher = .handing packet [] →
      Effect s .finish { s with dispatcher := .selecting, ins := [] }
  | stop : s.isCancelled = true → s.dispatcher = .selecting → Effect s .stop { s with dispatcher := .returned [] }
  | abandon {packet : InPacket A} {rest : List ℕ} :
      s.isCancelled = true → s.dispatcher = .handing packet rest →
      Effect s .stop { s with dispatcher := .returned (rest.map (·, packet)) }
  | call : Effect s .call { s.setRead s.nextRead .registering with nextRead := s.nextRead + 1 }
  | register {k : ℕ} : s.dispatcher = .selecting → s.reads k = some .registering →
      Effect s (.register k) { s.setRead k .waiting with ins := s.ins ++ [k] }
  | giveUp {k : ℕ} : s.reads k = some .waiting → s.isCancelled = true →
      Effect s (.giveUp k) (s.setRead k (.returned (.error .closed)))
  | close : Effect s .close { s with isCancelled := true }

variable {s t : Broadcast A}

/-- Every step has one of these outcomes. -/
theorem step_effect {event : BeaconEvent A} (h : s.step event = some t) : Effect s event t := by
  cases event with
  | arrive data addr =>
    simp only [step] at h
    split at h
    · next hreceiver =>
      obtain ⟨-, heq⟩ := Option.ite_none_right_eq_some.mp h
      obtain rfl := Option.some.inj heq
      exact .arrive hreceiver
    · cases h
  | fail =>
    simp only [step] at h
    split at h
    · next hreceiver =>
      obtain rfl := Option.some.inj h
      exact .fail hreceiver
    · cases h
  | take =>
    simp only [step] at h
    split at h
    · next packet hdispatcher hreceiver =>
      obtain rfl := Option.some.inj h
      exact .take hdispatcher hreceiver
    · next hdispatcher hreceiver =>
      obtain rfl := Option.some.inj h
      exact .takeZero hdispatcher hreceiver
    · cases h
  | hand =>
    simp only [step] at h
    split at h
    · next packet k rest hdispatcher =>
      split at h
      · next hread =>
        obtain rfl := Option.some.inj h
        exact .hand hdispatcher hread
      · cases h
    · cases h
  | finish =>
    simp only [step] at h
    split at h
    · next packet hdispatcher =>
      obtain rfl := Option.some.inj h
      exact .finish hdispatcher
    · cases h
  | stop =>
    simp only [step] at h
    obtain ⟨hcancelled, h⟩ := Option.ite_none_right_eq_some.mp h
    split at h
    · next hdispatcher =>
      obtain rfl := Option.some.inj h
      exact .stop hcancelled hdispatcher
    · next packet k rest hdispatcher =>
      obtain rfl := Option.some.inj h
      exact .abandon hcancelled hdispatcher
    · cases h
  | call =>
    obtain rfl := Option.some.inj h
    exact .call
  | register k =>
    simp only [step] at h
    split at h
    · next hdispatcher hread =>
      obtain rfl := Option.some.inj h
      exact .register hdispatcher hread
    · cases h
  | giveUp k =>
    simp only [step] at h
    split at h
    · next hread =>
      obtain ⟨hcancelled, heq⟩ := Option.ite_none_right_eq_some.mp h
      obtain rfl := Option.some.inj heq
      exact .giveUp hread hcancelled
    · cases h
  | close =>
    obtain rfl := Option.some.inj h
    exact .close

/-- The packet that is received and not yet taken. -/
def untaken (s : Broadcast A) : List (InPacket A) :=
  match s.receiver with
  | .offering packet => [packet]
  | _ => []

/-- The calls to which the packet that was taken last is still to be handed. -/
def toHand (s : Broadcast A) : List (ℕ × InPacket A) :=
  match s.dispatcher with
  | .selecting => []
  | .handing packet rest => rest.map (·, packet)
  | .returned unserved => unserved

/-- The calls that have registered since a packet was taken. -/
def newcomers (s : Broadcast A) : List ℕ :=
  match s.dispatcher with
  | .selecting => s.ins
  | _ => []

/-- All calls that have registered. -/
def registered (s : Broadcast A) : List ℕ := s.taken.flatMap Dispatch.registered ++ s.newcomers

/-- What is recorded of the packets. -/
structure Packets (s : Broadcast A) : Prop where
  /-- Each received packet is taken once and in order, up to the one that is offered. -/
  arrived : s.arrived = (s.taken.filter Dispatch.isReceived).map Dispatch.packet ++ s.untaken
  addressed : ∀ packet ∈ s.arrived, packet.addr ≠ none
  /-- A packet that was not received is the zero value, taken once the channel was closed. -/
  zero : ∀ d ∈ s.taken, d.isReceived = false → d.packet = .zero ∧ s.receiver = .stopped
  /-- Each packet that was taken is handed to the calls that were registered. -/
  handed : s.handed ++ s.toHand = s.taken.flatMap Dispatch.handOvers

/-- What is recorded of the calls. -/
structure Calls (s : Broadcast A) : Prop where
  unused : ∀ k, s.nextRead ≤ k → s.reads k = none
  known : ∀ k ∈ s.registered, ∃ call, s.reads k = some call ∧ call ≠ .registering
  nodup : s.registered.Nodup
  results : ∀ k packet, s.reads k = some (.returned (.ok packet)) ↔ (k, packet) ∈ s.handed
  /-- The calls that are to be served wait, unless the beacon is closed. -/
  waiting : ∀ k, k ∈ s.toHand.map Prod.fst ∨ k ∈ s.newcomers → s.reads k = some .waiting ∨ s.isCancelled = true

/-- A beacon that listens has no packets. -/
theorem packets_new : Packets (new : Broadcast A) := ⟨rfl, nofun, nofun, rfl⟩

/-- A beacon that listens has no calls. -/
theorem calls_new : Calls (new : Broadcast A) where
  unused _ _ := rfl
  known := nofun
  nodup := List.nodup_nil
  results _ _ := ⟨nofun, nofun⟩
  waiting k h := by rcases h with h | h <;> cases h

/-- A step that changes neither the packets nor what is to be handed over. -/
theorem Packets.keep (h : s.Packets) (harrived : t.arrived = s.arrived) (htaken : t.taken = s.taken)
    (hreceiver : t.receiver = s.receiver) (hhanded : t.handed ++ t.toHand = s.handed ++ s.toHand) :
    t.Packets where
  arrived := by
    rw [harrived, htaken, h.arrived, untaken, untaken, hreceiver]
  addressed := harrived ▸ h.addressed
  zero := by
    rw [htaken, hreceiver]
    exact h.zero
  handed := by
    rw [hhanded, htaken]
    exact h.handed

/-- As long as the channel is not closed all packets that were taken are from the socket. -/
theorem Packets.received (h : s.Packets) (hreceiver : s.receiver ≠ .stopped) {d : Dispatch A}
    (hd : d ∈ s.taken) :
    d.isReceived = true := by
  by_contra hzero
  exact hreceiver (h.zero d hd (Bool.eq_false_of_not_eq_true hzero)).2

/-- While the dispatch loop selects, nothing is to be handed over. -/
theorem Packets.handed_selecting (h : s.Packets) (hdispatcher : s.dispatcher = .selecting) :
    s.handed = s.taken.flatMap Dispatch.handOvers := by
  have hhanded := h.handed
  rw [toHand, hdispatcher, List.append_nil] at hhanded
  exact hhanded

/-- A packet that is taken is to be handed to the calls that are registered. -/
theorem Packets.handed_dispatch (h : s.Packets) (hdispatcher : s.dispatcher = .selecting)
    (packet : InPacket A) (isReceived : Bool) :
    (s.dispatch packet isReceived).handed ++ (s.dispatch packet isReceived).toHand =
      (s.dispatch packet isReceived).taken.flatMap Dispatch.handOvers := by
  simp only [dispatch, toHand, List.flatMap_append, List.flatMap_cons, List.flatMap_nil,
    List.append_nil, h.handed_selecting hdispatcher]
  rfl

/-- Every step keeps the record of the packets. -/
theorem Packets.step (h : s.Packets) {event : BeaconEvent A} (heffect : Effect s event t) :
    t.Packets := by
  cases heffect with
  | @arrive data addr hreceiver =>
    have hbefore := h.arrived
    rw [untaken, hreceiver, List.append_nil] at hbefore
    refine ⟨congrArg (· ++ [⟨data, some addr⟩]) hbefore, ?_, ?_, h.handed⟩
    · intro packet hpacket
      rcases List.mem_append.mp hpacket with hold | hnew
      · exact h.addressed packet hold
      · obtain rfl := List.mem_singleton.mp hnew
        exact Option.some_ne_none addr
    · intro d hd hzero
      cases (h.received (by rw [hreceiver]; nofun) hd).symm.trans hzero
  | fail hreceiver =>
    have hbefore := h.arrived
    rw [untaken, hreceiver] at hbefore
    exact ⟨hbefore, h.addressed, fun d hd hzero => ⟨(h.zero d hd hzero).1, rfl⟩, h.handed⟩
  | @take packet hdispatcher hreceiver =>
    have hbefore := h.arrived
    rw [untaken, hreceiver] at hbefore
    refine ⟨?_, h.addressed, ?_, h.handed_dispatch hdispatcher _ _⟩
    · simp only [dispatch, untaken, List.filter_append, List.map_append, List.append_nil]
      exact hbefore
    · intro d hd hzero
      rcases List.mem_append.mp hd with hold | hnew
      · cases (h.received (by rw [hreceiver]; nofun) hold).symm.trans hzero
      · obtain rfl := List.mem_singleton.mp hnew
        cases hzero
  | takeZero hdispatcher hreceiver =>
    have hbefore := h.arrived
    rw [untaken, hreceiver] at hbefore
    refine ⟨?_, h.addressed, ?_, h.handed_dispatch hdispatcher _ _⟩
    · simp only [dispatch, untaken, hreceiver, List.filter_append, List.map_append]
      exact hbefore.trans (by simp)
    · intro d hd hzero
      rcases List.mem_append.mp hd with hold | hnew
      · exact ⟨(h.zero d hold hzero).1, hreceiver⟩
      · obtain rfl := List.mem_singleton.mp hnew
        exact ⟨rfl, hreceiver⟩
  | hand hdispatcher =>
    refine h.keep rfl rfl rfl ?_
    simp only [toHand, hdispatcher, List.map_cons, List.append_assoc, List.cons_append,
      List.nil_append]
  | finish hdispatcher | stop _ hdispatcher | abandon _ hdispatcher =>
    refine h.keep rfl rfl rfl ?_
    simp only [toHand, hdispatcher, List.map_nil]
  | register hdispatcher => exact h.keep rfl rfl rfl rfl
  | call | giveUp | close => exact h.keep rfl rfl rfl rfl

/-- The calls that were served or are to be served are those that were registered with a packet. -/
theorem Packets.served (h : s.Packets) :
    (s.handed ++ s.toHand).map Prod.fst = s.taken.flatMap Dispatch.registered := by
  have hfirst (d : Dispatch A) : d.handOvers.map Prod.fst = d.registered := by
    rw [Dispatch.handOvers, List.map_map]
    exact List.map_id _
  rw [h.handed, List.map_flatMap]
  simp only [hfirst]

/-- No call is served twice, or served and still to be served. -/
theorem Calls.served_nodup (hcalls : s.Calls) (hpackets : s.Packets) :
    ((s.handed ++ s.toHand).map Prod.fst).Nodup := by
  rw [hpackets.served]
  exact hcalls.nodup.sublist (List.sublist_append_left _ _)

/-- A step that changes no call. -/
theorem Calls.keep (h : s.Calls) (hreads : t.reads = s.reads) (hnext : t.nextRead = s.nextRead)
    (hhanded : t.handed = s.handed) (hcancelled : s.isCancelled = true → t.isCancelled = true)
    (hregistered : t.registered.Sublist s.registered)
    (hwaiting : ∀ k, k ∈ t.toHand.map Prod.fst ∨ k ∈ t.newcomers → k ∈ s.toHand.map Prod.fst ∨ k ∈ s.newcomers) :
    t.Calls where
  unused := by
    rw [hreads, hnext]
    exact h.unused
  known k hk := by
    rw [hreads]
    exact h.known k (hregistered.subset hk)
  nodup := h.nodup.sublist hregistered
  results := by
    rw [hreads, hhanded]
    exact h.results
  waiting k hk := by
    rw [hreads]
    exact (h.waiting k (hwaiting k hk)).imp_right hcancelled

/-- The call that goes on. -/
theorem setRead_self (s : Broadcast A) (k : ℕ) (call : ReadCall A) :
    (s.setRead k call).reads k = some call :=
  Function.update_self _ _ _

/-- The other calls stay as they are. -/
theorem setRead_of_ne (s : Broadcast A) {j k : ℕ} (hne : j ≠ k) (call : ReadCall A) :
    (s.setRead k call).reads j = s.reads j := Function.update_of_ne hne _ _

/-- The results are recorded if a call goes on that neither had a packet nor gets one. -/
theorem Calls.results_setRead (h : s.Calls) {k : ℕ} {call : ReadCall A}
    (hbefore : ∀ packet, s.reads k ≠ some (.returned (.ok packet)))
    (hcall : ∀ packet, call ≠ .returned (.ok packet)) (j : ℕ) (packet : InPacket A) :
    (s.setRead k call).reads j = some (.returned (.ok packet)) ↔ (j, packet) ∈ s.handed := by
  by_cases hj : j = k
  · subst hj
    rw [← h.results, setRead_self]
    exact ⟨fun heq => absurd (Option.some.inj heq) (hcall packet), fun heq => absurd heq (hbefore packet)⟩
  · rw [← h.results, setRead_of_ne s hj]

/-- A call that goes on is known; the others stay as they are. -/
theorem Calls.known_setRead (h : s.Calls) (k : ℕ) (call : ReadCall A) (hcall : call ≠ .registering)
    {j : ℕ} (hj : j ∈ s.registered ∨ j = k) :
    ∃ call', (s.setRead k call).reads j = some call' ∧ call' ≠ .registering := by
  by_cases heq : j = k
  · subst heq
    exact ⟨call, setRead_self s j call, hcall⟩
  · rw [setRead_of_ne s heq]
    exact h.known j (hj.resolve_right heq)

/-- No call is made under a number that is still unused. -/
theorem Calls.lt_nextRead (h : s.Calls) {k : ℕ} {call : ReadCall A} (hk : s.reads k = some call) :
    k < s.nextRead := by
  by_contra hle
  rw [h.unused k (not_lt.mp hle)] at hk
  cases hk

/-- The unused numbers stay unused when a call goes on. -/
theorem Calls.unused_setRead (h : s.Calls) {k : ℕ} (hk : k < s.nextRead) (call : ReadCall A) (j : ℕ)
    (hj : s.nextRead ≤ j) : (s.setRead k call).reads j = none := by
  rw [setRead_of_ne s (by omega)]
  exact h.unused j hj

/-- A call is handed a packet. -/
theorem Calls.hand (h : s.Calls) (hpackets : s.Packets) {packet : InPacket A} {k : ℕ}
    {rest : List ℕ} (hdispatcher : s.dispatcher = .handing packet (k :: rest))
    (hread : s.reads k = some .waiting) :
    Calls { s.setRead k (.returned (.ok packet)) with
      dispatcher := .handing packet rest, handed := s.handed ++ [(k, packet)] } := by
  have hserved := h.served_nodup hpackets
  have hrest : k ∉ rest := by
    simp only [toHand, hdispatcher, List.map_append, List.map_cons, List.map_map] at hserved
    have htail := List.nodup_cons.mp (List.nodup_append.mp hserved).2.1
    simpa using htail.1
  refine ⟨h.unused_setRead (h.lt_nextRead hread) _, ?_, ?_, ?_, ?_⟩
  · intro j hj
    have hold : j ∈ s.registered := by simpa only [registered, newcomers, setRead, hdispatcher] using hj
    exact h.known_setRead k (.returned (.ok packet)) nofun (.inl hold)
  · have hnodup := h.nodup
    simpa only [registered, newcomers, setRead, hdispatcher] using hnodup
  · intro j p
    by_cases hj : j = k
    · subst hj
      have hnot : (j, p) ∉ s.handed := by
        rw [← h.results, hread]
        nofun
      simp only [setRead_self, List.mem_append, hnot, false_or, List.mem_singleton, Prod.mk.injEq,
        true_and, Option.some.injEq, ReadCall.returned.injEq, Except.ok.injEq]
      exact eq_comm
    · simp only [setRead_of_ne s hj, h.results, List.mem_append, List.mem_singleton, Prod.mk.injEq,
        hj, false_and, or_false]
  · intro j hj
    have hmem : j ∈ rest := by simpa [toHand, newcomers] using hj
    have hne : j ≠ k := fun heq => hrest (heq ▸ hmem)
    have hold := h.waiting j (.inl (by simp [toHand, hdispatcher, hmem]))
    exact hold.imp_left (setRead_of_ne s hne _).trans

/-- A call is made. -/
theorem Calls.call (h : s.Calls) :
    Calls { s.setRead s.nextRead .registering with nextRead := s.nextRead + 1 } := by
  have hfresh : s.reads s.nextRead = none := h.unused _ le_rfl
  refine ⟨?_, ?_, h.nodup, ?_, ?_⟩
  · intro j hj
    have hj' : s.nextRead + 1 ≤ j := hj
    simp only [setRead_of_ne s (by omega : j ≠ s.nextRead)]
    exact h.unused j (by omega)
  · intro j hj
    obtain ⟨call, hcall, hne⟩ := h.known j hj
    have hold : j ≠ s.nextRead := (h.lt_nextRead hcall).ne
    exact ⟨call, (setRead_of_ne s hold _).trans hcall, hne⟩
  · exact h.results_setRead (by rw [hfresh]; nofun) nofun
  · intro j hj
    refine (h.waiting j hj).imp_left fun hwaiting => ?_
    have hold : j ≠ s.nextRead := (h.lt_nextRead hwaiting).ne
    exact (setRead_of_ne s hold _).trans hwaiting

/-- A call registers. -/
theorem Calls.register (h : s.Calls) {k : ℕ} (hdispatcher : s.dispatcher = .selecting)
    (hread : s.reads k = some .registering) :
    Calls { s.setRead k .waiting with ins := s.ins ++ [k] } := by
  have hnew : k ∉ s.registered := by
    intro hk
    obtain ⟨call, hcall, hne⟩ := h.known k hk
    exact hne (Option.some.inj (hcall.symm.trans hread))
  have hregistered : registered { s.setRead k .waiting with ins := s.ins ++ [k] } = s.registered ++ [k] := by
    simp only [registered, newcomers, setRead, hdispatcher, List.append_assoc]
  refine ⟨h.unused_setRead (h.lt_nextRead hread) _, ?_, ?_, ?_, ?_⟩
  · intro j hj
    rw [hregistered, List.mem_append, List.mem_singleton] at hj
    exact h.known_setRead k .waiting nofun hj
  · rw [hregistered]
    exact List.nodup_append.mpr ⟨h.nodup, List.nodup_singleton k, by
      intro a ha b hb heq
      exact hnew (List.mem_singleton.mp hb ▸ heq ▸ ha)⟩
  · exact h.results_setRead (by rw [hread]; nofun) nofun
  · intro j hj
    by_cases hjk : j = k
    · subst hjk
      exact .inl (setRead_self s j _)
    · have hmem : j ∈ s.ins := by simpa [toHand, newcomers, setRead, hdispatcher, hjk] using hj
      have hold := h.waiting j (.inr (by simpa only [newcomers, hdispatcher] using hmem))
      exact hold.imp_left (setRead_of_ne s hjk _).trans

/-- Every step keeps the record of the calls. -/
theorem Calls.step (h : s.Calls) (hpackets : s.Packets) {event : BeaconEvent A}
    (heffect : Effect s event t) :
    t.Calls := by
  cases heffect with
  | arrive | fail => exact h.keep rfl rfl rfl id (List.Sublist.refl _) fun _ hk => hk
  | close => exact h.keep rfl rfl rfl (fun _ => rfl) (List.Sublist.refl _) fun _ hk => hk
  | take hdispatcher | takeZero hdispatcher =>
    refine h.keep rfl rfl rfl id ?_ ?_
    · simp only [registered, newcomers, dispatch, hdispatcher, List.flatMap_append,
        List.flatMap_cons, List.flatMap_nil, List.append_nil]
      exact List.Sublist.refl _
    · simp only [newcomers, toHand, dispatch, hdispatcher, List.map_map, List.map_nil]
      intro k hk
      exact .inr (by simpa using hk)
  | finish hdispatcher =>
    refine h.keep rfl rfl rfl id ?_ ?_
    · simp only [registered, newcomers, hdispatcher]
      exact List.Sublist.refl _
    · intro k hk
      rcases hk with hk | hk <;> cases hk
  | stop hcancelled hdispatcher =>
    refine h.keep rfl rfl rfl id ?_ ?_
    · simp only [registered, newcomers, hdispatcher, List.append_nil]
      exact List.sublist_append_left _ _
    · intro k hk
      rcases hk with hk | hk <;> cases hk
  | abandon hcancelled hdispatcher =>
    refine h.keep rfl rfl rfl id ?_ ?_
    · simp only [registered, newcomers, hdispatcher]
      exact List.Sublist.refl _
    · simp only [newcomers, toHand, hdispatcher]
      exact fun _ hk => hk
  | hand hdispatcher hread => exact h.hand hpackets hdispatcher hread
  | call => exact h.call
  | register hdispatcher hread => exact h.register hdispatcher hread
  | @giveUp k hread hcancelled =>
    refine ⟨h.unused_setRead (h.lt_nextRead hread) _, ?_, h.nodup, ?_, fun _ _ => .inr hcancelled⟩
    · intro j hj
      exact h.known_setRead k (.returned (.error .closed)) nofun (.inl hj)
    · exact h.results_setRead (by rw [hread]; nofun) nofun

/-- Every state that a beacon reaches. -/
theorem recorded (h : Reached step anyStep new s) : s.Packets ∧ s.Calls :=
  h.invariant (fun s => s.Packets ∧ s.Calls) ⟨packets_new, calls_new⟩
    fun _ _ _ hs _ hstep => ⟨hs.1.step (step_effect hstep), hs.2.step hs.1 (step_effect hstep)⟩

/-- A packet that was received and taken has arrived. -/
theorem Packets.mem_arrived (h : s.Packets) {d : Dispatch A} (hd : d ∈ s.taken)
    (hreceived : d.isReceived = true) :
    d.packet ∈ s.arrived := by
  rw [h.arrived]
  exact List.mem_append_left _ (List.mem_map_of_mem (List.mem_filter.mpr ⟨hd, hreceived⟩))

/-- A packet that was handed to a call was taken while the call was registered. -/
theorem Packets.exists_of_handed (h : s.Packets) {k : ℕ} {packet : InPacket A}
    (hk : (k, packet) ∈ s.handed) :
    ∃ d ∈ s.taken, k ∈ d.registered ∧ d.packet = packet := by
  have hmem : (k, packet) ∈ s.taken.flatMap Dispatch.handOvers := h.handed ▸ List.mem_append_left _ hk
  obtain ⟨d, hd, hover⟩ := List.mem_flatMap.mp hmem
  obtain ⟨j, hj, heq⟩ := List.mem_map.mp hover
  obtain ⟨rfl, rfl⟩ := Prod.mk.inj heq
  exact ⟨d, hd, hj, rfl⟩

/-- While the dispatch loop selects, a packet was handed to all calls that were registered with
it. -/
theorem Packets.handed_of_selecting (h : s.Packets) (hdispatcher : s.dispatcher = .selecting)
    {d : Dispatch A} (hd : d ∈ s.taken) {k : ℕ} (hk : k ∈ d.registered) :
    (k, d.packet) ∈ s.handed := by
  rw [h.handed_selecting hdispatcher]
  exact List.mem_flatMap.mpr ⟨d, hd, List.mem_map_of_mem hk⟩

/-- The dispatch of packets to the calls of `Read`, in every state that a beacon reaches. A call
that returns without an error returns a packet that was handed to it, and this was received unless
the call was registered when the loop received from the closed channel, which needs a failure of the
socket. Each packet that was taken is handed to the calls that were registered at this moment, in
their order, no call is served twice, and each received packet is taken once and in order. A call
that is to be served can be served as long as the beacon is not closed. -/
theorem beacon_dispatch (s : Broadcast A) (h : Reached step anyStep new s) :
    ((∀ d ∈ s.taken, d.isReceived = false → d.registered = []) →
      ∀ k packet, s.reads k = some (.returned (.ok packet)) → packet ∈ s.arrived) ∧
    (s.dispatcher = .selecting → (∀ k packet, s.reads k = some (.returned (.ok packet)) → packet ∈ s.arrived) →
      ∀ d ∈ s.taken, d.isReceived = false → d.registered = []) ∧
    (s.receiver ≠ .stopped → ∀ d ∈ s.taken, d.isReceived = true) ∧
    (∀ k packet, s.reads k = some (.returned (.ok packet)) ↔ (k, packet) ∈ s.handed) ∧
    s.handed ++ s.toHand = s.taken.flatMap Dispatch.handOvers ∧
    ((s.handed ++ s.toHand).map Prod.fst).Nodup ∧
    s.arrived = (s.taken.filter Dispatch.isReceived).map Dispatch.packet ++ s.untaken ∧
    (∀ packet k rest, s.dispatcher = .handing packet (k :: rest) → s.isCancelled = false →
      ∃ t, s.step .hand = some t) := by
  obtain ⟨hpackets, hcalls⟩ := recorded h
  refine ⟨?_, ?_, fun hreceiver d hd => hpackets.received hreceiver hd, hcalls.results, hpackets.handed,
    hcalls.served_nodup hpackets, hpackets.arrived, ?_⟩
  · intro hempty k packet hread
    obtain ⟨d, hd, hk, rfl⟩ := hpackets.exists_of_handed ((hcalls.results k packet).mp hread)
    cases hreceived : d.isReceived with
    | true => exact hpackets.mem_arrived hd hreceived
    | false =>
      rw [hempty d hd hreceived] at hk
      cases hk
  · intro hdispatcher hreads d hd hzero
    rw [List.eq_nil_iff_forall_not_mem]
    intro k hk
    have hread := (hcalls.results k d.packet).mpr (hpackets.handed_of_selecting hdispatcher hd hk)
    have haddr := hpackets.addressed _ (hreads k d.packet hread)
    rw [(hpackets.zero d hd hzero).1] at haddr
    exact haddr rfl
  · intro packet k rest hdispatcher hopen
    have hwaiting := hcalls.waiting k (.inl (by simp [toHand, hdispatcher]))
    rw [hopen] at hwaiting
    have hread := hwaiting.resolve_right nofun
    exact ⟨_, by simp only [step, hdispatcher, hread]; rfl⟩

/-- Two calls register and are both handed the one packet that arrives. -/
theorem beacon_dispatch_two_calls :
    ∃ s : Broadcast ℕ, Reached step anyStep new s ∧
      s.reads 0 = some (.returned (.ok ⟨[1], some 7⟩)) ∧ s.reads 1 = some (.returned (.ok ⟨[1], some 7⟩)) ∧
      ∀ k packet, s.reads k = some (.returned (.ok packet)) → packet ∈ s.arrived := by
  have hreached : Reached step anyStep (new : Broadcast ℕ) _ :=
    reached_of_execute [.call, .call, .register 0, .register 1, .arrive [1] 7, .take, .hand, .hand, .finish] rfl
  have hreceived := (beacon_dispatch _ hreached).2.2.1 nofun
  refine ⟨_, hreached, rfl, rfl, (beacon_dispatch _ hreached).1 ?_⟩
  intro d hd hzero
  rw [hreceived d hd] at hzero
  cases hzero

/-- The socket fails while a call is registered: the call returns without an error a packet without
data and address, although none was received and the beacon is open. -/
theorem beacon_invents_packet :
    ∃ s : Broadcast ℕ, Reached step anyStep new s ∧ s.isCancelled = false ∧ s.arrived = [] ∧
      s.reads 0 = some (.returned (.ok ⟨[], none⟩)) := by
  have hreached : Reached step anyStep (new : Broadcast ℕ) _ :=
    reached_of_execute [.call, .register 0, .fail, .take, .hand] rfl
  exact ⟨_, hreached, rfl, rfl, rfl⟩

end Broadcast

end ProjektCore.Beacon
