import ProjektCore.Foundation.History
import ProjektCore.Relay.Cleanup
import ProjektCore.Relay.Registration

/-!
# What is relayed between session clients

Once a session has been accepted, its two connections are relayed to each other, one goroutine for
each direction. The goroutines go on until a connection fails, even after the session has been
deleted. The record kept here tells which connection presented which key, and whose bytes were
forwarded to whom. It is assumed that no session key is handed out twice.
-/

namespace ProjektCore.Relay

open Foundation

/-- The other client of a session. -/
def Seat.other : Seat → Seat
  | .first => .second
  | .second => .first

/-- The key of a client of a session. -/
def keyAt (keys : Bytes × Bytes) : Seat → Bytes
  | .first => keys.1
  | .second => keys.2

/-- The connection that the goroutine for a client has received. -/
def Member.conn : Member → Option ℕ
  | .responding c | .joined c | .unanswered c => some c
  | .starting | .waiting | .timedOut => none

/-- Whether the goroutines that relay have been started. -/
def SessionRun.hasRelays (run : SessionRun) : Bool :=
  match run.phase with
  | .joining | .awaiting => false
  | .relaying | .deleting | .returned => run.hasBoth

namespace SessionRun

variable {run next : SessionRun}

/-- While a client is waited for, nothing is relayed. -/
theorem hasRelays_of_unsettled (h : run.Valid) {seat : Seat}
    (hseat : (run.members seat).isSettled = false) (member : Member) :
    (run.setMember seat member).hasRelays = false := by
  simp [hasRelays, setMember, h.settled seat hseat]

/-- A goroutine relays only after it has found the session to be accepted. -/
theorem accepted_of_step (h : run.Valid) {event : RunEvent} (hstep : run.step event = some next)
    (hnext : next.isAccepted = true ∨ next.hasRelays = true) :
    run.isAccepted = true ∨ run.hasRelays = true := by
  cases step_effect hstep with
  | listen hseat | giveUp hseat | respond hseat =>
    rw [hasRelays_of_unsettled h (by rw [hseat]; rfl)] at hnext
    exact .inl (hnext.resolve_right Bool.false_ne_true)
  | expire | endRelay => exact hnext
  | join =>
    refine .inl (hnext.resolve_right ?_)
    -- without both clients the goroutine returns, and with both it waits for the acceptance
    cases hboth : run.hasBoth with
    | false => simp [hasRelays, hasBoth_phase, hboth]
    | true => simp [hasRelays]
  | proceed _ haccepted => exact .inl haccepted
  | leave hphase => simpa [hasRelays, hphase, hasBoth] using hnext

/-- A goroutine for a client that goes on with the same connection. -/
theorem setMember_conn {place : Seat} {member : Member} (h : member.conn = (run.members place).conn)
    (seat : Seat) :
    ((run.setMember place member).members seat).conn = (run.members seat).conn := by
  simp only [setMember, Function.update_apply]
  split
  · next heq => rw [heq, h]
  · rfl

/-- By itself, a goroutine for a client neither receives a connection nor loses it. -/
theorem conn_step {event : RunEvent} (hstep : run.step event = some next) (seat : Seat) :
    (next.members seat).conn = (run.members seat).conn := by
  cases step_effect hstep with
  | listen hplace | giveUp hplace => exact setMember_conn (by rw [hplace]; rfl) seat
  | @respond place isFailure conn hplace =>
    refine setMember_conn ?_ seat
    rw [hplace]
    cases isFailure <;> rfl
  | expire | join | proceed | endRelay | leave => rfl

end SessionRun

/-- What is recorded beside the server. -/
inductive TrafficEntry where
  /-- A session is created, with its goroutine. -/
  | created (n : ℕ) (id : List Char) (keys : Bytes × Bytes)
  /-- The session of a goroutine is accepted. -/
  | accepted (n : ℕ)
  /-- A connection to the session port presents a key. -/
  | presented (c : ℕ) (key : Bytes)
  /-- Bytes read from a connection are written to another one. -/
  | forwarded (n source target : ℕ) (bytes : Bytes)
deriving Repr, DecidableEq

/-- What happens once: to a goroutine of a session, or to a connection. -/
inductive TrafficKey where
  | creation (n : ℕ)
  | presentation (c : ℕ)
deriving Repr, DecidableEq

namespace TrafficEntry

/-- What an entry says that is said once. -/
def key : TrafficEntry → Option TrafficKey
  | .created n .. => some (.creation n)
  | .presented c _ => some (.presentation c)
  | .accepted _ | .forwarded .. => none

/-- The keys that are handed out with a session. -/
def handedOut : TrafficEntry → List Bytes
  | .created _ _ keys => [keys.1, keys.2]
  | .accepted _ | .presented .. | .forwarded .. => []

/-- The keys of a session are different, and have not been handed out before. -/
def AreNew (before : List TrafficEntry) (keys : Bytes × Bytes) : Prop :=
  keys.1 ≠ keys.2 ∧ keys.1 ∉ before.flatMap handedOut ∧ keys.2 ∉ before.flatMap handedOut

instance (before : List TrafficEntry) (keys : Bytes × Bytes) : Decidable (AreNew before keys) :=
  inferInstanceAs (Decidable (_ ∧ _))

/-- New keys are those of no other session. -/
theorem AreNew.keyAt_ne {before : List TrafficEntry} {keys keys' : Bytes × Bytes}
    (h : AreNew before keys) {n : ℕ} {id : List Char} (hcreated : .created n id keys' ∈ before)
    (seat seat' : Seat) :
    keyAt keys seat ≠ keyAt keys' seat' := by
  have hmem : keyAt keys' seat' ∈ before.flatMap handedOut := by
    refine List.mem_flatMap.mpr ⟨_, hcreated, ?_⟩
    cases seat' <;> simp [handedOut, keyAt]
  intro heq
  rw [← heq] at hmem
  cases seat with
  | first => exact h.2.1 hmem
  | second => exact h.2.2 hmem

/-- Why an entry is made. -/
def Reason (before : List TrafficEntry) : TrafficEntry → Prop
  | .created _ _ keys => AreNew before keys
  | .accepted _ | .presented .. => True
  | .forwarded n source target _ =>
    ∃ id keys seat, .created n id keys ∈ before ∧ .accepted n ∈ before ∧
      .presented source (keyAt keys seat) ∈ before ∧ .presented target (keyAt keys seat.other) ∈ before

/-- An entry is made for the first time, and with a reason. -/
def Sound (before : List TrafficEntry) (entry : TrafficEntry) :
    Prop := IsFirst key before entry ∧ entry.Reason before

variable {log : List TrafficEntry}

/-- What is said once is said by one entry. -/
theorem eq_of_key (h : Justified Sound log) {x y : TrafficEntry} (hx : x ∈ log) (hy : y ∈ log)
    {key : TrafficKey} (hkeyx : x.key = some key) (hkeyy : y.key = some key) : x = y :=
  h.eq_of_key (fun _ _ hsound => hsound.1) hx hy hkeyx hkeyy

/-- A key is that of one client of one session. -/
theorem eq_of_keyAt (h : Justified Sound log) {n n' : ℕ} {id id' : List Char}
    {keys keys' : Bytes × Bytes} (hcreated : .created n id keys ∈ log)
    (hcreated' : .created n' id' keys' ∈ log) {seat seat' : Seat}
    (hkey : keyAt keys seat = keyAt keys' seat') : n = n' := by
  have heq := h.eq_of_mem (p := fun entry => ∃ n id keys seat, entry = .created n id keys ∧
    keyAt keys seat = keyAt keys' seat') ?_ hcreated hcreated' ⟨n, id, keys, seat, rfl, hkey⟩
    ⟨n', id', keys', seat', rfl, rfl⟩
  · exact (TrafficEntry.created.inj heq).1
  · rintro before entry ⟨-, hreason⟩ ⟨m, id₁, keys₁, seat₁, rfl, hkey₁⟩ other hother ⟨m', id₂, keys₂, seat₂, rfl, hkey₂⟩
    exact AreNew.keyAt_ne hreason hother seat₁ seat₂ (hkey₁.trans hkey₂.symm)

end TrafficEntry

/-- A server with its sessions, and the record. -/
structure Traffic where
  relay : RelayServer
  log : List TrafficEntry

/-- What happens. -/
inductive TrafficEvent where
  | relay (event : RelayEvent)
  /-- Bytes are read from a client of a session, and written to the other one. -/
  | forward (n : ℕ) (seat : Seat) (bytes : Bytes)
deriving Repr, DecidableEq

namespace Traffic

open TrafficEntry

/-- A server without clients and sessions. -/
def new (sessionPort : ℕ) : Traffic := ⟨.new sessionPort, []⟩

/-- What is recorded of a step of the server. -/
def entries (t : Traffic) : RelayEvent → List TrafficEntry
  | .server event =>
    match RelayServer.created t.relay.server event, RelayServer.accepted t.relay.server event with
    | some (id, keys), _ => [.created t.relay.nextRun id keys]
    | none, some id =>
      match t.relay.owners id with
      | some n => [.accepted n]
      | none => []
    | none, none => []
  | .authenticate c (some key) => [.presented c key]
  | _ => []

/-- A goroutine reads from a client and writes to the other one. -/
def forward (t : Traffic) (n : ℕ) (seat : Seat) (bytes : Bytes) : Option Traffic := do
  let run ← t.relay.runs n
  if run.hasRelays ∧ run.hasEnded seat = false then
    match run.members seat, run.members seat.other with
    | .joined source, .joined target => some { t with log := t.log ++ [.forwarded n source target bytes] }
    | _, _ => none
  else none

/-- One step, with its record. -/
def step (t : Traffic) : TrafficEvent → Option Traffic
  | .relay event => (t.relay.step event).map fun relay => ⟨relay, t.log ++ t.entries event⟩
  | .forward n seat bytes => if t.relay.server.isPanicked then none else t.forward n seat bytes

/-- A session that is created gets new keys. -/
def NewKeys (t : Traffic) : TrafficEvent → Prop
  | .relay (.server event) => ∀ session ∈ RelayServer.created t.relay.server event, AreNew t.log session.2
  | _ => True

instance (t : Traffic) (event : TrafficEvent) : Decidable (NewKeys t event) :=
  match event with
  | .relay (.server event) =>
    inferInstanceAs (Decidable (∀ session ∈ RelayServer.created t.relay.server event, AreNew t.log session.2))
  | .relay (.run ..) | .relay (.delete _) | .relay .addSessionClient | .relay (.authenticate ..) | .relay (.lookUp _)
  | .relay (.hand _) | .forward .. => .isTrue trivial

/-- The tables and the goroutines agree with the record. -/
structure Routed (t : Traffic) : Prop where
  justified : Justified Sound t.log
  numbered : ∀ n id keys, .created n id keys ∈ t.log → n < t.relay.nextRun
  accepted : ∀ n run, t.relay.runs n = some run → run.isAccepted = true ∨ run.hasRelays = true → .accepted n ∈ t.log
  member : ∀ n run seat c, t.relay.runs n = some run → (run.members seat).conn = some c →
    ∃ id keys, .created n id keys ∈ t.log ∧ .presented c (keyAt keys seat) ∈ t.log
  unused : ∀ c, t.relay.nextClient ≤ c → t.relay.clients c = none
  silent : ∀ c key, t.relay.clients c = none ∨ t.relay.clients c = some .reading → .presented c key ∉ t.log
  asking : ∀ c key, t.relay.clients c = some (.asking key) → .presented c key ∈ t.log
  handing : ∀ c n seat, t.relay.clients c = some (.handing n seat) →
    ∃ id keys, .created n id keys ∈ t.log ∧ .presented c (keyAt keys seat) ∈ t.log
  keyed : ∀ key handle, t.relay.keys key = some handle →
    ∃ keys, .created handle.run handle.id keys ∈ t.log ∧ key = hexEncode (keyAt keys handle.seat)
  listed : ∀ id keys, t.relay.server.sessionKeys id = some keys →
    ∃ n, t.relay.owners id = some n ∧ .created n id keys ∈ t.log ∧
      ∀ seat, t.relay.keys (hexEncode (keyAt keys seat)) = some ⟨id, n, seat⟩

namespace Routed

variable {t : Traffic}

/-- A server without sessions. -/
theorem new (sessionPort : ℕ) : (Traffic.new sessionPort).Routed where
  justified := justified_nil
  numbered := by simp [Traffic.new]
  accepted := by simp [Traffic.new, RelayServer.new]
  member := by simp [Traffic.new, RelayServer.new]
  unused := by simp [Traffic.new, RelayServer.new]
  silent := by simp [Traffic.new]
  asking := by simp [Traffic.new, RelayServer.new]
  handing := by simp [Traffic.new, RelayServer.new]
  keyed := by simp [Traffic.new, RelayServer.new]
  listed := by simp [Traffic.new, RelayServer.new, Server.sessionKeys_new]

/-- An entry is made: a session gets a number below the next one, and a connection has read its
key. -/
theorem extend (h : t.Routed) {entry : TrafficEntry} {next : ℕ} (hsound : entry.Sound t.log)
    (hnext : t.relay.nextRun ≤ next) (hcreated : ∀ n id keys, entry = .created n id keys → n < next)
    (hpresented : ∀ c key, entry = .presented c key →
      t.relay.clients c ≠ none ∧ t.relay.clients c ≠ some .reading) :
    Routed ⟨{ t.relay with nextRun := next }, t.log ++ [entry]⟩ where
  justified := justified_concat.mpr ⟨h.justified, hsound⟩
  numbered n id keys hmem := by
    rw [List.mem_append, List.mem_singleton] at hmem
    rcases hmem with hmem | heq
    · exact (h.numbered n id keys hmem).trans_le hnext
    · exact hcreated n id keys heq.symm
  accepted n run hrun hproceeds := List.mem_append_left _ (h.accepted n run hrun hproceeds)
  member n run seat c hrun hconn := by
    obtain ⟨id, keys, hcreated, hpresented⟩ := h.member n run seat c hrun hconn
    exact ⟨id, keys, List.mem_append_left _ hcreated, List.mem_append_left _ hpresented⟩
  unused := h.unused
  silent c key hc hmem := by
    rw [List.mem_append, List.mem_singleton] at hmem
    rcases hmem with hmem | heq
    · exact h.silent c key hc hmem
    · obtain ⟨hnone, hreading⟩ := hpresented c key heq.symm
      exact hc.elim hnone hreading
  asking c key hc := List.mem_append_left _ (h.asking c key hc)
  handing c n seat hc := by
    obtain ⟨id, keys, hcreated, hpresented⟩ := h.handing c n seat hc
    exact ⟨id, keys, List.mem_append_left _ hcreated, List.mem_append_left _ hpresented⟩
  keyed key handle hkey := by
    obtain ⟨keys, hcreated, heq⟩ := h.keyed key handle hkey
    exact ⟨keys, List.mem_append_left _ hcreated, heq⟩
  listed id keys hid := by
    obtain ⟨n, howner, hcreated, hkeys⟩ := h.listed id keys hid
    exact ⟨n, howner, List.mem_append_left _ hcreated, hkeys⟩

/-- An entry is made that starts no session, and for a connection that has read its key. -/
theorem record (h : t.Routed) {entry : TrafficEntry} (hsound : entry.Sound t.log)
    (hcreated : ∀ n id keys, entry ≠ .created n id keys)
    (hpresented : ∀ c key, entry = .presented c key →
      t.relay.clients c ≠ none ∧ t.relay.clients c ≠ some .reading) :
    Routed ⟨t.relay, t.log ++ [entry]⟩ :=
  h.extend hsound le_rfl (fun n id keys heq => absurd heq (hcreated n id keys)) hpresented

/-- A step of the server that keeps the sessions. -/
theorem setServer (h : t.Routed) {server : Server}
    (hkeys : server.sessionKeys = t.relay.server.sessionKeys) :
    Routed ⟨{ t.relay with server }, t.log⟩ :=
  { h with listed := fun id keys hid => h.listed id keys (hkeys ▸ hid) }

/-- The goroutine of a session goes on. -/
theorem setRun (h : t.Routed) {n : ℕ} {next : SessionRun}
    (haccepted : next.isAccepted = true ∨ next.hasRelays = true → .accepted n ∈ t.log)
    (hmember : ∀ seat c, (next.members seat).conn = some c →
      ∃ id keys, .created n id keys ∈ t.log ∧ .presented c (keyAt keys seat) ∈ t.log) :
    Routed ⟨t.relay.setRun n next, t.log⟩ := by
  refine { h with accepted := ?_, member := ?_ }
  · intro m run hrun hproceeds
    simp only [RelayServer.setRun, Function.update_apply] at hrun
    split at hrun
    · next heq =>
      obtain rfl := Option.some.inj hrun
      exact heq ▸ haccepted hproceeds
    · exact h.accepted m run hrun hproceeds
  · intro m run seat c hrun hconn
    simp only [RelayServer.setRun, Function.update_apply] at hrun
    split at hrun
    · next heq =>
      obtain rfl := Option.some.inj hrun
      exact heq ▸ hmember seat c hconn
    · exact h.member m run seat c hrun hconn

/-- The goroutine of a connection goes on after it has read its key. -/
theorem setClient (h : t.Routed) (c : ℕ) (client : SessionClient) (hc : t.relay.clients c ≠ none)
    (hreading : client ≠ .reading) (hasking : ∀ key, client = .asking key → .presented c key ∈ t.log)
    (hhanding : ∀ n seat, client = .handing n seat →
      ∃ id keys, .created n id keys ∈ t.log ∧ .presented c (keyAt keys seat) ∈ t.log) :
    Routed ⟨t.relay.setClient c client, t.log⟩ := by
  refine { h with unused := ?_, silent := ?_, asking := ?_, handing := ?_ }
  · intro other hother
    have hnone := h.unused other hother
    have hne : other ≠ c := by
      rintro rfl
      exact hc hnone
    exact (Function.update_of_ne hne ..).trans hnone
  · intro other key hother
    simp only [RelayServer.setClient, Function.update_apply] at hother
    split at hother
    · simp [hreading] at hother
    · exact h.silent other key hother
  · intro other key hother
    simp only [RelayServer.setClient, Function.update_apply] at hother
    split at hother
    · next heq => exact heq ▸ hasking key (Option.some.inj hother)
    · exact h.asking other key hother
  · intro other n seat hother
    simp only [RelayServer.setClient, Function.update_apply] at hother
    split at hother
    · next heq => exact heq ▸ hhanding n seat (Option.some.inj hother)
    · exact h.handing other n seat hother

/-- A connection is added. -/
theorem addSessionClient (h : t.Routed) :
    Routed ⟨{ t.relay.setClient t.relay.nextClient .reading with nextClient := t.relay.nextClient + 1 }, t.log⟩ := by
  refine { h with unused := ?_, silent := ?_, asking := ?_, handing := ?_ }
  · intro c hc
    have hlt : t.relay.nextClient < c := hc
    exact (Function.update_of_ne hlt.ne' ..).trans (h.unused c hlt.le)
  · intro c key hc
    simp only [RelayServer.setClient, Function.update_apply] at hc
    split at hc
    · next heq => exact heq ▸ h.silent t.relay.nextClient key (.inl (h.unused _ le_rfl))
    · exact h.silent c key hc
  · intro c key hc
    simp only [RelayServer.setClient, Function.update_apply] at hc
    split at hc
    · simp at hc
    · exact h.asking c key hc
  · intro c n seat hc
    simp only [RelayServer.setClient, Function.update_apply] at hc
    split at hc
    · simp at hc
    · exact h.handing c n seat hc

/-- A connection presents its key. -/
theorem authenticate (h : t.Routed) {c : ℕ} {key : Bytes} (hc : t.relay.clients c = some .reading) :
    Routed ⟨t.relay.setClient c (.asking key), t.log ++ [.presented c key]⟩ := by
  have hsome : t.relay.clients c ≠ none := by simp [hc]
  have hread := h.setClient c .failed hsome (by simp) (by simp) (by simp)
  have hsound : Sound t.log (.presented c key) := by
    refine ⟨?_, trivial⟩
    intro k hk other hother hotherKey
    obtain rfl := Option.some.inj hk
    cases other with
    | presented c' key' =>
      simp only [TrafficEntry.key, Option.some.injEq, TrafficKey.presentation.injEq] at hotherKey
      subst hotherKey
      exact h.silent c' key' (.inr hc) hother
    | created | accepted | forwarded => simp [TrafficEntry.key] at hotherKey
  have hnow : (t.relay.setClient c .failed).clients c = some .failed := Function.update_self ..
  have hrecorded : Routed ⟨t.relay.setClient c .failed, t.log ++ [.presented c key]⟩ := by
    refine hread.record hsound (by simp) ?_
    intro c' key' heq
    obtain ⟨rfl, -⟩ := TrafficEntry.presented.inj heq
    simp [hnow]
  have hasks := hrecorded.setClient c (.asking key) (by simp [hnow]) (by simp) (by simp) (by simp)
  simpa [RelayServer.setClient, Function.update_idem] using hasks

/-- A session is created with new keys. -/
theorem startSession (h : t.Routed) {server : Server} {id : List Char} {keys : Bytes × Bytes}
    (hserver : server.sessionKeys = Function.update t.relay.server.sessionKeys id (some keys))
    (hnew : AreNew t.log keys) :
    Routed ⟨RelayServer.startSession { t.relay with server } id keys,
      t.log ++ [.created t.relay.nextRun id keys]⟩ := by
  have hhex {a b : Bytes} (hne : a ≠ b) : hexEncode b ≠ hexEncode a := fun heq => hne (hexEncode_injective heq).symm
  have hfirst : IsFirst TrafficEntry.key t.log (.created t.relay.nextRun id keys) := by
    intro key hkey other hother hotherKey
    obtain rfl := Option.some.inj hkey
    cases other with
    | created n id' keys' =>
      have hlt := h.numbered n id' keys' hother
      simp only [TrafficEntry.key, Option.some.injEq, TrafficKey.creation.injEq] at hotherKey
      omega
    | accepted | presented | forwarded => simp [TrafficEntry.key] at hotherKey
  have hcreated : Routed ⟨{ t.relay with nextRun := t.relay.nextRun + 1 },
      t.log ++ [.created t.relay.nextRun id keys]⟩ := by
    refine h.extend ⟨hfirst, hnew⟩ (Nat.le_succ _) ?_ (by simp)
    intro n id' keys' heq
    obtain ⟨rfl, -⟩ := TrafficEntry.created.inj heq
    exact Nat.lt_succ_self _
  refine { hcreated with accepted := ?_, member := ?_, keyed := ?_, listed := ?_ }
  · intro n run hrun hproceeds
    simp only [RelayServer.startSession, Function.update_apply] at hrun
    split at hrun
    · obtain rfl := Option.some.inj hrun
      simp [SessionRun.new, SessionRun.hasRelays] at hproceeds
    · exact hcreated.accepted n run hrun hproceeds
  · intro n run seat c hrun hconn
    simp only [RelayServer.startSession, Function.update_apply] at hrun
    split at hrun
    · obtain rfl := Option.some.inj hrun
      cases hconn
    · exact hcreated.member n run seat c hrun hconn
  · intro key handle hkey
    simp only [RelayServer.startSession, Function.update_apply] at hkey
    split at hkey
    · next heq =>
      obtain rfl := Option.some.inj hkey
      exact ⟨keys, by simp, heq⟩
    · split at hkey
      · next heq =>
        obtain rfl := Option.some.inj hkey
        exact ⟨keys, by simp, heq⟩
      · exact hcreated.keyed key handle hkey
  · intro id' keys' hid
    simp only [RelayServer.startSession, hserver, Function.update_apply] at hid ⊢
    split at hid
    · next heq =>
      obtain rfl := Option.some.inj hid
      refine ⟨t.relay.nextRun, by simp [heq], by simp [heq], ?_⟩
      intro seat
      cases seat with
      | first => simp only [keyAt, hhex hnew.1.symm, if_false, if_true, heq]
      | second => simp only [keyAt, if_true, heq]
    · next hne =>
      obtain ⟨n, howner, hmem, hkeys⟩ := h.listed id' keys' hid
      refine ⟨n, by rw [if_neg hne, howner], List.mem_append_left _ hmem, ?_⟩
      intro seat
      have hne1 : keys.1 ≠ keyAt keys' seat := hnew.keyAt_ne hmem .first seat
      have hne2 : keys.2 ≠ keyAt keys' seat := hnew.keyAt_ne hmem .second seat
      rw [if_neg (hhex hne2), if_neg (hhex hne1), hkeys seat]

/-- Two sessions have no key in common. -/
theorem keyAt_ne (h : t.Routed) {id id' : List Char} {keys keys' : Bytes × Bytes}
    (hid : t.relay.server.sessionKeys id = some keys)
    (hid' : t.relay.server.sessionKeys id' = some keys') (hne : id ≠ id') (seat seat' : Seat) :
    keyAt keys seat ≠ keyAt keys' seat' := by
  intro hkey
  obtain ⟨n, -, hcreated, -⟩ := h.listed id keys hid
  obtain ⟨n', -, hcreated', -⟩ := h.listed id' keys' hid'
  obtain rfl := eq_of_keyAt h.justified hcreated hcreated' hkey
  exact hne (TrafficEntry.created.inj (eq_of_key h.justified hcreated hcreated' rfl rfl)).2.1

/-- A session is deleted, with its keys. -/
theorem deleteSession (h : t.Routed) (htidy : t.relay.Tidy) {n : ℕ} {run : SessionRun}
    (hrun : t.relay.runs n = some run) (hphase : run.phase = .deleting) :
    Routed ⟨t.relay.deleteSession n run, t.log⟩ := by
  obtain ⟨-, session, hsession⟩ := htidy.session_of_deleting hrun hphase
  have hkeys : t.relay.server.sessionKeys run.id = some session.keys := by simp [Server.sessionKeys, hsession]
  have hreturned : Routed ⟨t.relay.setRun n { run with phase := .returned }, t.log⟩ := by
    refine h.setRun ?_ (fun seat c hconn => h.member n run seat c hrun hconn)
    intro hproceeds
    apply h.accepted n run hrun
    simpa only [SessionRun.hasRelays, SessionRun.hasBoth_phase, hphase] using hproceeds
  simp only [RelayServer.deleteSession, hsession]
  refine { hreturned with keyed := ?_, listed := ?_ }
  · intro key handle hkey
    simp only [Function.update_apply] at hkey
    split at hkey
    · cases hkey
    · split at hkey
      · cases hkey
      · exact h.keyed key handle hkey
  · intro id keys hid
    simp only [Server.sessionKeys, Function.update_apply] at hid ⊢
    split at hid
    · cases hid
    · next hne =>
      obtain ⟨m, howner, hcreated, hplaces⟩ := h.listed id keys hid
      refine ⟨m, by rw [if_neg hne, howner], hcreated, ?_⟩
      intro seat
      have hfirst : hexEncode (keyAt keys seat) ≠ hexEncode session.keys.1 :=
        fun heq => h.keyAt_ne hid hkeys hne seat .first (hexEncode_injective heq)
      have hsecond : hexEncode (keyAt keys seat) ≠ hexEncode session.keys.2 :=
        fun heq => h.keyAt_ne hid hkeys hne seat .second (hexEncode_injective heq)
      rw [if_neg hsecond, if_neg hfirst, hplaces seat]

/-- A session is accepted, and its goroutine finds this. -/
theorem markAccepted (h : t.Routed) {id : List Char} {n : ℕ} (howner : t.relay.owners id = some n) :
    Routed ⟨t.relay.markAccepted id, t.log ++ [.accepted n]⟩ := by
  have hsound : Sound t.log (.accepted n) := ⟨by simp [IsFirst, TrafficEntry.key], trivial⟩
  have hrecorded := h.record hsound (by simp) (by simp)
  simp only [RelayServer.markAccepted, howner]
  split
  · exact hrecorded
  · next run hrun =>
    exact hrecorded.setRun (fun _ => List.mem_append_right _ List.mem_cons_self)
      (fun seat c hconn => hrecorded.member n run seat c hrun hconn)

/-- Bytes are forwarded between the two connections of a session. -/
theorem forward (h : t.Routed) {n : ℕ} {seat : Seat} {bytes : Bytes} {u : Traffic}
    (hforward : t.forward n seat bytes = some u) : u.relay = t.relay ∧ u.Routed := by
  simp only [Traffic.forward, Option.bind_eq_bind, Option.bind_eq_some_iff,
    Option.ite_none_right_eq_some] at hforward
  obtain ⟨run, hrun, ⟨hrelays, -⟩, hforward⟩ := hforward
  split at hforward
  · next source target hsource htarget =>
    obtain rfl := Option.some.inj hforward
    refine ⟨rfl, h.record ⟨by simp [IsFirst, TrafficEntry.key], ?_⟩ (by simp) (by simp)⟩
    obtain ⟨id, keys, hcreated, hpresented⟩ := h.member n run seat source hrun (by rw [hsource]; rfl)
    obtain ⟨id', keys', hcreated', hpresented'⟩ := h.member n run seat.other target hrun (by rw [htarget]; rfl)
    obtain ⟨-, -, rfl⟩ := TrafficEntry.created.inj (eq_of_key h.justified hcreated hcreated' rfl rfl)
    exact ⟨id, keys, seat, hcreated, h.accepted n run hrun (.inr hrelays), hpresented, hpresented'⟩
  · cases hforward

/-- A connection is handed over to the goroutine that waits for its key. -/
theorem hand (h : t.Routed) (htidy : t.relay.Tidy) {c n : ℕ} {seat : Seat} {run : SessionRun}
    (hc : t.relay.clients c = some (.handing n seat)) (hrun : t.relay.runs n = some run)
    (hwaiting : run.members seat = .waiting) :
    Routed ⟨(t.relay.setClient c .handed).setRun n (run.setMember seat (.responding c)), t.log⟩ := by
  have hhanded := h.setClient c .handed (by simp [hc]) (by simp) (by simp) (by simp)
  have hrelays := SessionRun.hasRelays_of_unsettled (htidy.valid n run hrun) (by rw [hwaiting]; rfl) (.responding c)
  refine hhanded.setRun ?_ ?_
  · rw [hrelays]
    intro haccepted
    exact h.accepted n run hrun (.inl (haccepted.resolve_right Bool.false_ne_true))
  · intro seat' c' hconn
    simp only [SessionRun.setMember, Function.update_apply] at hconn
    split at hconn
    · next heq =>
      obtain rfl := Option.some.inj hconn
      exact heq ▸ h.handing c n seat hc
    · exact h.member n run seat' c' hrun hconn

/-- Every step of the server is recorded. -/
theorem step (h : t.Routed) (htidy : t.relay.Tidy) {event : RelayEvent}
    (hguard : NewKeys t (.relay event)) {s : RelayServer} (heffect : RelayEffect t.relay event s) :
    Routed ⟨s, t.log ++ t.entries event⟩ := by
  cases heffect with
  | create hserver hcreated =>
    simp only [entries, hcreated]
    exact h.startSession (Server.sessionKeys_created hserver hcreated).2 (hguard _ hcreated)
  | @accept _ _ id hserver hdelete hcreated haccepted =>
    have hset := h.setServer (Server.sessionKeys_kept hserver hcreated hdelete)
    simp only [entries, hcreated, haccepted]
    cases howner : t.relay.owners id with
    | none => simpa only [RelayServer.markAccepted, howner, List.append_nil] using hset
    | some n => exact hset.markAccepted howner
  | server hserver hdelete hcreated haccepted =>
    simp only [entries, hcreated, haccepted, List.append_nil]
    exact h.setServer (Server.sessionKeys_kept hserver hcreated hdelete)
  | run hrun hnext =>
    simp only [entries, List.append_nil]
    refine h.setRun ?_ (fun seat c hconn => h.member _ _ seat c hrun (SessionRun.conn_step hnext seat ▸ hconn))
    intro haccepted
    exact h.accepted _ _ hrun (SessionRun.accepted_of_step (htidy.valid _ _ hrun) hnext haccepted)
  | delete hrun hphase =>
    simp only [entries, List.append_nil]
    exact h.deleteSession htidy hrun hphase
  | addSessionClient =>
    simp only [entries, List.append_nil]
    exact h.addSessionClient
  | unreadable hc =>
    simp only [entries, List.append_nil]
    exact h.setClient _ _ (by simp [hc]) (by simp) (by simp) (by simp)
  | authenticate hc => exact h.authenticate hc
  | invalidKey hc =>
    simp only [entries, List.append_nil]
    exact h.setClient _ _ (by simp [hc]) (by simp) (by simp) (by simp)
  | @lookUp c key handle hc hkey =>
    simp only [entries, List.append_nil]
    refine h.setClient _ _ (by simp [hc]) (by simp) (by simp) ?_
    intro n seat heq
    obtain ⟨rfl, rfl⟩ := SessionClient.handing.inj heq
    obtain ⟨keys, hcreated, hhex⟩ := h.keyed _ _ hkey
    exact ⟨handle.id, keys, hcreated, hexEncode_injective hhex ▸ h.asking c key hc⟩
  | hand hc hrun hwaiting =>
    simp only [entries, List.append_nil]
    exact h.hand htidy hc hrun hwaiting
  | occupied hc =>
    simp only [entries, List.append_nil]
    exact h.setClient _ _ (by simp [hc]) (by simp) (by simp) (by simp)

end Routed

/-- The goroutine of a session finds it to be accepted without changing the server. -/
theorem markAccepted_server (s : RelayServer) (id : List Char) :
    (s.markAccepted id).server = s.server := by
  simp only [RelayServer.markAccepted]
  split
  · rfl
  · split <;> rfl

/-- No step panics, since the sessions that are deleted exist. -/
theorem booked_step {s next : RelayServer} {event : RelayEvent} (h : s.server.Booked)
    (htidy : s.Tidy) (heffect : RelayEffect s event next) : next.server.Booked := by
  cases heffect with
  | create hserver => exact h.step (Server.step_effect hserver)
  | accept hserver =>
    rw [markAccepted_server]
    exact h.step (Server.step_effect hserver)
  | server hserver => exact h.step (Server.step_effect hserver)
  | delete hrun hphase =>
    obtain ⟨-, session, hsession⟩ := htidy.session_of_deleting hrun hphase
    simp only [RelayServer.deleteSession, hsession]
    exact h.step (.deleteSession hsession)
  | run | addSessionClient | unreadable | authenticate | invalidKey | lookUp | hand | occupied => exact h

/-- What holds in every state reached with new keys. -/
theorem kept_of_reached {sessionPort : ℕ} {t : Traffic}
    (h : Reached step NewKeys (new sessionPort) t) :
    t.relay.server.Booked ∧ t.relay.Tidy ∧ t.Routed := by
  refine h.invariant (fun t => t.relay.server.Booked ∧ t.relay.Tidy ∧ t.Routed)
    ⟨Server.booked_new sessionPort, RelayServer.tidy_new sessionPort, Routed.new sessionPort⟩ ?_
  rintro t event u ⟨hbooked, htidy, hrouted⟩ hguard hstep
  cases event with
  | relay event =>
    obtain ⟨s, hs, rfl⟩ := Option.map_eq_some_iff.mp hstep
    have heffect := RelayServer.step_effect hs
    exact ⟨booked_step hbooked htidy heffect, htidy.step heffect, hrouted.step htidy hguard heffect⟩
  | forward n seat bytes =>
    simp only [step, Option.ite_none_left_eq_some] at hstep
    obtain ⟨heq, hnext⟩ := hrouted.forward hstep.2
    exact ⟨heq ▸ hbooked, heq ▸ htidy, hnext⟩

/-- A session in the table, with the number of its goroutine and the entries of its keys. -/
theorem Routed.session {t : Traffic} (h : t.Routed) {id : List Char} {session : SessionHandle}
    (hsession : t.relay.server.sessions id = some session) :
    ∃ n, t.relay.owners id = some n ∧ .created n id session.keys ∈ t.log ∧
      ∀ seat, t.relay.keys (hexEncode (keyAt session.keys seat)) = some ⟨id, n, seat⟩ :=
  h.listed id session.keys (by simp [Server.sessionKeys, hsession])

/-- An entry of the table of keys is that of one client of one session in the table of sessions. -/
theorem Routed.session_of_key {t : Traffic} (h : t.Routed) (htidy : t.relay.Tidy) {key : List Char}
    {handle : KeyHandle} (hkey : t.relay.keys key = some handle) :
    ∃ session, t.relay.server.sessions handle.id = some session ∧
      key = hexEncode (keyAt session.keys handle.seat) ∧
      ∀ id other seat, t.relay.server.sessions id = some other → key = hexEncode (keyAt other.keys seat) →
        id = handle.id ∧ seat = handle.seat := by
  obtain ⟨howner, keys, hkeys, -⟩ := htidy.keyed key handle hkey
  obtain ⟨session, hsession, rfl⟩ := Option.map_eq_some_iff.mp hkeys
  obtain ⟨n, howner', hcreated, -⟩ := h.session hsession
  obtain rfl := Option.some.inj (howner.symm.trans howner')
  obtain ⟨keys', hcreated', hhex⟩ := h.keyed key handle hkey
  obtain ⟨-, -, rfl⟩ := TrafficEntry.created.inj (eq_of_key h.justified hcreated' hcreated rfl rfl)
  refine ⟨session, hsession, hhex, ?_⟩
  intro id other seat hother heq
  obtain ⟨m, -, -, hplaces⟩ := h.session hother
  rw [heq, hplaces seat] at hkey
  obtain rfl := Option.some.inj hkey
  exact ⟨rfl, rfl⟩

/-- If no session key is handed out twice, then in every state reached: an entry of the table of
keys belongs to one of the two keys of one session in the table; a session in the table has two
keys, and exactly their entries; the server has not panicked; and bytes were forwarded only from a
connection that presented a key of a session to one that presented the other key of this session,
after the session was accepted. A session is created once, and a connection presents one key. -/
theorem session_isolation {sessionPort : ℕ} {t : Traffic}
    (h : Reached step NewKeys (new sessionPort) t) :
    (∀ key handle, t.relay.keys key = some handle →
      ∃ session, t.relay.server.sessions handle.id = some session ∧
        key = hexEncode (keyAt session.keys handle.seat) ∧
        ∀ id other seat, t.relay.server.sessions id = some other → key = hexEncode (keyAt other.keys seat) →
          id = handle.id ∧ seat = handle.seat) ∧
    (∀ id session, t.relay.server.sessions id = some session → session.keys.1 ≠ session.keys.2 ∧
      ∀ key, (∃ handle, t.relay.keys key = some handle ∧ handle.id = id) ↔
        key = hexEncode session.keys.1 ∨ key = hexEncode session.keys.2) ∧
    t.relay.server.isPanicked = false ∧
    (∀ before n source target bytes after, t.log = before ++ .forwarded n source target bytes :: after →
      ∃ id keys seat, .created n id keys ∈ before ∧ .accepted n ∈ before ∧
        .presented source (keyAt keys seat) ∈ before ∧ .presented target (keyAt keys seat.other) ∈ before) ∧
    (∀ n id id' keys keys', .created n id keys ∈ t.log → .created n id' keys' ∈ t.log → id = id' ∧ keys = keys') ∧
    ∀ c key key', .presented c key ∈ t.log → .presented c key' ∈ t.log → key = key' := by
  obtain ⟨hbooked, htidy, hrouted⟩ := kept_of_reached h
  refine ⟨?_, ?_, hbooked.running, ?_, ?_, ?_⟩
  · intro key handle hkey
    exact hrouted.session_of_key htidy hkey
  · intro id session hsession
    obtain ⟨n, -, hcreated, hplaces⟩ := hrouted.session hsession
    constructor
    · obtain ⟨before, after, -, -, hne, -⟩ := hrouted.justified.exists_of_mem hcreated
      exact hne
    · intro key
      constructor
      · rintro ⟨handle, hkey, rfl⟩
        obtain ⟨session', hsession', hhex, -⟩ := hrouted.session_of_key htidy hkey
        obtain rfl := Option.some.inj (hsession.symm.trans hsession')
        cases hseat : handle.seat with
        | first => exact .inl (by rw [hhex, hseat, keyAt])
        | second => exact .inr (by rw [hhex, hseat, keyAt])
      · rintro (rfl | rfl)
        · exact ⟨_, hplaces .first, rfl⟩
        · exact ⟨_, hplaces .second, rfl⟩
  · intro before n source target bytes after hlog
    exact (hrouted.justified before _ after hlog).2
  · intro n id id' keys keys' hcreated hcreated'
    exact (TrafficEntry.created.inj (eq_of_key hrouted.justified hcreated hcreated' rfl rfl)).2
  · intro c key key' hpresented hpresented'
    exact (TrafficEntry.presented.inj (eq_of_key hrouted.justified hpresented hpresented' rfl rfl)).2

/-- Two clients join a session, and the second one accepts it. -/
def joinedSession : List RelayEvent :=
  requestedSession ++ joinsSession 0 [7] .first ++ joinsSession 1 [8] .second ++
    [.run 0 .join, .server (.receive 1 (.acceptSession [1] [])), .server (.run 1 ([], [])), .run 0 .proceed]

/-- What the first client sends is forwarded to the second one. -/
theorem session_isolation_joined :
    ∃ t id keys seat, execute step NewKeys (joinedSession.map .relay ++ [.forward 0 .first [5]]) (new 80) = some t ∧
      .forwarded 0 0 1 [5] ∈ t.log ∧ .created 0 id keys ∈ t.log ∧ .accepted 0 ∈ t.log ∧
      .presented 0 (keyAt keys seat) ∈ t.log ∧ .presented 1 (keyAt keys seat.other) ∈ t.log := by
  have hreached : Reached step NewKeys (new 80) _ :=
    reached_of_execute (joinedSession.map .relay ++ [.forward 0 .first [5]]) rfl
  obtain ⟨id, keys, seat, hcreated, haccepted, hsource, htarget⟩ :=
    (session_isolation hreached).2.2.2.1 _ 0 0 1 [5] [] rfl
  exact ⟨_, id, keys, seat, rfl, List.mem_append_right _ List.mem_cons_self, List.mem_append_left _ hcreated,
    List.mem_append_left _ haccepted, List.mem_append_left _ hsource, List.mem_append_left _ htarget⟩

end Traffic

end ProjektCore.Relay
