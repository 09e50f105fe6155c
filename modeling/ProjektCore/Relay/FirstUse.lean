import ProjektCore.Relay.Traffic

/-!
# The first use of a session key

A connection to the session port is handed over only if the goroutine for its key receives at that
moment. If nobody receives, it is answered that a client with this key is connected already. The
record kept here tells which connection presented which key, and to which session it was handed
over: the answer is right unless the goroutine has not come to receive yet, or has found the time to
be over.
-/

namespace ProjektCore.Relay

open Foundation

/-- A connection is handed over if the goroutine for its key waits. -/
theorem RelayServer.handed_of_waiting {s t : RelayServer} {c n : ℕ} {seat : Seat} {run : SessionRun}
    (hc : s.clients c = some (.handing n seat)) (hrun : s.runs n = some run)
    (hwaiting : run.members seat = .waiting) (hstep : s.step (.hand c) = some t) :
    t.clients c = some .handed := by
  simp only [step, hc, hrun, hwaiting, Option.bind_eq_bind, Option.bind_some,
    Option.ite_none_left_eq_some, Option.some.injEq] at hstep
  obtain ⟨-, rfl⟩ := hstep
  exact Function.update_self ..

/-- A server with its sessions, the keys of the session of each goroutine, the key that each
connection has presented, and the goroutine and the client that it was handed over to. -/
structure KeyUse where
  relay : RelayServer
  keys : ℕ → Option (Bytes × Bytes)
  presented : ℕ → Option Bytes
  handedTo : ℕ → Option (ℕ × Seat)

namespace KeyUse

/-- A server without clients and sessions. -/
def new (sessionPort : ℕ) :
    KeyUse := ⟨.new sessionPort, fun _ => none, fun _ => none, fun _ => none⟩

/-- What is recorded of a step to a new state of the server. -/
def record (u : KeyUse) (s : RelayServer) : RelayEvent → KeyUse
  | .server event =>
    match RelayServer.created u.relay.server event with
    | some (_, keys) => ⟨s, Function.update u.keys u.relay.nextRun (some keys), u.presented, u.handedTo⟩
    | none => ⟨s, u.keys, u.presented, u.handedTo⟩
  | .authenticate c key => ⟨s, u.keys, Function.update u.presented c key, u.handedTo⟩
  | .hand c =>
    match u.relay.clients c, s.clients c with
    | some (.handing n seat), some .handed =>
      ⟨s, u.keys, u.presented, Function.update u.handedTo c (some (n, seat))⟩
    | _, _ => ⟨s, u.keys, u.presented, u.handedTo⟩
  | _ => ⟨s, u.keys, u.presented, u.handedTo⟩

/-- The record changes nothing in the server. -/
theorem record_relay (u : KeyUse) (s : RelayServer) (event : RelayEvent) :
    (u.record s event).relay = s := by
  simp only [record]
  split
  · split <;> rfl
  · rfl
  · split <;> rfl
  · rfl

/-- One step of the server, recorded. -/
def step (u : KeyUse) (event : RelayEvent) :
    Option KeyUse := (u.relay.step event).map fun s => u.record s event

/-- A connection has presented the key of a client of a session. -/
def Presents (u : KeyUse) (c n : ℕ) (seat : Seat) : Prop :=
  ∃ keys, u.keys n = some keys ∧ u.presented c = some (keyAt keys seat)

/-- The record agrees with the tables and the goroutines. -/
structure Recorded (u : KeyUse) : Prop where
  numbered : ∀ n keys, u.keys n = some keys → n < u.relay.nextRun
  keyed : ∀ key handle, u.relay.keys key = some handle →
    ∃ keys, u.keys handle.run = some keys ∧ key = hexEncode (keyAt keys handle.seat)
  unused : ∀ c, u.relay.nextClient ≤ c → u.relay.clients c = none
  asking : ∀ c key, u.relay.clients c = some (.asking key) → u.presented c = some key
  handing : ∀ c n seat, u.relay.clients c = some (.handing n seat) → u.Presents c n seat
  handed : ∀ c n seat, u.handedTo c = some (n, seat) → u.relay.clients c = some .handed ∧ u.Presents c n seat
  member : ∀ n run, u.relay.runs n = some run →
    ∀ seat c, (run.members seat).conn = some c ↔ u.handedTo c = some (n, seat)

namespace Recorded

variable {u : KeyUse}

/-- A server without sessions. -/
theorem new (sessionPort : ℕ) : (KeyUse.new sessionPort).Recorded where
  numbered := by simp [KeyUse.new]
  keyed := by simp [KeyUse.new, RelayServer.new]
  unused := by simp [KeyUse.new, RelayServer.new]
  asking := by simp [KeyUse.new, RelayServer.new]
  handing := by simp [KeyUse.new, RelayServer.new]
  handed := by simp [KeyUse.new]
  member := by simp [KeyUse.new, RelayServer.new]

/-- A connection in any other state has not been handed over. -/
theorem handedTo_eq_none (h : u.Recorded) {c : ℕ} (hc : u.relay.clients c ≠ some .handed) :
    u.handedTo c = none := by
  cases hto : u.handedTo c with
  | none => rfl
  | some place => exact absurd (h.handed c place.1 place.2 hto).1 hc

/-- A connection that has a goroutine was added before. -/
theorem lt_nextClient (h : u.Recorded) {c : ℕ} {client : SessionClient}
    (hc : u.relay.clients c = some client) :
    c < u.relay.nextClient := by
  by_contra hlt
  have hnone := h.unused c (Nat.le_of_not_lt hlt)
  simp [hnone] at hc

/-- A step of the server that creates no session. -/
theorem setServer (h : u.Recorded) (server : Server) :
    Recorded ⟨{ u.relay with server }, u.keys, u.presented, u.handedTo⟩ :=
  ⟨h.numbered, h.keyed, h.unused, h.asking, h.handing, h.handed, h.member⟩

/-- The goroutine of a session goes on with the same connections. -/
theorem setRun (h : u.Recorded) {n : ℕ} {run : SessionRun} (next : SessionRun)
    (hrun : u.relay.runs n = some run)
    (hconn : ∀ seat, (next.members seat).conn = (run.members seat).conn) :
    Recorded ⟨u.relay.setRun n next, u.keys, u.presented, u.handedTo⟩ := by
  refine ⟨h.numbered, h.keyed, h.unused, h.asking, h.handing, h.handed, ?_⟩
  intro m other hother seat c
  simp only [RelayServer.setRun, Function.update_apply] at hother
  split at hother
  · next heq =>
    obtain rfl := Option.some.inj hother
    rw [hconn, heq]
    exact h.member n run hrun seat c
  · exact h.member m other hother seat c

/-- The goroutine of a connection that was not handed over goes on, and may have read its key. -/
theorem setClient (h : u.Recorded) {c next : ℕ} (client : SessionClient) (key : Option Bytes)
    (hnext : u.relay.nextClient ≤ next) (hc : c < next) (hnot : u.relay.clients c ≠ some .handed)
    (hasking : ∀ k, client = .asking k → key = some k)
    (hhanding : ∀ n seat, client = .handing n seat → ∃ keys, u.keys n = some keys ∧ key = some (keyAt keys seat)) :
    Recorded ⟨{ u.relay.setClient c client with nextClient := next }, u.keys,
      Function.update u.presented c key, u.handedTo⟩ := by
  refine ⟨h.numbered, h.keyed, ?_, ?_, ?_, ?_, h.member⟩
  · intro other hother
    have hlt : c < other := hc.trans_le hother
    exact (Function.update_of_ne hlt.ne' ..).trans (h.unused other (hnext.trans hother))
  · intro other k hother
    simp only [RelayServer.setClient, Function.update_apply] at hother ⊢
    split at hother
    · next heq => rw [if_pos heq, hasking k (Option.some.inj hother)]
    · next hne => rw [if_neg hne, h.asking other k hother]
  · intro other n seat hother
    simp only [RelayServer.setClient, Function.update_apply, Presents] at hother ⊢
    split at hother
    · next heq =>
      rw [if_pos heq]
      exact hhanding n seat (Option.some.inj hother)
    · next hne =>
      rw [if_neg hne]
      exact h.handing other n seat hother
  · intro other n seat hother
    obtain ⟨hhanded, hpresents⟩ := h.handed other n seat hother
    have hne : other ≠ c := by
      rintro rfl
      exact hnot hhanded
    simp only [RelayServer.setClient, Presents, Function.update_of_ne hne]
    exact ⟨hhanded, hpresents⟩

/-- The goroutine of a connection goes on without reading a key. -/
theorem setClient_same (h : u.Recorded) {c : ℕ} {now : SessionClient} (client : SessionClient)
    (hc : u.relay.clients c = some now) (hnot : now ≠ .handed) (hasking : ∀ k, client ≠ .asking k)
    (hhanding : ∀ n seat, client = .handing n seat → u.Presents c n seat) :
    Recorded ⟨u.relay.setClient c client, u.keys, u.presented, u.handedTo⟩ := by
  have hset := h.setClient client (u.presented c) le_rfl (h.lt_nextClient hc)
    (by simpa [hc] using hnot) (fun k heq => absurd heq (hasking k)) hhanding
  rwa [Function.update_eq_self] at hset

/-- A session is created. -/
theorem startSession (h : u.Recorded) (server : Server) (id : List Char) (keys : Bytes × Bytes) :
    Recorded ⟨RelayServer.startSession { u.relay with server } id keys,
      Function.update u.keys u.relay.nextRun (some keys), u.presented, u.handedTo⟩ := by
  have hold {n : ℕ} {old : Bytes × Bytes} (hn : u.keys n = some old) :
      Function.update u.keys u.relay.nextRun (some keys) n = some old := by
    rw [Function.update_of_ne (h.numbered n old hn).ne, hn]
  have hpresents {c n : ℕ} {seat : Seat} (hn : u.Presents c n seat) :
      ∃ old, Function.update u.keys u.relay.nextRun (some keys) n = some old ∧
        u.presented c = some (keyAt old seat) := by
    obtain ⟨old, hkeys, hpresented⟩ := hn
    exact ⟨old, hold hkeys, hpresented⟩
  refine ⟨?_, ?_, h.unused, h.asking, ?_, ?_, ?_⟩
  · intro n old hn
    simp only [Function.update_apply] at hn
    split at hn
    · next heq =>
      rw [heq]
      exact Nat.lt_succ_self _
    · exact (h.numbered n old hn).trans (Nat.lt_succ_self _)
  · intro key handle hkey
    simp only [RelayServer.startSession, Function.update_apply] at hkey
    split at hkey
    · next heq =>
      obtain rfl := Option.some.inj hkey
      exact ⟨keys, Function.update_self .., heq⟩
    · split at hkey
      · next heq =>
        obtain rfl := Option.some.inj hkey
        exact ⟨keys, Function.update_self .., heq⟩
      · obtain ⟨old, hkeys, heq⟩ := h.keyed key handle hkey
        exact ⟨old, hold hkeys, heq⟩
  · intro c n seat hc
    exact hpresents (h.handing c n seat hc)
  · intro c n seat hc
    obtain ⟨hhanded, hn⟩ := h.handed c n seat hc
    exact ⟨hhanded, hpresents hn⟩
  · intro n run hrun seat c
    simp only [RelayServer.startSession, Function.update_apply] at hrun
    split at hrun
    · next heq =>
      -- nothing was handed over to a goroutine that has just been started
      obtain rfl := Option.some.inj hrun
      refine iff_of_false (by simp [SessionRun.new, Member.conn]) ?_
      intro hto
      obtain ⟨old, hkeys, -⟩ := (h.handed c n seat hto).2
      exact absurd (h.numbered n old hkeys) (by omega)
    · exact h.member n run hrun seat c

/-- A session is deleted, with its keys. -/
theorem deleteSession (h : u.Recorded) {n : ℕ} {run : SessionRun}
    (hrun : u.relay.runs n = some run) :
    Recorded ⟨u.relay.deleteSession n run, u.keys, u.presented, u.handedTo⟩ := by
  have hreturned := h.setRun { run with phase := .returned } hrun (fun _ => rfl)
  simp only [RelayServer.deleteSession]
  split
  · exact h.setServer _
  · refine ⟨hreturned.numbered, ?_, hreturned.unused, hreturned.asking, hreturned.handing, hreturned.handed,
      hreturned.member⟩
    intro key handle hkey
    simp only [Function.update_apply] at hkey
    split at hkey
    · cases hkey
    · split at hkey
      · cases hkey
      · exact h.keyed key handle hkey

/-- A session is accepted. -/
theorem markAccepted (h : u.Recorded) (id : List Char) :
    Recorded ⟨u.relay.markAccepted id, u.keys, u.presented, u.handedTo⟩ := by
  simp only [RelayServer.markAccepted]
  split
  · exact h
  · split
    · exact h
    · next run hrun => exact h.setRun _ hrun (fun _ => rfl)

/-- A connection is handed over to the goroutine that waits for its key. -/
theorem hand (h : u.Recorded) {c n : ℕ} {seat : Seat} {run : SessionRun}
    (hc : u.relay.clients c = some (.handing n seat)) (hrun : u.relay.runs n = some run)
    (hwaiting : run.members seat = .waiting) :
    Recorded ⟨(u.relay.setClient c .handed).setRun n (run.setMember seat (.responding c)), u.keys, u.presented,
      Function.update u.handedTo c (some (n, seat))⟩ := by
  have hset := h.setClient_same .handed hc (by simp) (by simp) (by simp)
  have hnot : u.handedTo c = none := h.handedTo_eq_none (by simp [hc])
  refine ⟨h.numbered, h.keyed, hset.unused, hset.asking, hset.handing, ?_, ?_⟩
  · intro other m place hto
    simp only [Function.update_apply] at hto
    split at hto
    · next heq =>
      obtain ⟨rfl, rfl⟩ := Prod.mk.inj (Option.some.inj hto)
      rw [heq]
      exact ⟨Function.update_self .., h.handing c n seat hc⟩
    · exact hset.handed other m place hto
  · intro m other hother place d
    have hmember := h.member m
    simp only [RelayServer.setRun, Function.update_apply] at hother ⊢
    by_cases hm : m = n
    · subst hm
      rw [if_pos rfl] at hother
      obtain rfl := Option.some.inj hother
      simp only [SessionRun.setMember, Function.update_apply]
      by_cases hplace : place = seat
      · subst hplace
        have hbefore := hmember run hrun place d
        rw [hwaiting] at hbefore
        by_cases hd : d = c
        · simp [hd, Member.conn]
        · simp only [if_true, if_neg hd, ← hbefore]
          simp [Member.conn, Ne.symm hd]
      · rw [if_neg hplace, hmember run hrun place d]
        by_cases hd : d = c
        · simp [hd, hnot, Ne.symm hplace]
        · rw [if_neg hd]
    · rw [if_neg hm] at hother
      rw [hmember other hother place d]
      by_cases hd : d = c
      · simp [hd, hnot, Ne.symm hm]
      · rw [if_neg hd]

/-- Every step of the server is recorded. -/
theorem step (h : u.Recorded) {event : RelayEvent} {s : RelayServer}
    (heffect : RelayEffect u.relay event s) :
    (u.record s event).Recorded := by
  cases heffect with
  | create _ hcreated =>
    simp only [record, hcreated]
    exact h.startSession _ _ _
  | accept _ _ hcreated =>
    simp only [record, hcreated]
    exact (h.setServer _).markAccepted _
  | server _ _ hcreated =>
    simp only [record, hcreated]
    exact h.setServer _
  | run hrun hnext => exact h.setRun _ hrun (SessionRun.conn_step hnext)
  | delete hrun => exact h.deleteSession hrun
  | addSessionClient =>
    have hnone := h.unused _ le_rfl
    have hset := h.setClient .reading (u.presented u.relay.nextClient) (Nat.le_succ _) (Nat.lt_succ_self _)
      (by simp [hnone]) (by simp) (by simp)
    rwa [Function.update_eq_self] at hset
  | unreadable hc => exact h.setClient _ _ le_rfl (h.lt_nextClient hc) (by simp [hc]) (by simp) (by simp)
  | authenticate hc => exact h.setClient _ _ le_rfl (h.lt_nextClient hc) (by simp [hc]) (by simp) (by simp)
  | invalidKey hc => exact h.setClient_same _ hc (by simp) (by simp) (by simp)
  | @lookUp c key handle hc hkey =>
    refine h.setClient_same _ hc (by simp) (by simp) ?_
    intro n seat heq
    obtain ⟨rfl, rfl⟩ := SessionClient.handing.inj heq
    obtain ⟨keys, hkeys, hhex⟩ := h.keyed _ _ hkey
    exact ⟨keys, hkeys, hexEncode_injective hhex ▸ h.asking c key hc⟩
  | @hand c n seat run hc hrun hwaiting =>
    have hhanded : ((u.relay.setClient c .handed).setRun n (run.setMember seat (.responding c))).clients c =
        some .handed := Function.update_self ..
    simp only [record, hc, hhanded]
    exact h.hand hc hrun hwaiting
  | @occupied c n seat hc =>
    have hrefused : (u.relay.setClient c (.refused .alreadyConnected)).clients c =
        some (.refused .alreadyConnected) := Function.update_self ..
    simp only [record, hc, hrefused]
    exact h.setClient_same _ hc (by simp) (by simp) (by simp)

end Recorded

/-- In every state of every run the record agrees with the server. -/
theorem recorded_of_reached {sessionPort : ℕ} {u : KeyUse}
    (h : Reached step anyStep (new sessionPort) u) :
    u.Recorded := by
  refine h.invariant Recorded (Recorded.new sessionPort) ?_
  intro u event u' hu _ hstep
  obtain ⟨s, hs, rfl⟩ := Option.map_eq_some_iff.mp hstep
  exact hu.step (RelayServer.step_effect hs)

/-- For every connection that is answered that a client with its key is connected already, in any
run: it has presented the key of a client of a session, and another connection that presented this
key was handed over to this session before exactly if the goroutine for the client has come to
receive and has not found the time to be over. -/
theorem already_connected_iff (sessionPort : ℕ) (u u' : KeyUse) (c n : ℕ) (seat : Seat)
    (run : SessionRun) (h : Reached step anyStep (new sessionPort) u)
    (hc : u.relay.clients c = some (.handing n seat)) (hrun : u.relay.runs n = some run)
    (hstep : u.step (.hand c) = some u')
    (hanswer : u'.relay.clients c = some (.refused .alreadyConnected)) :
    u.Presents c n seat ∧
      ((∃ c', c' ≠ c ∧ u.presented c' = u.presented c ∧ u.handedTo c' = some (n, seat)) ↔
        run.members seat ≠ .starting ∧ run.members seat ≠ .timedOut) := by
  have hrecorded := recorded_of_reached h
  obtain ⟨keys, hkeys, hpresented⟩ := hrecorded.handing c n seat hc
  refine ⟨⟨keys, hkeys, hpresented⟩, ?_⟩
  have hmember := hrecorded.member n run hrun seat
  constructor
  · rintro ⟨c', -, -, hto⟩
    have hconn := (hmember c').mpr hto
    constructor
    · intro hstarting
      simp [hstarting, Member.conn] at hconn
    · intro htimedOut
      simp [htimedOut, Member.conn] at hconn
  · rintro ⟨hstarting, htimedOut⟩
    have hfound {c' : ℕ} (hconn : (run.members seat).conn = some c') :
        ∃ c', c' ≠ c ∧ u.presented c' = u.presented c ∧ u.handedTo c' = some (n, seat) := by
      have hto := (hmember c').mp hconn
      obtain ⟨hhanded, keys', hkeys', hpresented'⟩ := hrecorded.handed c' n seat hto
      obtain rfl := Option.some.inj (hkeys.symm.trans hkeys')
      refine ⟨c', ?_, hpresented'.trans hpresented.symm, hto⟩
      rintro rfl
      simp [hc] at hhanded
    cases hseat : run.members seat with
    | starting => exact absurd hseat hstarting
    | timedOut => exact absurd hseat htimedOut
    | waiting =>
      -- the goroutine would have received the connection
      obtain ⟨s, hs, rfl⟩ := Option.map_eq_some_iff.mp hstep
      rw [record_relay, RelayServer.handed_of_waiting hc hrun hseat hs] at hanswer
      cases hanswer
    | responding c' | joined c' | unanswered c' => exact hfound (by rw [hseat]; rfl)

/-- A second connection presents the key of the first one, which was handed over. -/
theorem already_connected_iff_second :
    ∃ u u' : KeyUse, Reached step anyStep (new 80) u ∧ u.step (.hand 1) = some u' ∧
      u'.relay.clients 1 = some (.refused .alreadyConnected) ∧ u.presented 1 = some [7] ∧
      ∃ c, c ≠ 1 ∧ u.presented c = some [7] ∧ u.handedTo c = some (0, .first) := by
  have hreached : Reached step anyStep (new 80) _ :=
    reached_of_execute (requestedSession ++ joinsSession 0 [7] .first ++
      [.addSessionClient, .authenticate 1 (some [7]), .lookUp 1]) rfl
  refine ⟨_, _, hreached, rfl, rfl, rfl, ?_⟩
  refine (already_connected_iff 80 _ _ 1 0 .first _ hreached rfl rfl rfl rfl).2.mpr ⟨?_, ?_⟩
  · exact Member.noConfusion
  · exact Member.noConfusion

/-- The two clients of a session do not connect in time. -/
def lateSession : List RelayEvent :=
  requestedSession ++ [.run 0 .expire, .run 0 (.giveUp .first), .run 0 (.giveUp .second), .run 0 .join]

/-- The first client connects then: it is answered that it is connected already, and no connection
was handed over to any session. -/
theorem first_use_refused :
    ∃ u u' : KeyUse, execute step anyStep
        (lateSession ++ [.addSessionClient, .authenticate 0 (some [7]), .lookUp 0]) (new 80) = some u ∧
      u.keys 0 = some ([7], [8]) ∧ u.presented 0 = some [7] ∧ u.step (.hand 0) = some u' ∧
      u'.relay.clients 0 = some (.refused .alreadyConnected) ∧ ∀ c, u'.handedTo c = none :=
  ⟨_, _, rfl, rfl, rfl, rfl, rfl, fun _ => rfl⟩

end KeyUse

end ProjektCore.Relay
