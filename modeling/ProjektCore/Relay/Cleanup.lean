import ProjektCore.Foundation.Runs
import ProjektCore.Relay.ServerEffect
import ProjektCore.Relay.SessionEffect

/-!
# What a session leaves behind

A session is in the tables from its creation until its goroutine sends it to be deleted. The
goroutine does so only after both clients have connected: if one of them does not arrive in time, or
cannot be answered, it returns without a message to the owner of the tables, and the session stays
there.
-/

namespace ProjektCore.Relay

open Foundation

/-- The keys of the session with an identifier, if there is one. -/
def Server.sessionKeys (s : Server) (id : List Char) :
    Option (Bytes × Bytes) := (s.sessions id).map SessionHandle.keys

/-- A server without clients has no sessions. -/
theorem Server.sessionKeys_new (sessionPort : ℕ) (id : List Char) :
    (Server.new sessionPort).sessionKeys id = none := rfl

/-- A session that is created was not in the table, and is the only one added to it. -/
theorem Server.sessionKeys_created {s t : Server} {event : ServerEvent} {id : List Char}
    {keys : Bytes × Bytes} (h : s.step event = some t)
    (hcreated : RelayServer.created s event = some (id, keys)) :
    s.sessionKeys id = none ∧ t.sessionKeys = Function.update s.sessionKeys id (some keys) := by
  cases step_effect h with
  | create hhandler hnone =>
    simp only [RelayServer.created, hhandler, hnone, Option.some.injEq, Prod.mk.injEq] at hcreated
    obtain ⟨rfl, rfl⟩ := hcreated
    refine ⟨by simp [sessionKeys, hnone], ?_⟩
    funext other
    simp only [sessionKeys, goWrite, Function.update_apply]
    split <;> rfl
  | sessionExists hhandler hsome => simp [RelayServer.created, hhandler, hsome] at hcreated
  | noTarget hhandler | findTarget hhandler | unknownSession hhandler | alreadyAccepted hhandler | accept hhandler
  | noInitiator hhandler | notify hhandler | deleteClient hhandler | panic hhandler =>
    simp [RelayServer.created, hhandler] at hcreated
  | reject | add | writeFails | write | greet | receive | disconnect | deleteSession =>
    simp [RelayServer.created] at hcreated

/-- Without a new session a step keeps the sessions, apart from the deletion of one. -/
theorem Server.sessionKeys_kept {s t : Server} {event : ServerEvent} (h : s.step event = some t)
    (hcreated : RelayServer.created s event = none) (hdelete : ∀ id, event ≠ .deleteSession id) :
    t.sessionKeys = s.sessionKeys := by
  cases step_effect h with
  | create hhandler hnone => simp [RelayServer.created, hhandler, hnone] at hcreated
  | accept hhandler hsome =>
    funext other
    simp only [sessionKeys, Function.update_apply]
    split
    · next heq => simp [heq, hsome]
    · rfl
  | deleteSession => exact absurd rfl (hdelete _)
  | reject | add | writeFails | write | greet | receive | disconnect | noTarget | findTarget | sessionExists
  | unknownSession | alreadyAccepted | noInitiator | notify | deleteClient | panic => rfl

namespace SessionRun

/-- Whether the goroutine has returned after both clients were connected. -/
def isOver (run : SessionRun) : Bool := run.phase = .returned && run.hasBoth

/-- While a client is waited for, the goroutine joins; from then until it returns both are
connected. -/
structure Valid (run : SessionRun) : Prop where
  settled : ∀ seat, (run.members seat).isSettled = false → run.phase = .joining
  both : run.phase ≠ .joining → run.phase ≠ .returned → run.hasBoth = true

/-- What a step that does not delete the session does to its goroutine. -/
structure Follows (run next : SessionRun) : Prop where
  valid : next.Valid
  id : next.id = run.id
  isOver : next.isOver = run.isOver

variable {run next : SessionRun}

/-- Whether both clients are connected does not depend on the phase. -/
theorem hasBoth_phase (run : SessionRun) (phase : RunPhase) :
    hasBoth { run with phase } = run.hasBoth := rfl

/-- A goroutine that has just been started. -/
theorem valid_new (id : List Char) : (new id).Valid := ⟨fun _ _ => rfl, fun h => absurd rfl h⟩

/-- The goroutine for a client goes on. -/
theorem Valid.setMember (h : run.Valid) {seat : Seat} (hseat : (run.members seat).isSettled = false)
    (member : Member) : run.Follows (run.setMember seat member) := by
  have hphase := h.settled seat hseat
  refine ⟨⟨fun _ _ => hphase, fun hjoining => absurd hphase hjoining⟩, rfl, ?_⟩
  simp [SessionRun.isOver, SessionRun.setMember, hphase]

/-- A change that keeps the clients, and that returns only if the goroutine has returned. -/
theorem Valid.setPhase (h : run.Valid) (hid : next.id = run.id)
    (hmembers : next.members = run.members)
    (hsettled : run.phase = .joining → next.phase = .joining)
    (hreturned : next.phase = .returned ↔ run.phase = .returned) : run.Follows next := by
  have hboth : next.hasBoth = run.hasBoth := by simp only [hasBoth, hmembers]
  refine ⟨⟨fun seat hseat => hsettled (h.settled seat (hmembers ▸ hseat)), fun hnext hnot => ?_⟩, hid, ?_⟩
  · rw [hboth]
    exact h.both (fun hphase => hnext (hsettled hphase)) (fun hphase => hnot (hreturned.mpr hphase))
  · simp only [SessionRun.isOver, hboth, hreturned]

/-- Once the goroutines of both clients have returned, the session goes on or ends without its
clients. -/
theorem follows_join (hphase : run.phase = .joining)
    (hfirst : (run.members .first).isSettled = true)
    (hsecond : (run.members .second).isSettled = true) :
    run.Follows { run with phase := if run.hasBoth then .awaiting else .returned } := by
  refine ⟨⟨fun seat hseat => ?_, fun _ hnot => ?_⟩, rfl, ?_⟩
  · cases seat with
    | first => exact absurd hseat (by simp [hfirst])
    | second => exact absurd hseat (by simp [hsecond])
  · by_contra hboth
    exact hnot (if_neg hboth)
  · simp only [SessionRun.isOver, hasBoth_phase, hphase]
    cases run.hasBoth <;> rfl

/-- Every step of the goroutine is one that does not delete the session. -/
theorem Valid.step (h : run.Valid) {event : RunEvent} (hstep : run.step event = some next) :
    run.Follows next := by
  cases step_effect hstep with
  | listen hseat | giveUp hseat | respond hseat => exact h.setMember (by rw [hseat]; rfl) _
  | expire | endRelay => exact h.setPhase rfl rfl (fun hphase => hphase) Iff.rfl
  | join hphase hfirst hsecond => exact follows_join hphase hfirst hsecond
  | proceed hphase | leave hphase => exact h.setPhase rfl rfl (by simp [hphase]) (by simp [hphase])

end SessionRun

namespace RelayServer

/-- The sessions in the tables are those of the goroutines that are not over. -/
structure Tidy (s : RelayServer) : Prop where
  valid : ∀ n run, s.runs n = some run → run.Valid
  fresh : ∀ n, s.nextRun ≤ n → s.runs n = none
  owned : ∀ id n, s.owners id = some n → ∃ run, s.runs n = some run ∧ run.id = id ∧ run.isOver = false
  owner : ∀ n run, s.runs n = some run → run.isOver = false → s.owners run.id = some n
  listed : ∀ id, s.owners id = none ↔ s.server.sessionKeys id = none
  keyed : ∀ key handle, s.keys key = some handle → s.owners handle.id = some handle.run ∧
    ∃ keys, s.server.sessionKeys handle.id = some keys ∧ (key = hexEncode keys.1 ∨ key = hexEncode keys.2)

variable {s t : RelayServer}

/-- A server without sessions. -/
theorem tidy_new (sessionPort : ℕ) : (new sessionPort).Tidy where
  valid := by simp [new]
  fresh := by simp [new]
  owned := by simp [new]
  owner := by simp [new]
  listed := by simp [new, Server.sessionKeys_new]
  keyed := by simp [new]

/-- Setting a goroutine to a valid one keeps all of them valid. -/
theorem Tidy.setRun_valid (h : s.Tidy) {n : ℕ} {next : SessionRun} (hnext : next.Valid) (m : ℕ)
    (run : SessionRun) (hrun : (s.setRun n next).runs m = some run) : run.Valid := by
  simp only [RelayServer.setRun, Function.update_apply] at hrun
  split at hrun
  · obtain rfl := Option.some.inj hrun
    exact hnext
  · exact h.valid m run hrun

/-- Setting a goroutine that was started starts no other one. -/
theorem Tidy.setRun_fresh (h : s.Tidy) {n : ℕ} {run : SessionRun} (hrun : s.runs n = some run)
    (next : SessionRun) (m : ℕ) (hm : s.nextRun ≤ m) : (s.setRun n next).runs m = none := by
  have hne : m ≠ n := by
    rintro rfl
    simp [h.fresh m hm] at hrun
  simp only [RelayServer.setRun, Function.update_of_ne hne]
  exact h.fresh m hm

/-- The goroutine of a session goes on. -/
theorem Tidy.setRun (h : s.Tidy) {n : ℕ} {run next : SessionRun} (hrun : s.runs n = some run)
    (hnext : run.Follows next) : (s.setRun n next).Tidy where
  valid := h.setRun_valid hnext.valid
  fresh := h.setRun_fresh hrun next
  owned := by
    intro id m hid
    obtain ⟨other, hother, hotherId, hover⟩ := h.owned id m hid
    by_cases hm : m = n
    · subst hm
      obtain rfl := Option.some.inj (hrun.symm.trans hother)
      exact ⟨next, by simp [RelayServer.setRun], hnext.id.trans hotherId, hnext.isOver.trans hover⟩
    · exact ⟨other, by simp [RelayServer.setRun, Function.update_of_ne hm, hother], hotherId, hover⟩
  owner := by
    intro m other hother hover
    simp only [RelayServer.setRun, Function.update_apply] at hother
    split at hother
    · next hm =>
      obtain rfl := Option.some.inj hother
      rw [hm, hnext.id]
      exact h.owner n run hrun (hnext.isOver.symm.trans hover)
    · exact h.owner m other hother hover
  listed := h.listed
  keyed := h.keyed

/-- The connections to the session port do not matter. -/
theorem Tidy.setClient (h : s.Tidy) (c : ℕ) (client : SessionClient) :
    (s.setClient c client).Tidy :=
  ⟨h.valid, h.fresh, h.owned, h.owner, h.listed, h.keyed⟩

/-- A step of the server that keeps the sessions. -/
theorem Tidy.setServer (h : s.Tidy) {server : Server}
    (hkeys : server.sessionKeys = s.server.sessionKeys) :
    Tidy { s with server := server } :=
  ⟨h.valid, h.fresh, h.owned, h.owner, fun id => hkeys ▸ h.listed id,
    fun key handle hkey => hkeys ▸ h.keyed key handle hkey⟩

/-- A session is accepted. -/
theorem Tidy.markAccepted (h : s.Tidy) (id : List Char) : (s.markAccepted id).Tidy := by
  simp only [RelayServer.markAccepted]
  split
  · exact h
  · next n hn =>
    split
    · exact h
    · next run hrun => exact h.setRun hrun ((h.valid n run hrun).setPhase rfl rfl (fun hphase => hphase) Iff.rfl)

/-- A session is created. -/
theorem Tidy.startSession (h : s.Tidy) {server : Server} {id : List Char} {keys : Bytes × Bytes}
    (hnone : s.server.sessionKeys id = none)
    (hserver : server.sessionKeys = Function.update s.server.sessionKeys id (some keys)) :
    (RelayServer.startSession { s with server := server } id keys).Tidy := by
  have hfree : s.owners id = none := (h.listed id).mpr hnone
  have hne {other : List Char} {n : ℕ} (hother : s.owners other = some n) : other ≠ id := by
    rintro rfl
    simp [hfree] at hother
  have hold {m : ℕ} {run : SessionRun} (hrun : s.runs m = some run) : m ≠ s.nextRun := by
    rintro rfl
    simp [h.fresh s.nextRun le_rfl] at hrun
  constructor
  case valid =>
    intro m run hrun
    simp only [RelayServer.startSession, Function.update_apply] at hrun
    split at hrun
    · obtain rfl := Option.some.inj hrun
      exact SessionRun.valid_new id
    · exact h.valid m run hrun
  case fresh =>
    intro m hm
    simp only [RelayServer.startSession] at hm
    have hlt : s.nextRun < m := hm
    simp only [RelayServer.startSession, Function.update_of_ne hlt.ne']
    exact h.fresh m hlt.le
  case owned =>
    intro other m hother
    simp only [RelayServer.startSession, Function.update_apply] at hother
    split at hother
    · next heq =>
      obtain rfl := Option.some.inj hother
      exact ⟨.new id, by simp [RelayServer.startSession], heq.symm, rfl⟩
    · obtain ⟨run, hrun, hid, hover⟩ := h.owned other m hother
      exact ⟨run, by simp [RelayServer.startSession, Function.update_of_ne (hold hrun), hrun], hid, hover⟩
  case owner =>
    intro m run hrun hover
    simp only [RelayServer.startSession, Function.update_apply] at hrun ⊢
    split at hrun
    · next hm =>
      obtain rfl := Option.some.inj hrun
      simp [SessionRun.new, hm]
    · have howner := h.owner m run hrun hover
      rw [if_neg (hne howner)]
      exact howner
  case listed =>
    intro other
    simp only [RelayServer.startSession, hserver, Function.update_apply]
    split
    · simp
    · exact h.listed other
  case keyed =>
    intro key handle hkey
    simp only [RelayServer.startSession, hserver, Function.update_apply] at hkey ⊢
    split at hkey
    · next hsecond =>
      obtain rfl := Option.some.inj hkey
      simp [hsecond]
    · split at hkey
      · next hfirst =>
        obtain rfl := Option.some.inj hkey
        simp [hfirst]
      · obtain ⟨howner, found⟩ := h.keyed key handle hkey
        rw [if_neg (hne howner), if_neg (hne howner)]
        exact ⟨howner, found⟩

/-- A session that is sent to be deleted is in the table. -/
theorem Tidy.session_of_deleting (h : s.Tidy) {n : ℕ} {run : SessionRun}
    (hrun : s.runs n = some run) (hphase : run.phase = .deleting) :
    s.owners run.id = some n ∧ ∃ handle, s.server.sessions run.id = some handle := by
  have howner : s.owners run.id = some n := h.owner n run hrun (by simp [SessionRun.isOver, hphase])
  refine ⟨howner, ?_⟩
  apply Option.ne_none_iff_exists'.mp
  intro hnone
  have hfree := (h.listed run.id).mpr (by simp [Server.sessionKeys, hnone])
  simp [howner] at hfree

/-- A session is deleted. -/
theorem Tidy.deleteSession (h : s.Tidy) {n : ℕ} {run : SessionRun} (hrun : s.runs n = some run)
    (hphase : run.phase = .deleting) : (s.deleteSession n run).Tidy := by
  obtain ⟨howner, session, hsession⟩ := h.session_of_deleting hrun hphase
  have hvalid := h.valid n run hrun
  have hboth : run.hasBoth = true := hvalid.both (by simp [hphase]) (by simp [hphase])
  have hover : SessionRun.isOver { run with phase := .returned } = true := hboth
  have hreturned : SessionRun.Valid { run with phase := .returned } := by
    refine ⟨fun seat hseat => ?_, fun _ hnot => absurd rfl hnot⟩
    have hjoining := hvalid.settled seat hseat
    simp [hphase] at hjoining
  simp only [RelayServer.deleteSession, hsession]
  constructor
  case valid => exact h.setRun_valid hreturned
  case fresh => exact h.setRun_fresh hrun _
  case owned =>
    intro id m hid
    simp only [Function.update_apply] at hid
    split at hid
    · simp at hid
    · next hne =>
      obtain ⟨other, hother, hotherId, hotherOver⟩ := h.owned id m hid
      have hm : m ≠ n := by
        rintro rfl
        obtain rfl := Option.some.inj (hrun.symm.trans hother)
        exact hne hotherId.symm
      exact ⟨other, by simp [RelayServer.setRun, Function.update_of_ne hm, hother], hotherId, hotherOver⟩
  case owner =>
    intro m other hother hotherOver
    simp only [RelayServer.setRun, Function.update_apply] at hother ⊢
    split at hother
    · obtain rfl := Option.some.inj hother
      simp [hover] at hotherOver
    · next hm =>
      have hotherOwner := h.owner m other hother hotherOver
      rw [if_neg, hotherOwner]
      intro heq
      rw [heq, howner] at hotherOwner
      exact hm (Option.some.inj hotherOwner).symm
  case listed =>
    intro id
    simp only [Server.sessionKeys, Function.update_apply]
    split
    · simp
    · exact h.listed id
  case keyed =>
    intro key handle hkey
    simp only [Server.sessionKeys, Function.update_apply] at hkey ⊢
    split at hkey
    · simp at hkey
    · next hsecond =>
      split at hkey
      · simp at hkey
      · next hfirst =>
        obtain ⟨hhandle, keys, hkeys, hat⟩ := h.keyed key handle hkey
        -- an entry of the deleted session would be at one of the two keys that are deleted with it
        have hne : handle.id ≠ run.id := by
          intro heq
          rw [heq, Server.sessionKeys, hsession, Option.map_some, Option.some.injEq] at hkeys
          subst hkeys
          exact hat.elim hfirst hsecond
        rw [if_neg hne, if_neg hne]
        exact ⟨hhandle, keys, hkeys, hat⟩

/-- Every step keeps the tables tidy. -/
theorem Tidy.step (h : s.Tidy) {event : RelayEvent} (heffect : RelayEffect s event t) : t.Tidy := by
  cases heffect with
  | create hserver hcreated =>
    obtain ⟨hnone, hkeys⟩ := Server.sessionKeys_created hserver hcreated
    exact h.startSession hnone hkeys
  | accept hserver hdelete hcreated =>
    exact (h.setServer (Server.sessionKeys_kept hserver hcreated hdelete)).markAccepted _
  | server hserver hdelete hcreated => exact h.setServer (Server.sessionKeys_kept hserver hcreated hdelete)
  | run hrun hnext => exact h.setRun hrun ((h.valid _ _ hrun).step hnext)
  | delete hrun hphase => exact h.deleteSession hrun hphase
  | addSessionClient => exact ⟨h.valid, h.fresh, h.owned, h.owner, h.listed, h.keyed⟩
  | unreadable | authenticate | invalidKey | lookUp | occupied => exact h.setClient _ _
  | hand _ hrun hwaiting =>
    exact (h.setClient _ .handed).setRun hrun ((h.valid _ _ hrun).setMember (by rw [hwaiting]; rfl) _)

/-- The session of a goroutine is in the table of sessions, or a key of it in the table of keys. -/
def Remains (s : RelayServer) (n : ℕ) : Prop :=
  (∃ id handle, s.server.sessions id = some handle ∧ s.owners id = some n) ∨
    ∃ key handle, s.keys key = some handle ∧ handle.run = n

/-- The request of a client is answered with the error that the session of a goroutine exists. -/
def Refuses (s : RelayServer) (n conn : ℕ) : Prop :=
  ∃ identity target data targetConn, s.server.handlers conn = some (identity, .create target data targetConn) ∧
    s.owners (newSessionIdentifier identity target) = some n ∧
    ∀ keys, ∃ t, s.step (.server (.run conn keys)) = some t ∧
      t.server.writes = s.server.writes ++ [⟨conn, .sessionFailed .sessionExists target, .plain⟩]

/-- A goroutine whose session is in a table owns it. -/
theorem Tidy.owner_of_remains (h : s.Tidy) {n : ℕ} (hn : s.Remains n) :
    ∃ id, s.owners id = some n := by
  rcases hn with ⟨id, -, -, howner⟩ | ⟨key, handle, hkey, rfl⟩
  · exact ⟨id, howner⟩
  · exact ⟨handle.id, (h.keyed key handle hkey).1⟩

/-- A goroutine that is not over has its session in the table. -/
theorem Tidy.remains_of_not_over (h : s.Tidy) {n : ℕ} {run : SessionRun}
    (hrun : s.runs n = some run) (hover : run.isOver = false) : s.Remains n := by
  have howner := h.owner n run hrun hover
  have hsession : s.server.sessionKeys run.id ≠ none := by
    intro hnone
    simp [(h.listed run.id).mpr hnone] at howner
  obtain ⟨keys, hkeys⟩ := Option.ne_none_iff_exists'.mp hsession
  obtain ⟨handle, hhandle, -⟩ := Option.map_eq_some_iff.mp hkeys
  exact .inl ⟨run.id, handle, hhandle, howner⟩

/-- A goroutine that is over owns no session. -/
theorem Tidy.not_owner_of_over (h : s.Tidy) {n : ℕ} {run : SessionRun} (hrun : s.runs n = some run)
    (hover : run.isOver = true) (id : List Char) : s.owners id ≠ some n := by
  intro howner
  obtain ⟨other, hother, -, hnot⟩ := h.owned id n howner
  obtain rfl := Option.some.inj (hrun.symm.trans hother)
  simp [hover] at hnot

end RelayServer

/-- In every state of every run, a goroutine of a session that has returned has left nothing of the
session in the tables, and no request is refused because of it, exactly if both clients were
connected and answered. -/
theorem returned_session_removed_iff (sessionPort : ℕ) {s : RelayServer}
    (h : Reached RelayServer.step anyStep (.new sessionPort) s) {n : ℕ} {run : SessionRun}
    (hrun : s.runs n = some run) (hreturned : run.phase = .returned) :
    (¬ s.Remains n ∧ ∀ conn, ¬ s.Refuses n conn) ↔ run.hasBoth = true := by
  have htidy : s.Tidy := h.invariant RelayServer.Tidy (RelayServer.tidy_new sessionPort)
    fun _ _ _ hs _ hstep => hs.step (RelayServer.step_effect hstep)
  have hover : run.isOver = run.hasBoth := by simp [SessionRun.isOver, hreturned]
  constructor
  · rintro ⟨hremains, -⟩
    by_contra hboth
    exact hremains (htidy.remains_of_not_over hrun (hover.trans (Bool.eq_false_iff.mpr hboth)))
  · intro hboth
    have hnot := htidy.not_owner_of_over hrun (hover.trans hboth)
    constructor
    · intro hremains
      obtain ⟨id, howner⟩ := htidy.owner_of_remains hremains
      exact hnot id howner
    · rintro conn ⟨identity, target, data, targetConn, -, howner, -⟩
      exact hnot _ howner

/-- A run in which two clients connect and the first requests a session with the second. -/
def requestedSession : List RelayEvent :=
  [.server (.addClient [1]), .server (.addClient [2]), .server (.write 0 false), .server (.write 0 false),
    .server (.receive 0 (.requestSession [2] [])), .server (.run 0 ([], [])), .server (.run 0 ([7], [8])),
    .run 0 (.listen .first), .run 0 (.listen .second)]

/-- A connection to the session port is handed over for a key, and answered. -/
def joinsSession (c : ℕ) (key : Bytes) (seat : Seat) : List RelayEvent :=
  [.addSessionClient, .authenticate c (some key), .lookUp c, .hand c, .run 0 (.respond seat false)]

/-- The second client accepts the session, the relay ends in one direction, and the session is
deleted. -/
def endsSession : List RelayEvent :=
  [.run 0 .join, .server (.receive 1 (.acceptSession [1] [])), .server (.run 1 ([], [])), .run 0 .proceed,
    .run 0 (.endRelay .first), .run 0 .leave, .delete 0]

/-- The session of two clients that connect is removed. -/
theorem returned_session_removed_joined :
    ∃ s run, execute RelayServer.step anyStep
        (requestedSession ++ joinsSession 0 [7] .first ++ joinsSession 1 [8] .second ++ endsSession)
          (.new 80) = some s ∧
      s.runs 0 = some run ∧ run.phase = .returned ∧ ¬ s.Remains 0 ∧ ∀ conn, ¬ s.Refuses 0 conn := by
  refine ⟨_, _, rfl, rfl, rfl, ?_⟩
  exact (returned_session_removed_iff 80 (reached_of_execute
    (requestedSession ++ joinsSession 0 [7] .first ++ joinsSession 1 [8] .second ++ endsSession) rfl)
    (n := 0) rfl rfl).mpr rfl

/-- The session of two clients of which one does not connect in time stays in the tables after its
goroutine has returned, and the next request for it is refused. -/
theorem missing_client_leaves_session :
    ∃ s run, Reached RelayServer.step anyStep (.new 80) s ∧ s.runs 0 = some run ∧ run.phase = .returned ∧
      run.members .first = .joined 0 ∧ run.members .second = .timedOut ∧
      s.server.sessions (newSessionIdentifier [1] [2]) = some ⟨[1], [2], ([7], [8]), false⟩ ∧
      s.keys (hexEncode [7]) = some ⟨newSessionIdentifier [1] [2], 0, .first⟩ ∧
      s.keys (hexEncode [8]) = some ⟨newSessionIdentifier [1] [2], 0, .second⟩ ∧ s.Refuses 0 0 :=
  ⟨_, _, reached_of_execute (requestedSession ++ joinsSession 0 [7] .first ++
    [.run 0 .expire, .run 0 (.giveUp .second), .run 0 .join,
      .server (.receive 0 (.requestSession [2] [])), .server (.run 0 ([], []))]) rfl,
    rfl, rfl, rfl, rfl, rfl, rfl, rfl, [1], [2], [], 1, rfl, rfl, fun _ => ⟨_, rfl, rfl⟩⟩

end ProjektCore.Relay
