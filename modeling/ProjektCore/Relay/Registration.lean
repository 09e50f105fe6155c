import ProjektCore.Foundation.Runs
import ProjektCore.Relay.ServerEffect

/-!
# The registered identities

An identity is registered before its client is greeted. If the greeting is written, a goroutine
serves the client and removes the identity when it returns. If the greeting cannot be written there
is no such goroutine, and the identity stays registered: every later client with this identity is
turned away.
-/

namespace ProjektCore.Relay

open Foundation

/-- Whether a message is written to greet a client. -/
def PendingWrite.isGreeting (write : PendingWrite) : Bool :=
  match write.kind with
  | .greeting _ => true
  | .plain | .rejection => false

namespace Server

/-- The client of a connection is being greeted, or served by a goroutine that has not removed it
yet. -/
def Serves (s : Server) (key : List Char) (conn : ℕ) : Prop :=
  (∃ identity, hexEncode identity = key ∧ ⟨conn, .connected, .greeting identity⟩ ∈ s.writes) ∨
    ∃ identity handler, hexEncode identity = key ∧ s.handlers conn = some (identity, handler) ∧ handler ≠ .ended

/-- The greeting of a connection is not one that fails. -/
def GreetingArrives (conn : ℕ) (s : Server) (event : ServerEvent) : Prop :=
  ∀ position write, event = .write position true → s.writes[position]? = some write → write.isGreeting = true →
    write.conn ≠ conn

/-- Greetings and goroutines belong to registered identities. -/
structure Booked (s : Server) : Prop where
  running : s.isPanicked = false
  fresh : ∀ conn, s.nextConn ≤ conn → s.handlers conn = none
  greeting : ∀ write ∈ s.writes, ∀ identity, write.kind = .greeting identity →
    s.clients (hexEncode identity) = some write.conn ∧ s.handlers write.conn = none ∧
      write.message = .connected ∧ write.conn < s.nextConn
  handler : ∀ conn identity handler, s.handlers conn = some (identity, handler) → handler ≠ .ended →
    s.clients (hexEncode identity) = some conn
  once : s.writes.Pairwise fun a b => a.isGreeting = true → b.isGreeting = true → a.conn ≠ b.conn

variable {s t : Server}

/-- A greeting has the identity that it greets. -/
theorem isGreeting_iff {write : PendingWrite} :
    write.isGreeting = true ↔ ∃ identity, write.kind = .greeting identity := by
  cases hkind : write.kind <;> simp [PendingWrite.isGreeting, hkind]

/-- A server without clients. -/
theorem booked_new (sessionPort : ℕ) : (new sessionPort).Booked where
  running := rfl
  fresh _ _ := rfl
  greeting := by simp [new]
  handler := by simp [new]
  once := .nil

namespace Booked

/-- A goroutine goes on, and may start to write messages. -/
theorem goOn (h : s.Booked) {conn : ℕ} {identity : Bytes} {handler handler' : ClientHandler}
    (hhandler : s.handlers conn = some (identity, handler)) (hlive : handler ≠ .ended)
    (hrunning : t.isPanicked = false) (hclients : t.clients = s.clients)
    (hhandlers : t.handlers = Function.update s.handlers conn (some (identity, handler')))
    (hnext : t.nextConn = s.nextConn) (more : List PendingWrite)
    (hplain : ∀ write ∈ more, write.kind = .plain) (hwrites : t.writes = s.writes ++ more) :
    t.Booked where
  running := hrunning
  fresh c hc := by
    rw [hnext] at hc
    have hne : c ≠ conn := by
      rintro rfl
      simp [h.fresh c hc] at hhandler
    rw [hhandlers, Function.update_of_ne hne]
    exact h.fresh c hc
  greeting write hwrite other hkind := by
    rw [hwrites, List.mem_append] at hwrite
    rcases hwrite with hwrite | hwrite
    · obtain ⟨hclient, hnone, hmessage, hlt⟩ := h.greeting write hwrite other hkind
      have hne : write.conn ≠ conn := by
        rintro heq
        simp [heq, hhandler] at hnone
      rw [hclients, hhandlers, Function.update_of_ne hne, hnext]
      exact ⟨hclient, hnone, hmessage, hlt⟩
    · simp [hplain write hwrite] at hkind
  handler c other handler'' hc hnot := by
    rw [hhandlers, Function.update_apply] at hc
    rw [hclients]
    split at hc
    · next heq =>
      obtain ⟨rfl, -⟩ := Prod.mk.inj (Option.some.inj hc)
      rw [heq]
      exact h.handler conn identity handler hhandler hlive
    · exact h.handler c other handler'' hc hnot
  once := by
    rw [hwrites, List.pairwise_append]
    refine ⟨h.once, List.pairwise_of_forall_mem_list ?_, ?_⟩
    · intro a ha b _ hgreeting
      simp [PendingWrite.isGreeting, hplain a ha] at hgreeting
    · intro a _ b hb _ hgreeting
      simp [PendingWrite.isGreeting, hplain b hb] at hgreeting

/-- A message is no longer to be written. -/
theorem erase (h : s.Booked) (position : ℕ) :
    Booked { s with writes := s.writes.eraseIdx position } where
  running := h.running
  fresh := h.fresh
  greeting write hwrite := h.greeting write (List.mem_of_mem_eraseIdx hwrite)
  handler := h.handler
  once := h.once.sublist (List.eraseIdx_sublist ..)

/-- A greeting is the only one of its connection. -/
theorem conn_ne_of_erase (h : s.Booked) {position : ℕ} {write other : PendingWrite}
    (hwrite : s.writes[position]? = some write) (hgreeting : write.isGreeting = true)
    (hother : other ∈ s.writes.eraseIdx position) (hother' : other.isGreeting = true) :
    other.conn ≠ write.conn := by
  obtain ⟨hlt, rfl⟩ := List.getElem?_eq_some_iff.mp hwrite
  have honce := h.once
  rw [← List.take_append_drop position s.writes, List.drop_eq_getElem_cons hlt,
    List.pairwise_append, List.pairwise_cons] at honce
  obtain ⟨-, ⟨hafter, -⟩, hbefore⟩ := honce
  rw [List.eraseIdx_eq_take_drop_succ, List.mem_append] at hother
  rcases hother with hother | hother
  · exact hbefore other hother _ List.mem_cons_self hother' hgreeting
  · exact (hafter other hother hgreeting hother').symm

/-- A client is turned away. -/
theorem reject (h : s.Booked) :
    Booked { s with
      nextConn := s.nextConn + 1
      writes := s.writes ++ [⟨s.nextConn, .alreadyConnected, .rejection⟩] } where
  running := h.running
  fresh c hc := h.fresh c (Nat.le_of_succ_le hc)
  greeting write hwrite identity hkind := by
    rw [List.mem_append, List.mem_singleton] at hwrite
    rcases hwrite with hwrite | rfl
    · obtain ⟨hclient, hnone, hmessage, hlt⟩ := h.greeting write hwrite identity hkind
      exact ⟨hclient, hnone, hmessage, Nat.lt_succ_of_lt hlt⟩
    · cases hkind
  handler := h.handler
  once := by
    rw [List.pairwise_append]
    refine ⟨h.once, List.pairwise_singleton _ _, ?_⟩
    intro a _ b hb _ hgreeting
    obtain rfl := List.mem_singleton.mp hb
    cases hgreeting

/-- A client is registered. -/
theorem add (h : s.Booked) {identity : Bytes} (hfree : s.clients (hexEncode identity) = none) :
    Booked { s with
      nextConn := s.nextConn + 1
      clients := Function.update s.clients (hexEncode identity) (some s.nextConn)
      writes := s.writes ++ [⟨s.nextConn, .connected, .greeting identity⟩] } where
  running := h.running
  fresh c hc := h.fresh c (Nat.le_of_succ_le hc)
  greeting write hwrite other hkind := by
    rw [List.mem_append, List.mem_singleton] at hwrite
    rcases hwrite with hwrite | rfl
    · obtain ⟨hclient, hnone, hmessage, hlt⟩ := h.greeting write hwrite other hkind
      have hne : hexEncode other ≠ hexEncode identity := by
        intro heq
        simp [heq, hfree] at hclient
      exact ⟨(Function.update_of_ne hne ..).trans hclient, hnone, hmessage, Nat.lt_succ_of_lt hlt⟩
    · obtain rfl := WriteKind.greeting.inj hkind
      exact ⟨Function.update_self .., h.fresh _ le_rfl, rfl, Nat.lt_succ_self _⟩
  handler c other handler hc hlive := by
    have hclient := h.handler c other handler hc hlive
    have hne : hexEncode other ≠ hexEncode identity := by
      intro heq
      simp [heq, hfree] at hclient
    exact (Function.update_of_ne hne ..).trans hclient
  once := by
    rw [List.pairwise_append]
    refine ⟨h.once, List.pairwise_singleton _ _, ?_⟩
    intro a ha b hb hgreeting _
    obtain rfl := List.mem_singleton.mp hb
    obtain ⟨other, hkind⟩ := isGreeting_iff.mp hgreeting
    exact (h.greeting a ha other hkind).2.2.2.ne

/-- A client has been greeted, and its goroutine is started. -/
theorem greet (h : s.Booked) {position : ℕ} {write : PendingWrite} {identity : Bytes}
    (hwrite : s.writes[position]? = some write) (hkind : write.kind = .greeting identity) :
    Booked ({ s with writes := s.writes.eraseIdx position }.setHandler write.conn identity .reading) where
  running := h.running
  fresh c hc := by
    have hlt := (h.greeting write (List.mem_of_getElem? hwrite) identity hkind).2.2.2
    have hc' : s.nextConn ≤ c := hc
    simp only [setHandler, Function.update_of_ne (show c ≠ write.conn by omega)]
    exact h.fresh c hc
  greeting other hother identity' hkind' := by
    obtain ⟨hclient, hnone, hmessage, hlt⟩ := h.greeting other (List.mem_of_mem_eraseIdx hother) identity' hkind'
    have hne := h.conn_ne_of_erase hwrite (isGreeting_iff.mpr ⟨identity, hkind⟩) hother
      (isGreeting_iff.mpr ⟨identity', hkind'⟩)
    exact ⟨hclient, (Function.update_of_ne hne ..).trans hnone, hmessage, hlt⟩
  handler c other handler hc hlive := by
    simp only [setHandler, Function.update_apply] at hc
    split at hc
    · next heq =>
      obtain ⟨rfl, -⟩ := Prod.mk.inj (Option.some.inj hc)
      rw [heq]
      exact (h.greeting write (List.mem_of_getElem? hwrite) _ hkind).1
    · exact h.handler c other handler hc hlive
  once := h.once.sublist (List.eraseIdx_sublist ..)

/-- A goroutine removes its client. -/
theorem deleteClient (h : s.Booked) {conn : ℕ} {identity : Bytes}
    (hhandler : s.handlers conn = some (identity, .leaving)) :
    Booked { s.setHandler conn identity .ended with
      clients := Function.update s.clients (hexEncode identity) none } := by
  have hclient := h.handler conn identity .leaving hhandler (by simp)
  constructor
  case running => exact h.running
  case fresh =>
    intro c hc
    have hne : c ≠ conn := by
      rintro rfl
      simp [h.fresh c hc] at hhandler
    simp only [setHandler, Function.update_of_ne hne]
    exact h.fresh c hc
  case greeting =>
    intro write hwrite other hkind
    obtain ⟨hother, hnone, hmessage, hlt⟩ := h.greeting write hwrite other hkind
    have hconn : write.conn ≠ conn := by
      rintro heq
      simp [heq, hhandler] at hnone
    have hne : hexEncode other ≠ hexEncode identity := by
      intro heq
      rw [heq, hclient] at hother
      exact hconn (Option.some.inj hother).symm
    exact ⟨(Function.update_of_ne hne ..).trans hother, (Function.update_of_ne hconn ..).trans hnone, hmessage, hlt⟩
  case handler =>
    intro c other handler hc hlive
    simp only [setHandler, Function.update_apply] at hc
    split at hc
    · obtain ⟨-, rfl⟩ := Prod.mk.inj (Option.some.inj hc)
      exact absurd rfl hlive
    · next hconn =>
      have hother := h.handler c other handler hc hlive
      have hne : hexEncode other ≠ hexEncode identity := by
        intro heq
        rw [heq, hclient] at hother
        exact hconn (Option.some.inj hother).symm
      exact (Function.update_of_ne hne ..).trans hother
  case once => exact h.once

/-- Every step keeps the bookings, and no step panics. -/
theorem step (h : s.Booked) {event : ServerEvent} (heffect : ServerEffect s event t) :
    t.Booked := by
  cases heffect with
  | reject => exact h.reject
  | add hfree => exact h.add hfree
  | writeFails => exact h.erase _
  | write => exact h.erase _
  | greet hwrite hkind => exact h.greet hwrite hkind
  | receive hhandler | disconnect hhandler | findTarget hhandler =>
    exact h.goOn hhandler (by simp) h.running rfl rfl rfl [] (by simp) (List.append_nil _).symm
  | noTarget hhandler | sessionExists hhandler | unknownSession hhandler | alreadyAccepted hhandler
  | noInitiator hhandler => exact h.goOn hhandler (by simp) h.running rfl rfl rfl [_] (by simp) rfl
  | create hhandler | notify hhandler =>
    exact h.goOn hhandler (by simp) h.running rfl rfl rfl [_, _] (by simp) (List.append_assoc ..)
  | accept hhandler =>
    exact h.goOn hhandler (by simp) h.running rfl rfl rfl [] (by simp) (List.append_nil _).symm
  | deleteClient hhandler => exact h.deleteClient hhandler
  | panic hhandler hnone =>
    have hclient := h.handler _ _ _ hhandler (by simp)
    simp [hnone] at hclient
  | deleteSession => exact ⟨h.running, h.fresh, h.greeting, h.handler, h.once⟩

end Booked

/-- The bookings of every state reached. -/
theorem booked_of_reached {sessionPort : ℕ} {guard : Server → ServerEvent → Prop}
    (h : Reached step guard (new sessionPort) s) : s.Booked :=
  h.invariant Booked (booked_new sessionPort) fun _ _ _ hs _ hstep => hs.step (step_effect hstep)

/-- Another message than the one written stays. -/
theorem mem_eraseIdx_of_ne {position : ℕ} {write other : PendingWrite}
    (hwrite : s.writes[position]? = some write) (hother : other ∈ s.writes) (hne : other ≠ write) :
    other ∈ s.writes.eraseIdx position := by
  obtain ⟨place, hplace⟩ := List.mem_iff_getElem?.mp hother
  refine List.mem_eraseIdx_iff_getElem?.mpr ⟨place, ?_, hplace⟩
  rintro rfl
  exact hne (Option.some.inj (hplace.symm.trans hwrite))

/-- Every identity of a connection is served. -/
def Served (s : Server) (conn : ℕ) : Prop := ∀ key, s.clients key = some conn → s.Serves key conn

namespace Serves

variable {key : List Char} {conn : ℕ}

/-- A client is served as long as its greeting and its goroutine stay. -/
theorem mono (h : s.Serves key conn) (hwrites : ∀ write ∈ s.writes, write ∈ t.writes)
    (hhandlers : t.handlers = s.handlers) : t.Serves key conn := by
  rcases h with ⟨identity, hkey, hwrite⟩ | ⟨identity, handler, hkey, hhandler, hlive⟩
  · exact .inl ⟨identity, hkey, hwrites _ hwrite⟩
  · exact .inr ⟨identity, handler, hkey, hhandlers ▸ hhandler, hlive⟩

/-- A client is served when a goroutine goes on. -/
theorem goOn (h : s.Serves key conn) {other : ℕ} {identity : Bytes}
    {handler handler' : ClientHandler} (hother : s.handlers other = some (identity, handler))
    (hlive : handler' ≠ .ended)
    (hhandlers : t.handlers = Function.update s.handlers other (some (identity, handler')))
    (hwrites : ∀ write ∈ s.writes, write ∈ t.writes) : t.Serves key conn := by
  rcases h with ⟨identity', hkey, hwrite⟩ | ⟨identity', handler'', hkey, hhandler, hlive'⟩
  · exact .inl ⟨identity', hkey, hwrites _ hwrite⟩
  · by_cases heq : conn = other
    · subst heq
      obtain ⟨rfl, -⟩ := Prod.mk.inj (Option.some.inj (hother.symm.trans hhandler))
      exact .inr ⟨identity, handler', hkey, by rw [hhandlers, Function.update_self], hlive⟩
    · exact .inr ⟨identity', handler'', hkey, by rw [hhandlers, Function.update_of_ne heq, hhandler], hlive'⟩

/-- A client is served when another message is written. -/
theorem erase (h : s.Serves key conn) {position : ℕ} {write : PendingWrite}
    (hwrite : s.writes[position]? = some write)
    (hother : write.isGreeting = true → write.conn ≠ conn) :
    Serves { s with writes := s.writes.eraseIdx position } key conn := by
  rcases h with ⟨identity, hkey, hgreeting⟩ | hserved
  · refine .inl ⟨identity, hkey, mem_eraseIdx_of_ne hwrite hgreeting ?_⟩
    rintro rfl
    exact hother rfl rfl
  · exact .inr hserved

/-- A client is served when a client is greeted, be it this one or another. -/
theorem greet (h : s.Serves key conn) (hbooked : s.Booked) {position : ℕ} {write : PendingWrite}
    {identity : Bytes} (hwrite : s.writes[position]? = some write)
    (hkind : write.kind = .greeting identity) :
    Serves ({ s with writes := s.writes.eraseIdx position }.setHandler write.conn identity .reading) key conn := by
  rcases h with ⟨identity', hkey, hgreeting⟩ | ⟨identity', handler, hkey, hhandler, hlive⟩
  · by_cases heq : write = ⟨conn, .connected, .greeting identity'⟩
    · subst heq
      obtain rfl := WriteKind.greeting.inj hkind
      exact .inr ⟨identity', .reading, hkey, Function.update_self .., by simp⟩
    · exact .inl ⟨identity', hkey, mem_eraseIdx_of_ne hwrite hgreeting (Ne.symm heq)⟩
  · have hnone := (hbooked.greeting write (List.mem_of_getElem? hwrite) identity hkind).2.1
    have hne : conn ≠ write.conn := by
      rintro rfl
      simp [hnone] at hhandler
    exact .inr ⟨identity', handler, hkey, (Function.update_of_ne hne ..).trans hhandler, hlive⟩

/-- A client is served when a goroutine removes another identity. -/
theorem deleteClient (h : s.Serves key conn) {other : ℕ} {identity : Bytes}
    (hother : s.handlers other = some (identity, .leaving)) (hne : key ≠ hexEncode identity) :
    Serves { s.setHandler other identity .ended with
      clients := Function.update s.clients (hexEncode identity) none } key conn := by
  rcases h with hgreeting | ⟨identity', handler, hkey, hhandler, hlive⟩
  · exact .inl hgreeting
  · have hconn : conn ≠ other := by
      rintro rfl
      obtain ⟨rfl, -⟩ := Prod.mk.inj (Option.some.inj (hother.symm.trans hhandler))
      exact hne hkey.symm
    exact .inr ⟨identity', handler, hkey, (Function.update_of_ne hconn ..).trans hhandler, hlive⟩

end Serves

/-- A step in which the greeting of the connection does not fail keeps its identities served. -/
theorem Served.step {conn : ℕ} (h : s.Served conn) (hbooked : s.Booked) {event : ServerEvent}
    (hguard : GreetingArrives conn s event) (heffect : ServerEffect s event t) : t.Served conn := by
  intro key hkey
  cases heffect with
  | reject => exact (h key hkey).mono (fun _ => List.mem_append_left _) rfl
  | add hfree =>
    simp only [Function.update_apply] at hkey
    split at hkey
    · next heq =>
      obtain rfl := Option.some.inj hkey
      exact .inl ⟨_, heq.symm, List.mem_append_right _ List.mem_cons_self⟩
    · exact (h key hkey).mono (fun _ => List.mem_append_left _) rfl
  | writeFails hwrite => exact (h key hkey).erase hwrite (hguard _ _ rfl hwrite)
  | write hwrite hkind =>
    refine (h key hkey).erase hwrite ?_
    intro hgreeting
    obtain ⟨identity, hidentity⟩ := isGreeting_iff.mp hgreeting
    exact absurd hidentity (hkind identity)
  | greet hwrite hkind => exact (h key hkey).greet hbooked hwrite hkind
  | @receive _ _ message hhandler =>
    refine (h key hkey).goOn hhandler ?_ rfl (fun _ hwrite => hwrite)
    cases message <;> simp
  | disconnect hhandler | findTarget hhandler | accept hhandler =>
    exact (h key hkey).goOn hhandler (by simp) rfl (fun _ hwrite => hwrite)
  | noTarget hhandler | sessionExists hhandler | unknownSession hhandler | alreadyAccepted hhandler
  | noInitiator hhandler =>
    exact (h key hkey).goOn hhandler (by simp) rfl (fun _ => List.mem_append_left _)
  | create hhandler | notify hhandler =>
    exact (h key hkey).goOn hhandler (by simp) rfl
      (fun _ hwrite => List.mem_append_left _ (List.mem_append_left _ hwrite))
  | deleteClient hhandler =>
    simp only [Function.update_apply] at hkey
    split at hkey
    · cases hkey
    · next hne => exact (h key hkey).deleteClient hhandler hne
  | panic => exact (h key hkey).mono (fun _ hwrite => hwrite) rfl
  | deleteSession => exact (h key hkey).mono (fun _ hwrite => hwrite) rfl

/-- A registered identity that has neither a greeting nor a goroutine. -/
structure Forgotten (s : Server) (identity : Bytes) (conn : ℕ) : Prop where
  registered : s.clients (hexEncode identity) = some conn
  unserved : s.handlers conn = none
  ungreeted : ∀ write ∈ s.writes, write.isGreeting = true → write.conn ≠ conn
  old : conn < s.nextConn

namespace Forgotten

variable {identity : Bytes} {conn : ℕ}

/-- Nothing serves the identity. -/
theorem not_serves (h : s.Forgotten identity conn) (key : List Char) : ¬ s.Serves key conn := by
  rintro (⟨identity', -, hwrite⟩ | ⟨identity', handler, -, hhandler, -⟩)
  · exact h.ungreeted _ hwrite rfl rfl
  · simp [h.unserved] at hhandler

/-- A client whose greeting fails is forgotten. -/
theorem of_writeFails (hbooked : s.Booked) {position : ℕ} {write : PendingWrite}
    (hwrite : s.writes[position]? = some write) (hkind : write.kind = .greeting identity) :
    Forgotten { s with writes := s.writes.eraseIdx position } identity write.conn := by
  obtain ⟨hclient, hnone, -, hlt⟩ := hbooked.greeting write (List.mem_of_getElem? hwrite) identity hkind
  have hgreeting := isGreeting_iff.mpr ⟨identity, hkind⟩
  exact ⟨hclient, hnone, fun other hother => hbooked.conn_ne_of_erase hwrite hgreeting hother, hlt⟩

/-- It stays so when goroutines go on. -/
theorem goOn (h : s.Forgotten identity conn) {other : ℕ} {identity' : Bytes}
    {handler handler' : ClientHandler} (hother : s.handlers other = some (identity', handler))
    (hclients : t.clients = s.clients)
    (hhandlers : t.handlers = Function.update s.handlers other (some (identity', handler')))
    (hnext : t.nextConn = s.nextConn) (more : List PendingWrite)
    (hplain : ∀ write ∈ more, write.kind = .plain) (hwrites : t.writes = s.writes ++ more) :
    t.Forgotten identity conn where
  registered := hclients ▸ h.registered
  unserved := by
    have hne : conn ≠ other := by
      rintro rfl
      simp [h.unserved] at hother
    rw [hhandlers, Function.update_of_ne hne, h.unserved]
  ungreeted write hwrite hgreeting := by
    rw [hwrites, List.mem_append] at hwrite
    rcases hwrite with hwrite | hwrite
    · exact h.ungreeted write hwrite hgreeting
    · simp [PendingWrite.isGreeting, hplain write hwrite] at hgreeting
  old := hnext ▸ h.old

/-- It stays so when a message is written. -/
theorem erase (h : s.Forgotten identity conn) (position : ℕ) :
    Forgotten { s with writes := s.writes.eraseIdx position } identity conn :=
  ⟨h.registered, h.unserved, fun write hwrite => h.ungreeted write (List.mem_of_mem_eraseIdx hwrite), h.old⟩

/-- It stays so when a client comes. -/
theorem append (h : s.Forgotten identity conn) {clients : List Char → Option ℕ}
    {write : PendingWrite} (hclients : clients (hexEncode identity) = some conn)
    (hwrite : write.conn = s.nextConn) :
    Forgotten { s with nextConn := s.nextConn + 1, clients, writes := s.writes ++ [write] } identity conn where
  registered := hclients
  unserved := h.unserved
  ungreeted other hother hgreeting := by
    rw [List.mem_append, List.mem_singleton] at hother
    rcases hother with hother | rfl
    · exact h.ungreeted other hother hgreeting
    · rw [hwrite]
      exact h.old.ne'
  old := Nat.lt_succ_of_lt h.old

/-- Every step leaves a forgotten identity where it is. -/
theorem step (h : s.Forgotten identity conn) (hbooked : s.Booked) {event : ServerEvent}
    (heffect : ServerEffect s event t) : t.Forgotten identity conn := by
  cases heffect with
  | reject => exact h.append h.registered rfl
  | @add identity' hfree =>
    refine h.append ?_ rfl
    have hne : hexEncode identity ≠ hexEncode identity' := by
      intro heq
      simp [← heq, h.registered] at hfree
    exact (Function.update_of_ne hne ..).trans h.registered
  | writeFails => exact h.erase _
  | write => exact h.erase _
  | @greet _ write _ hwrite hkind =>
    have hne := h.ungreeted write (List.mem_of_getElem? hwrite) (isGreeting_iff.mpr ⟨_, hkind⟩)
    exact { h.erase _ with unserved := (Function.update_of_ne hne.symm ..).trans h.unserved }
  | receive hhandler | disconnect hhandler | findTarget hhandler | accept hhandler =>
    exact h.goOn hhandler rfl rfl rfl [] (by simp) (List.append_nil _).symm
  | noTarget hhandler | sessionExists hhandler | unknownSession hhandler | alreadyAccepted hhandler
  | noInitiator hhandler => exact h.goOn hhandler rfl rfl rfl [_] (by simp) rfl
  | create hhandler | notify hhandler => exact h.goOn hhandler rfl rfl rfl [_, _] (by simp) (List.append_assoc ..)
  | @deleteClient other _ identity' _ hhandler =>
    have hclient := hbooked.handler other identity' .leaving hhandler (by simp)
    have hconn : conn ≠ other := by
      rintro rfl
      simp [h.unserved] at hhandler
    have hne : hexEncode identity ≠ hexEncode identity' := by
      intro heq
      rw [← heq, h.registered] at hclient
      exact hconn (Option.some.inj hclient)
    exact ⟨(Function.update_of_ne hne ..).trans h.registered, (Function.update_of_ne hconn ..).trans h.unserved,
      h.ungreeted, h.old⟩
  | panic => exact ⟨h.registered, h.unserved, h.ungreeted, h.old⟩
  | deleteSession => exact ⟨h.registered, h.unserved, h.ungreeted, h.old⟩

/-- It stays so in every state that follows. -/
theorem reached (h : s.Forgotten identity conn) (hbooked : s.Booked)
    (hreached : Reached Server.step anyStep s t) :
    t.Forgotten identity conn := by
  refine (hreached.invariant (fun u => u.Booked ∧ u.Forgotten identity conn) ⟨hbooked, h⟩ ?_).2
  intro u event v hu _ hstep
  have heffect := step_effect hstep
  exact ⟨hu.1.step heffect, hu.2.step hu.1 heffect⟩

/-- Another client with the identity is turned away. -/
theorem newClient (h : s.Forgotten identity conn) :
    s.newClient identity =
      { s with
        nextConn := s.nextConn + 1
        writes := s.writes ++ [⟨s.nextConn, .alreadyConnected, .rejection⟩] } := by
  simp only [Server.newClient, h.registered]

end Forgotten

/-- A connection whose greeting does not fail has its identity registered only while it is served. A
server never panics. If the greeting fails, nothing serves the connection, but its identity stays
registered in every state that follows, and every client with this identity is turned away. -/
theorem registered_while_served (sessionPort conn : ℕ) :
    (∀ s, Reached step (GreetingArrives conn) (new sessionPort) s →
      ∀ key, s.clients key = some conn → s.Serves key conn) ∧
    (∀ s, Reached step anyStep (new sessionPort) s → s.isPanicked = false) ∧
    ∀ s event t, Reached step anyStep (new sessionPort) s → s.step event = some t →
      ¬ GreetingArrives conn s event → ∃ identity, ∀ u, Reached step anyStep t u →
        u.clients (hexEncode identity) = some conn ∧ (∀ key, ¬ u.Serves key conn) ∧
        u.newClient identity =
          { u with
            nextConn := u.nextConn + 1
            writes := u.writes ++ [⟨u.nextConn, .alreadyConnected, .rejection⟩] } := by
  refine ⟨?_, fun s h => (booked_of_reached h).running, ?_⟩
  · intro s h
    refine (h.invariant (fun s => s.Booked ∧ s.Served conn) ⟨booked_new sessionPort, by simp [Served, new]⟩ ?_).2
    intro s event t hs hguard hstep
    have heffect := step_effect hstep
    exact ⟨hs.1.step heffect, hs.2.step hs.1 hguard heffect⟩
  · intro s event t h hstep hfails
    simp only [GreetingArrives, not_forall, not_not] at hfails
    obtain ⟨position, write, rfl, hwrite, hgreeting, rfl⟩ := hfails
    obtain ⟨identity, hkind⟩ := isGreeting_iff.mp hgreeting
    have hbooked := booked_of_reached h
    refine ⟨identity, ?_⟩
    intro u hu
    cases step_effect hstep with
    | writeFails =>
      have hforgotten := Forgotten.of_writeFails hbooked hwrite hkind
      have hlater := hforgotten.reached (hbooked.erase position) hu
      exact ⟨hlater.registered, hlater.not_serves, hlater.newClient⟩

/-- A client is greeted and served. -/
theorem registered_while_served_greeted :
    ∃ s, execute step anyStep [.addClient [1], .write 0 false] (new 80) = some s ∧
      s.clients (hexEncode [1]) = some 0 ∧ s.Serves (hexEncode [1]) 0 := by
  refine ⟨_, rfl, rfl, ?_⟩
  refine (registered_while_served 80 0).1 _ (Reached.start.executeLabels [.addClient [1], .write 0 false] ?_ rfl) _ rfl
  rintro _ hlabel s position write rfl
  simp at hlabel

/-- The greeting of a client cannot be written. The client is gone, but its identity is registered
for good: a new connection of the same client is turned away. -/
theorem unserved_registered :
    ∃ s t, Reached step anyStep (new 80) s ∧ s.clients (hexEncode [1]) = some 0 ∧
      (∀ key, ¬ s.Serves key 0) ∧ s.writes = [] ∧ s.handlers 0 = none ∧
      s.step (.addClient [1]) = some t ∧ t.writes = [⟨1, .alreadyConnected, .rejection⟩] := by
  refine ⟨_, _, reached_of_execute [.addClient [1], .write 0 true] rfl, rfl, ?_, rfl, rfl, rfl, rfl⟩
  rintro key (⟨identity, -, hwrite⟩ | ⟨identity, handler, -, hhandler, -⟩)
  · simp [new, newClient] at hwrite
  · simp [new, newClient] at hhandler

end Server

end ProjektCore.Relay
