import ProjektCore.Foundation.Runs
import ProjektCore.Session.State

/-!
# Two sessions

Two sessions that are joined by a connection which keeps the order of messages and loses none. One
side is the initiator of the connection.
-/

namespace ProjektCore.Session

open Foundation

/-- The two sides of a connection. -/
inductive End where
  | initiator
  | responder
deriving Repr, DecidableEq

/-- The other side. -/
def End.peer : End → End
  | .initiator => .responder
  | .responder => .initiator

/-- The peer of the other side. -/
@[simp] theorem End.peer_peer (x : End) : x.peer.peer = x := by cases x <;> rfl

/-- The sides differ. -/
@[simp] theorem End.peer_ne (x : End) : x.peer ≠ x := by cases x <;> decide

/-- The sides differ. -/
@[simp] theorem End.ne_peer (x : End) : x ≠ x.peer := by cases x <;> decide

/-- A side that is not one of them is the other one. -/
theorem End.eq_peer_of_ne {x y : End} (h : y ≠ x) : y = x.peer := by cases x <;> cases y <;> trivial

/-- Two sessions and the messages that they have not received yet. -/
structure Link (M : Type) where
  sessions : End → SessionState M
  incoming : End → List Message

/-- What happens at the two sessions. -/
inductive LinkEvent (M : Type) where
  | act (x : End) (event : SessionEvent M)
  /-- A session receives its next message. -/
  | deliver (x : End)

namespace Link

variable {M : Type} (protocols : Protocols M)

/-- Two new sessions. -/
def new : Link M := ⟨fun x => .new (x = .initiator), fun _ => []⟩

/-- A session makes a step, which may write messages to the connection. -/
def act (l : Link M) (x : End) (event : SessionEvent M) : Option (Link M) := do
  let s ← (l.sessions x).step protocols event
  some ⟨Function.update l.sessions x s,
    Function.update l.incoming x.peer (l.incoming x.peer ++ (l.sessions x).sends protocols event)⟩

/-- One step of the two sessions. -/
def step (l : Link M) : LinkEvent M → Option (Link M)
  | .act x event =>
    match event with
    | .receive _ => none
    | .stopReader =>
      if (l.sessions x).isDone || (l.sessions x.peer).isDone then l.act protocols x .stopReader else none
    | event => l.act protocols x event
  | .deliver x =>
    match l.incoming x with
    | [] => none
    | message :: rest => { l with incoming := Function.update l.incoming x rest }.act protocols x (.receive message)

variable {protocols}

/-- What a step does: a session makes a step, which takes what it receives from its connection, and
what it writes is appended to the connection of the peer. -/
theorem step_eq_some {l l' : Link M} {event : LinkEvent M} (h : l.step protocols event = some l') :
    ∃ x sessionEvent s rest,
      (l.sessions x).step protocols sessionEvent = some s ∧
      (sessionEvent.receives = [] → event = .act x sessionEvent) ∧ l.incoming x = sessionEvent.receives ++ rest ∧
      l'.sessions x = s ∧ l'.sessions x.peer = l.sessions x.peer ∧ l'.incoming x = rest ∧
      l'.incoming x.peer = l.incoming x.peer ++ (l.sessions x).sends protocols sessionEvent := by
  have hact {m : Link M} {x : End} {e : SessionEvent M} (hm : m.act protocols x e = some l') :
      ∃ s, (m.sessions x).step protocols e = some s ∧ l'.sessions x = s ∧
        l'.sessions x.peer = m.sessions x.peer ∧ l'.incoming x = m.incoming x ∧
        l'.incoming x.peer = m.incoming x.peer ++ (m.sessions x).sends protocols e := by
    simp only [act, Option.bind_eq_bind, Option.bind_eq_some_iff, Option.some.injEq] at hm
    obtain ⟨s, hs, rfl⟩ := hm
    refine ⟨s, hs, ?_, ?_, ?_, ?_⟩ <;> simp
  cases event with
  | act x e =>
    have hm : l.act protocols x e = some l' ∧ e.receives = [] := by
      simp only [step] at h
      split at h
      · simp at h
      · rw [Option.ite_none_right_eq_some] at h
        exact ⟨h.2, rfl⟩
      · rename_i hne _
        refine ⟨h, ?_⟩
        cases e with
        | receive message => exact (hne message rfl).elim
        | _ => rfl
    obtain ⟨s, hs, hx, hy, hin, hout⟩ := hact hm.1
    exact ⟨x, e, s, l.incoming x, hs, fun _ => rfl, by rw [hm.2, List.nil_append], hx, hy, hin, hout⟩
  | deliver x =>
    simp only [step] at h
    split at h
    · simp at h
    · rename_i message rest hincoming
      obtain ⟨s, hs, hx, hy, hin, hout⟩ := hact h
      refine ⟨x, .receive message, s, rest, hs, ?_, hincoming, hx, hy, ?_, ?_⟩
      · simp [SessionEvent.receives]
      · rw [hin]
        exact Function.update_self ..
      · rw [hout]
        simp

end Link

end ProjektCore.Session
