import ProjektCore.Protocol.Pair

/-!
# A side and an arbitrary peer

One side of a protocol is called in any order: it writes, or it reads any message. The calls that
returned no error are recorded, a written message as what was written and a read message as what was
accepted. A call that returned an error is not recorded, but what it did to the side stays.
-/

namespace ProjektCore.Protocol

open Foundation

variable {K M W S S' P : Type}

/-- A call on a side. -/
inductive SideCall (M : Type) where
  | write
  | read (message : M)
deriving Repr, DecidableEq

/-- A call that returned no error. -/
inductive Deed (M : Type) where
  | wrote (message : M)
  | accepted (message : M)
deriving Repr, DecidableEq

/-- The call behind a deed. -/
def Deed.call : Deed M → SideCall M
  | .wrote _ => .write
  | .accepted message => .read message

/-- The message that a deed wrote. -/
def Deed.written : Deed M → Option M
  | .wrote message => some message
  | .accepted _ => none

/-- A side and what it did so far. -/
structure Solo (S M : Type) where
  side : S
  history : List (Deed M)
deriving DecidableEq

namespace Solo

/-- The messages written so far. -/
def written (r : Solo S M) : List M := r.history.filterMap Deed.written

/-- One call, recorded if it returned no error. -/
def call (a : Side S M) (r : Solo S M) : SideCall M → Go (Solo S M × Option Err)
  | .write => do
    let (side, message, err) ← a.write r.side
    let deeds := if err.isNone then message.toList.map Deed.wrote else []
    return (⟨side, r.history ++ deeds⟩, err)
  | .read message => do
    let (side, err) ← a.read r.side message
    let deeds := if err.isNone then [Deed.accepted message] else []
    return (⟨side, r.history ++ deeds⟩, err)

/-- A call that returns, with or without an error. -/
def step (a : Side S M) (r : Solo S M) (call : SideCall M) : Option (Solo S M) :=
  match r.call a call with
  | .ok (r, _) => some r
  | .error _ => none

/-- No read returns an error; a write may. -/
def readsFine (a : Side S M) (r : Solo S M) : SideCall M → Bool
  | .write => true
  | .read message =>
    match a.read r.side message with
    | .ok (_, none) => true
    | _ => false

/-- The runs in which no read returns an error. -/
def Accepting (a : Side S M) (r : Solo S M) (call : SideCall M) : Prop := r.readsFine a call = true

instance (a : Side S M) (r : Solo S M) (call : SideCall M) : Decidable (Accepting a r call) :=
  inferInstanceAs (Decidable (_ = true))

/-- The final state of a list of calls on a new side is reached from it, and shows what the list
shows. -/
theorem exists_reached (a : Side S M) (guard : Solo S M → SideCall M → Prop)
    [∀ r call, Decidable (guard r call)] {new : Go S} {side : S} (hnew : new = .ok side) (calls : List (SideCall M))
    {B : Type} (observe : Solo S M → B) (b : B)
    (hrun : (do
      let side ← new
      return (execute (step a) guard calls ⟨side, []⟩).map observe) = (.ok (some b) : Go _)) :
    ∃ r, Reached (step a) guard ⟨side, []⟩ r ∧ observe r = b := by
  simp only [hnew, Call.ok_bind, Call.pure_eq_ok, Except.ok.injEq, Option.map_eq_some_iff] at hrun
  obtain ⟨r, hr, hshow⟩ := hrun
  exact ⟨r, reached_of_execute _ hr, hshow⟩

/-- Apply a map to the side. -/
def map (f : S → S') (r : Solo S M) : Solo S' M := ⟨f r.side, r.history⟩

section Map

variable {a : Side S M} {a' : Side S' M} {f : S → S'}

/-- The steps of the mapped side are the mapped steps. -/
theorem step_map (ha : a.Embeds a' f) (r : Solo S M) (call : SideCall M) :
    (r.map f).step a' call = (r.step a call).map (Solo.map f) := by
  cases call with
  | write =>
    simp only [step, Solo.call, map, ha.write]
    cases a.write r.side <;> rfl
  | read message =>
    simp only [step, Solo.call, map, ha.read]
    cases a.read r.side message <;> rfl

/-- The mapped side returns errors from the same reads. -/
theorem readsFine_map (ha : a.Embeds a' f) (r : Solo S M) (call : SideCall M) :
    (r.map f).readsFine a' call = r.readsFine a call := by
  cases call with
  | write => rfl
  | read message =>
    simp only [readsFine, map, ha.read]
    rcases a.read r.side message with value | ⟨side, _ | err⟩ <;> rfl

/-- Every state that calls on the mapped side reach is a mapped state that calls reach. -/
theorem reached_of_map (ha : a.Embeds a' f) (start : Solo S M) {q : Solo S' M}
    (h : Reached (step a') anyStep (start.map f) q) :
    ∃ r, q = r.map f ∧ Reached (step a) anyStep start r :=
  Reached.of_map (Solo.map f) (step_map ha) (fun _ _ _ => trivial) start h

/-- The same for runs in which no read returns an error. -/
theorem accepting_of_map (ha : a.Embeds a' f) (start : Solo S M) {q : Solo S' M}
    (h : Reached (step a') (Accepting a') (start.map f) q) :
    ∃ r, q = r.map f ∧ Reached (step a) (Accepting a) start r := by
  refine Reached.of_map (Solo.map f) (step_map ha) ?_ start h
  intro r call haccepting
  rw [Accepting, readsFine_map ha] at haccepting
  exact haccepting

/-- Executing calls on the mapped side. -/
theorem execute_map (ha : a.Embeds a' f) (calls : List (SideCall M)) (r : Solo S M) :
    execute (step a') (Accepting a') calls (r.map f) = (execute (step a) (Accepting a) calls r).map (Solo.map f) :=
  Foundation.execute_map (Solo.map f) (step_map ha)
    (fun r call => by rw [Accepting, Accepting, readsFine_map ha]) calls r

end Map

section Machine

variable {m : Machine P M W} {r q : Solo (P × W) M}

/-- A write of a machine that returns. -/
theorem step_write : r.step m.side .write = some q ↔
    ∃ phase world message err, m.write r.side.1 r.side.2 = .ok (phase, world, message, err) ∧
      ⟨(phase, world), r.history ++ if err.isNone then message.toList.map Deed.wrote else []⟩ = q := by
  rcases hw : m.write r.side.1 r.side.2 with value | ⟨phase, world, message, err⟩ <;>
    simp [step, call, Machine.side, hw]

/-- A read of a machine that returns. -/
theorem step_read {message : M} : r.step m.side (.read message) = some q ↔
    ∃ phase world err, m.read r.side.1 r.side.2 message = .ok (phase, world, err) ∧
      ⟨(phase, world), r.history ++ if err.isNone then [Deed.accepted message] else []⟩ = q := by
  rcases hr : m.read r.side.1 r.side.2 message with value | ⟨phase, world, err⟩ <;>
    simp [step, call, Machine.side, hr]

/-- A read of a machine that is accepted. -/
theorem step_accepted {message : M} (h : Accepting m.side r (.read message))
    (hstep : r.step m.side (.read message) = some q) :
    ∃ phase world, m.read r.side.1 r.side.2 message = .ok (phase, world, none) ∧
      q = ⟨(phase, world), r.history ++ [Deed.accepted message]⟩ := by
  obtain ⟨phase, world, err, hread, rfl⟩ := step_read.mp hstep
  cases err with
  | none => exact ⟨phase, world, hread, rfl⟩
  | some err => simp [Accepting, readsFine, Machine.side, hread] at h

end Machine

end Solo

end ProjektCore.Protocol
