import ProjektCore.Foundation.Stream

/-!
# Connections with deadlines

What the network does with a connection is given in advance, by the number of the call: the time at
which it is made, how many bytes a write takes and whether it fails. The bytes of the peer arrive as
a stream that ends with an error. The type of errors is a parameter.
-/

namespace ProjektCore.Foundation

/-- What happens to the calls on a connection. -/
structure Network (E : Type) where
  now : ℕ → ℕ
  /-- The error of a call that sets a deadline. -/
  setDeadline : ℕ → Option E
  /-- The number of bytes that a write takes, and its error. -/
  write : ℕ → Bytes → ℕ × Option E

/-- A connection. -/
structure Conn (E : Type) where
  network : Network E
  /-- The number of calls so far. -/
  calls : ℕ
  readDeadline : Option ℕ
  writeDeadline : Option ℕ
  incoming : Stream
  /-- The error of a read behind the last byte. -/
  ending : E
  outgoing : Bytes

namespace Conn

variable {E : Type}

/-- A connection without deadlines. -/
def new (network : Network E) (incoming : Stream) (ending : E) : Conn E :=
  ⟨network, 0, none, none, incoming, ending, []⟩

/-- The deadline that is a timeout away, or none. -/
def deadline (conn : Conn E) (timeout : Option ℕ) :
    Option ℕ := timeout.map (conn.network.now conn.calls + ·)

/-- A call that sets deadlines; one that fails changes nothing. -/
def setDeadline (conn : Conn E) (set : Conn E) : Option E × Conn E :=
  match conn.network.setDeadline conn.calls with
  | some err => (some err, { conn with calls := conn.calls + 1 })
  | none => (none, { set with calls := conn.calls + 1 })

/-- Set or remove the deadline for reading. -/
def setReadDeadline (conn : Conn E) (timeout : Option ℕ) : Option E × Conn E :=
  conn.setDeadline { conn with readDeadline := conn.deadline timeout }

/-- Set or remove the deadline for writing. -/
def setWriteDeadline (conn : Conn E) (timeout : Option ℕ) : Option E × Conn E :=
  conn.setDeadline { conn with writeDeadline := conn.deadline timeout }

/-- The number of bytes that the next write takes, and its error. -/
def accepts (conn : Conn E) (p : Bytes) : ℕ × Option E := conn.network.write conn.calls p

/-- The connection has taken bytes from a write. -/
def took (conn : Conn E) (bytes : Bytes) : Conn E :=
  { conn with calls := conn.calls + 1, outgoing := conn.outgoing ++ bytes }

/-- Write bytes. -/
def write (conn : Conn E) (p : Bytes) : Option E × Conn E :=
  ((conn.accepts p).2, conn.took (p.take (conn.accepts p).1))

/-- Every write takes all bytes and does not fail. -/
def NeverFails (conn : Conn E) : Prop := ∀ call p, conn.network.write call p = (p.length, none)

/-- A write that does not fail takes all bytes. -/
theorem NeverFails.write {conn : Conn E} (h : conn.NeverFails) (p : Bytes) :
    conn.accepts p = (p.length, none) ∧ conn.write p = (none, conn.took p) := by
  have haccepts : conn.accepts p = (p.length, none) := h conn.calls p
  exact ⟨haccepts, by rw [Conn.write, haccepts, List.take_length]⟩

/-- The contract of a writer: a write takes at most the bytes it is given, and it fails if it takes
fewer. -/
def IsWriter (conn : Conn E) : Prop :=
  ∀ call p, (conn.network.write call p).1 ≤ p.length ∧
    ((conn.network.write call p).2 = none → (conn.network.write call p).1 = p.length)

/-- A write adds as many bytes as were accepted, and all of them if it does not fail. -/
theorem IsWriter.write {conn : Conn E} (h : conn.IsWriter) (p : Bytes) :
    ∃ taken, conn.write p = ((conn.accepts p).2, conn.took taken) ∧ taken <+: p ∧
      taken.length = (conn.accepts p).1 ∧ ((conn.accepts p).2 = none → taken = p) := by
  obtain ⟨hle, hall⟩ := h conn.calls p
  refine ⟨p.take (conn.accepts p).1, rfl, List.take_prefix _ p, List.length_take_of_le hle, ?_⟩
  intro hnone
  rw [accepts, hall hnone, List.take_length]

/-- Setting the deadline for writing fails if the network says so. -/
theorem setWriteDeadline_fst (conn : Conn E) (timeout : Option ℕ) :
    (conn.setWriteDeadline timeout).1 = conn.network.setDeadline conn.calls := by
  rw [setWriteDeadline, setDeadline]
  cases conn.network.setDeadline conn.calls <;> rfl

/-- Setting the deadline for writing does not change the network. -/
theorem setWriteDeadline_network (conn : Conn E) (timeout : Option ℕ) :
    (conn.setWriteDeadline timeout).2.network = conn.network := by
  rw [setWriteDeadline, setDeadline]
  split <;> rfl

/-- Setting the deadline for writing is one call. -/
theorem setWriteDeadline_calls (conn : Conn E) (timeout : Option ℕ) :
    (conn.setWriteDeadline timeout).2.calls = conn.calls + 1 := by
  rw [setWriteDeadline, setDeadline]
  split <;> rfl

/-- A call has changed neither deadline. -/
def KeepsDeadlines (conn conn' : Conn E) : Prop :=
  conn'.readDeadline = conn.readDeadline ∧ conn'.writeDeadline = conn.writeDeadline

/-- Setting the deadline for reading leaves the one for writing. -/
theorem setReadDeadline_eq {conn conn' : Conn E} {timeout : Option ℕ}
    (h : conn.setReadDeadline timeout = (none, conn')) :
    conn'.readDeadline = conn.deadline timeout ∧ conn'.writeDeadline = conn.writeDeadline := by
  rw [setReadDeadline, setDeadline] at h
  split at h
  · cases h
  · obtain rfl := (Prod.mk.inj h).2
    exact ⟨rfl, rfl⟩

/-- Setting the deadline for writing leaves the one for reading. -/
theorem setWriteDeadline_eq {conn conn' : Conn E} {timeout : Option ℕ}
    (h : conn.setWriteDeadline timeout = (none, conn')) :
    conn'.readDeadline = conn.readDeadline ∧ conn'.writeDeadline = conn.deadline timeout := by
  rw [setWriteDeadline, setDeadline] at h
  split at h
  · cases h
  · obtain rfl := (Prod.mk.inj h).2
    exact ⟨rfl, rfl⟩

end Conn

/-- A function that talks over a connection and returns early with the first error. -/
abbrev Talk (E A : Type) := ExceptT E (StateM (Conn E)) A

/-- A call on the connection that only returns an error. -/
def talk {E : Type} (call : Conn E → Option E × Conn E) : Talk E Unit := fun conn =>
  match call conn with
  | (some err, conn) => (.error err, conn)
  | (none, conn) => (.ok (), conn)

namespace Talk

variable {E A B : Type} {conn conn' : Conn E}

/-- A sequence returns without an error exactly when both parts do. -/
theorem bind_eq_ok {m : Talk E A} {f : A → Talk E B} {b : B} :
    (m >>= f) conn = (.ok b, conn') ↔ ∃ a conn₁, m conn = (.ok a, conn₁) ∧ f a conn₁ = (.ok b, conn') := by
  have hbind : (m >>= f) conn = match m conn with
      | (.ok a, conn₁) => f a conn₁
      | (.error err, conn₁) => (.error err, conn₁) := by
    simp only [bind, ExceptT.bind, ExceptT.mk, StateT.bind]
    rcases m conn with ⟨err | a, conn₁⟩ <;> rfl
  rw [hbind]
  constructor
  · intro h
    split at h
    · next a conn₁ hm => exact ⟨a, conn₁, hm, h⟩
    · cases h
  · rintro ⟨a, conn₁, hm, hf⟩
    rw [hm]
    exact hf

/-- Returning a value does nothing to the connection. -/
theorem pure_eq_ok {a b : A} :
    (pure a : Talk E A) conn = (.ok b, conn') ↔ a = b ∧ conn = conn' := by
  rw [show (pure a : Talk E A) conn = (.ok a, conn) from rfl, Prod.mk.injEq, Except.ok.injEq]

/-- A computation that does not use the connection does nothing to it. -/
theorem lift_eq_ok {x : Except E A} {a : A} :
    (liftM x : Talk E A) conn = (.ok a, conn') ↔ x = .ok a ∧ conn = conn' := by
  rw [show (liftM x : Talk E A) conn = (x, conn) from rfl, Prod.mk.injEq]

/-- A call on the connection that returns no error. -/
theorem talk_eq_ok {call : Conn E → Option E × Conn E} :
    talk call conn = (.ok (), conn') ↔ call conn = (none, conn') := by
  rw [talk]
  constructor
  · intro h
    split at h
    · cases h
    · next conn₁ hcall =>
      cases h
      exact hcall
  · intro h
    rw [h]

end Talk

end ProjektCore.Foundation
