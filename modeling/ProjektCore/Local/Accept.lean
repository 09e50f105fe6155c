import ProjektCore.Local.Handshake

/-!
# Accepting connections

`Accept` handles the requests of its listener one after the other until one of them gives a
connection. A request that fails is closed and the next one is handled. The caller gets the
connection, the error of the listener, or the error of a closed client, whichever comes first.
-/

namespace ProjektCore.Local

open Foundation

/-- What the goroutine of `Accept` has done with the results of the listener so far. -/
structure Accepting where
  /-- The connections of the requests that failed. -/
  closed : List (Conn Err)
  /-- How it has ended, if it does not wait for the listener. -/
  result : Option (Except Err (Conn Err × Option SecureConn))

namespace Client

variable (c : Client)

/-- The loop over the results of the listener. -/
def acceptLoop : List (Except Err (Request × Conn Err)) → Go Accepting
  | [] => .ok ⟨[], none⟩
  | .error err :: _ => .ok ⟨[], some (.error err)⟩
  | .ok (request, rawConn) :: rest => do
    match ← c.handleRequest request rawConn with
    | (conn, _, some _) =>
      let more ← acceptLoop rest
      return { more with closed := conn :: more.closed }
    | (conn, secConn, none) => return ⟨[], some (.ok (conn, secConn))⟩

/-- `Accept`, with the error of starting to listen, the results of the listener and whether the
client is closed before the loop ends; `none` if the call waits. -/
def accept (listening : Option Err) (results : List (Except Err (Request × Conn Err)))
    (isClosed : Bool) :
    Go (Option (Option SecureConn × Option Err)) :=
  match listening with
  | some err => .ok (some (none, some err))
  | none =>
    if isClosed then .ok (some (none, some .closed))
    else do
      match (← c.acceptLoop results).result with
      | none => return none
      | some (.error err) => return some (none, some err)
      | some (.ok (_, secConn)) => return some (secConn, none)

/-- The loop ends with a connection only if handling one of the requests has returned it without an
error. -/
theorem acceptLoop_returned {results : List (Except Err (Request × Conn Err))}
    {accepting : Accepting} {conn' : Conn Err} {secConn : Option SecureConn}
    (h : c.acceptLoop results = .ok accepting)
    (hresult : accepting.result = some (.ok (conn', secConn))) :
    ∃ request conn, .ok (request, conn) ∈ results ∧ c.handleRequest request conn = .ok (conn', secConn, none) := by
  induction results generalizing accepting with
  | nil =>
    simp only [acceptLoop, Except.ok.injEq] at h
    subst h
    simp at hresult
  | cons first rest ih =>
    cases first with
    | error err =>
      simp only [acceptLoop, Except.ok.injEq] at h
      subst h
      simp at hresult
    | ok pair =>
      obtain ⟨request, rawConn⟩ := pair
      rw [acceptLoop, Call.bind_eq_ok] at h
      obtain ⟨⟨conn, secConn', err⟩, hhandled, hrest⟩ := h
      cases err with
      | none =>
        simp only [Call.pure_eq_ok, Except.ok.injEq] at hrest
        subst hrest
        simp only [Option.some.injEq, Except.ok.injEq, Prod.mk.injEq] at hresult
        obtain ⟨rfl, rfl⟩ := hresult
        exact ⟨request, rawConn, List.mem_cons_self, hhandled⟩
      | some err =>
        simp only [Call.bind_eq_ok, Call.pure_eq_ok, Except.ok.injEq] at hrest
        obtain ⟨more, hmore, rfl⟩ := hrest
        obtain ⟨request', conn'', hmem, hhandled'⟩ := ih hmore hresult
        exact ⟨request', conn'', List.mem_cons_of_mem _ hmem, hhandled'⟩

/-- A connection that `Accept` returns without an error belongs to a trusted peer if no refusal can
be written to any of the requests. -/
theorem accept_trusted {listening : Option Err} {results : List (Except Err (Request × Conn Err))}
    {isClosed : Bool} {secConn : SecureConn}
    (hwritable : ∀ request conn, .ok (request, conn) ∈ results → ¬ c.RefusalWritable request conn)
    (h : c.accept listening results isClosed = .ok (some (some secConn, none))) :
    c.isX25519Trusted secConn.peerIdentity = true := by
  unfold accept at h
  split at h
  · simp at h
  · split at h
    · simp at h
    · rw [Call.bind_eq_ok] at h
      obtain ⟨accepting, hloop, hresult⟩ := h
      split at hresult
      · simp at hresult
      · simp at hresult
      · rename_i conn' secConn' hreturned
        simp only [Call.pure_eq_ok, Except.ok.injEq, Option.some.injEq, Prod.mk.injEq,
          and_true] at hresult
        subst hresult
        obtain ⟨request, conn, hmem, hhandled⟩ := c.acceptLoop_returned hloop hreturned
        exact c.handleRequest_unrefused (hwritable request conn hmem) hhandled

/-- A peer that is refused first is handed to the caller of `Accept`. -/
theorem accept_refused {request : Request} {conn : Conn Err} (h : c.RefusalWritable request conn)
    (rest : List (Except Err (Request × Conn Err))) :
    ∃ secConn, c.accept none (.ok (request, conn) :: rest) false = .ok (some (some secConn, none)) ∧
      c.isX25519Trusted secConn.peerIdentity = false := by
  obtain ⟨conn', secConn, hhandled, htrusted⟩ := c.handleRequest_refused h
  refine ⟨secConn, ?_, htrusted⟩
  simp only [accept, acceptLoop, hhandled, Call.ok_bind, Call.pure_eq_ok, Bool.false_eq_true,
    if_false]

end Client

end ProjektCore.Local
