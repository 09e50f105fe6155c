import ProjektCore.Protocol.Loop

/-!
# The order of the messages of a loop

A loop passes the messages of its connection to its side in the order in which they arrive, and the
messages of its side to the connection in the order in which they are written. The error of the
connection is returned only once all messages before it were read without an error. What
`WriteMessage` returns and the results of the calls to `ReadMessage` are recorded by a side of their
own, which behaves as the side it records; the loop knows nothing of this record.
-/

namespace ProjektCore.Protocol

open Foundation

variable {M S : Type}

/-- A side with a record of its calls. -/
structure Recorded (S M : Type) where
  side : S
  /-- The messages of the writes that returned no error. -/
  wrote : List M
  /-- The messages that were read, each with the result of reading it. -/
  results : List (M × Option Err)

/-- Nothing was written or read. -/
def Recorded.new (side : S) : Recorded S M := ⟨side, [], []⟩

/-- The side that keeps a record of its calls beside its state. -/
def Side.recording (a : Side S M) : Side (Recorded S M) M where
  write s := do
    let (side, message, err) ← a.write s.side
    return (⟨side, if err.isNone then s.wrote ++ message.toList else s.wrote, s.results⟩, message, err)
  read s message := do
    let (side, err) ← a.read s.side message
    return (⟨side, s.wrote, s.results ++ [(message, err)]⟩, err)
  canWrite s := a.canWrite s.side
  mustWrite s := a.mustWrite s.side
  isDone s := a.isDone s.side

/-- Without the record, the recording side is the side that it records. -/
theorem Side.recording_embeds (a : Side S M) : a.recording.Embeds a Recorded.side where
  write s := by
    simp only [Side.recording]
    rcases a.write s.side with value | ⟨side, message, err⟩ <;> rfl
  read s message := by
    simp only [Side.recording]
    rcases a.read s.side message with value | ⟨side, err⟩ <;> rfl
  canWrite _ := rfl
  mustWrite _ := rfl
  isDone _ := rfl

/-- The message that is written and not yet passed to the connection. -/
def LoopPhase.pending : LoopPhase M → List M
  | .sending message => message.toList
  | _ => []

/-- Whether the loop goes on. -/
def LoopPhase.isRunning : LoopPhase M → Bool
  | .deciding | .sending _ => true
  | .returned _ | .panicked _ => false

namespace Loop

/-- The messages of a loop over a recording side are in order. -/
structure Ordered (q : Loop (Recorded S M) M) : Prop where
  /-- A message that is offered has arrived behind those taken. -/
  offered : ∀ message, q.reader = .offering message → q.arrived = q.taken ++ [message]
  /-- All messages are taken while the next one is awaited. -/
  awaited : q.reader = .reading → q.taken = q.arrived
  /-- All messages are taken once the connection has failed, and no more arrive. -/
  failed : q.errs.isSome = true → q.reader = .stopped ∧ q.taken = q.arrived
  taken_prefix : q.taken <+: q.arrived
  /-- What the side has written is what the connection was given, up to one message. -/
  wrote : q.side.wrote = q.sent ++ q.phase.pending
  /-- The loop keeps what the side has written. -/
  written : q.written = q.side.wrote
  /-- The side has read what the loop has taken, but for a message that made it panic. -/
  read_prefix : q.side.results.map Prod.fst <+: q.taken
  results : q.phase.isRunning = true → q.side.results = q.taken.map (·, none)

variable {a : Side S M} {q q' : Loop (Recorded S M) M}

/-- A loop that has just been started. -/
theorem ordered_new (start : S) : Ordered (new (.new start) : Loop (Recorded S M) M) where
  offered := nofun
  awaited _ := rfl
  failed := nofun
  taken_prefix := List.nil_prefix
  wrote := rfl
  written := rfl
  read_prefix := List.nil_prefix
  results _ := rfl

/-- Nothing is on its way to the connection while the loop decides. -/
theorem Ordered.wrote_of_deciding (h : q.Ordered) (hphase : q.phase = .deciding) :
    q.side.wrote = q.sent := by
  have hwrote := h.wrote
  rw [hphase] at hwrote
  exact hwrote.trans (List.append_nil _)

/-- What a write does to the record. -/
theorem Ordered.afterWrite (h : q.Ordered) (hphase : q.phase = .deciding) :
    (q.afterWrite (a.recording.write q.side)).Ordered := by
  have hwrote := h.wrote_of_deciding hphase
  have hnothing : q.side.wrote = q.sent ++ [] := hwrote.trans (List.append_nil _).symm
  have hresults := h.results (by rw [hphase]; rfl)
  simp only [Side.recording]
  rcases a.write q.side.side with value | ⟨side, message, _ | err⟩
  · exact ⟨h.offered, h.awaited, h.failed, h.taken_prefix, hnothing, h.written, h.read_prefix, nofun⟩
  · have hmore : q.side.wrote ++ message.toList = q.sent ++ message.toList := by rw [hwrote]
    have hkept : q.written ++ message.toList = q.side.wrote ++ message.toList := by rw [h.written]
    exact ⟨h.offered, h.awaited, h.failed, h.taken_prefix, hmore, hkept, h.read_prefix, fun _ => hresults⟩
  · exact ⟨h.offered, h.awaited, h.failed, h.taken_prefix, hnothing, h.written, h.read_prefix, nofun⟩

/-- What a read does to the record. -/
theorem Ordered.afterRead (h : q.Ordered) (hphase : q.phase = .deciding) {message : M}
    (hreader : q.reader = .offering message) :
    ((q.take message).afterRead (a.recording.read q.side message)).Ordered := by
  have harrived := h.offered message hreader
  have hnothing : q.side.wrote = q.sent ++ [] := (h.wrote_of_deciding hphase).trans (List.append_nil _).symm
  have hresults := h.results (by rw [hphase]; rfl)
  have herrs : q.errs.isSome ≠ true := by
    intro hsome
    rw [(h.failed hsome).1] at hreader
    cases hreader
  have hprefix : q.taken ++ [message] <+: q.arrived := harrived ▸ List.prefix_rfl
  -- the message is recorded with its result, unless the side panics
  have hread (err : Option Err) : (q.side.results ++ [(message, err)]).map Prod.fst <+: q.taken ++ [message] := by
    have hfirst : (q.taken.map fun taken => (taken, (none : Option Err))).map Prod.fst = q.taken := by
      rw [List.map_map]
      exact List.map_id _
    rw [hresults, List.map_append, hfirst]
    exact List.prefix_rfl
  simp only [Side.recording]
  rcases a.read q.side.side message with value | ⟨side, _ | err⟩
  · exact ⟨nofun, fun _ => harrived.symm, fun hsome => absurd hsome herrs, hprefix, hnothing, h.written,
      h.read_prefix.trans (List.prefix_append _ _), nofun⟩
  · have hmore : q.side.results ++ [(message, none)] = (q.taken ++ [message]).map (·, none) := by
      rw [hresults, List.map_append]
      rfl
    exact ⟨nofun, fun _ => harrived.symm, fun hsome => absurd hsome herrs, hprefix, h.wrote, h.written, hread none,
      fun _ => hmore⟩
  · exact ⟨nofun, fun _ => harrived.symm, fun hsome => absurd hsome herrs, hprefix, hnothing, h.written,
      hread (some err), nofun⟩

/-- Every step keeps the messages in order. -/
theorem Ordered.step (h : q.Ordered) {event : LoopEvent M}
    (hstep : q.step a.recording event = some q') :
    q'.Ordered := by
  have hnone {l : List M} : l = l ++ [] := (List.append_nil l).symm
  cases step_effect hstep with
  | finish hphase =>
    have hwrote := (h.wrote_of_deciding hphase).trans hnone
    exact ⟨h.offered, h.awaited, h.failed, h.taken_prefix, hwrote, h.written, h.read_prefix, nofun⟩
  | write hphase => exact h.afterWrite hphase
  | @send message err hphase =>
    have hwrote := h.wrote
    rw [hphase] at hwrote
    cases err with
    | none =>
      exact ⟨h.offered, h.awaited, h.failed, h.taken_prefix, hwrote.trans hnone, h.written, h.read_prefix,
        fun _ => h.results (by rw [hphase]; rfl)⟩
    | some err =>
      exact ⟨h.offered, h.awaited, h.failed, h.taken_prefix, hwrote.trans hnone, h.written, h.read_prefix, nofun⟩
  | read hphase hreader => exact h.afterRead hphase hreader
  | fail hphase =>
    have hwrote := (h.wrote_of_deciding hphase).trans hnone
    exact ⟨h.offered, h.awaited, nofun, h.taken_prefix, hwrote, h.written, h.read_prefix, nofun⟩
  | @arrive message hreader =>
    have htaken := h.awaited hreader
    refine ⟨?_, nofun, ?_, h.taken_prefix.trans (List.prefix_append _ _), h.wrote, h.written, h.read_prefix,
      h.results⟩
    · intro offered hoffered
      obtain rfl := LoopReader.offering.inj hoffered
      exact congrArg (· ++ [message]) htaken.symm
    · intro hsome
      rw [(h.failed hsome).1] at hreader
      cases hreader
  | lose hreader =>
    exact ⟨nofun, nofun, fun _ => ⟨rfl, h.awaited hreader⟩, h.taken_prefix, h.wrote, h.written, h.read_prefix,
      h.results⟩
  | quit hreader hclosed =>
    exact ⟨nofun, nofun, fun hsome => ⟨rfl, (h.failed hsome).2⟩, h.taken_prefix, h.wrote, h.written, h.read_prefix,
      h.results⟩

/-- The loop of every side neither drops nor reorders messages. Every run is a run over a side that
records its calls. The messages that the side has read are a prefix of those delivered, as are those
passed to it; those passed to the connection are those that the side has written, up to one that is
on its way; the error of the connection is returned only once all delivered messages were read
without an error; and nothing is read while the side must write. -/
theorem loop_in_order (a : Side S M) (start : S) :
    (∀ l, Reached (step a) anyStep (new start) l →
      ∃ q, l = q.map Recorded.side ∧ Reached (step a.recording) anyStep (new (.new start)) q) ∧
    ∀ q, Reached (step a.recording) anyStep (new (.new start)) q →
      q.side.results.map Prod.fst <+: q.arrived ∧ q.taken <+: q.arrived ∧
      q.side.wrote = q.sent ++ q.phase.pending ∧
      ∀ event q', q.step a.recording event = some q' →
        (event = .fail → q'.phase = .returned q.errs ∧ q.taken = q.arrived ∧
          q.side.results = q.arrived.map (·, none)) ∧
        (event = .read → a.mustWrite q.side.side = false) := by
  refine ⟨fun l hl => reached_of_map a.recording_embeds (new (.new start)) hl, ?_⟩
  intro q hq
  have hordered := hq.invariant Ordered (ordered_new start) (fun _ _ _ h _ hstep => h.step hstep)
  refine ⟨hordered.read_prefix.trans hordered.taken_prefix, hordered.taken_prefix, hordered.wrote, ?_⟩
  intro event q' hstep
  cases step_effect hstep with
  | fail hphase herrs =>
    refine ⟨fun _ => ?_, fun hread => (by cases hread)⟩
    have htaken := (hordered.failed (by rw [herrs]; rfl)).2
    exact ⟨congrArg LoopPhase.returned herrs.symm, htaken, htaken ▸ hordered.results (by rw [hphase]; rfl)⟩
  | read _ _ hmay =>
    refine ⟨fun hfail => (by cases hfail), fun _ => ?_⟩
    simp only [mayTake, Bool.and_eq_true, Bool.not_eq_true'] at hmay
    exact hmay.2
  | finish | write | send | arrive | lose | quit =>
    constructor
    · intro hfail
      cases hfail
    · intro hread
      cases hread

/-- A side that writes one message before it counts those it reads. -/
def greeter : Side ℕ ℕ where
  write s := .ok (s + 1, some 7, none)
  read s _ := .ok (s + 1, none)
  canWrite s := s = 0
  mustWrite s := s = 0
  isDone _ := false

/-- The side writes, reads the one message that arrives, and then finds the connection to have
failed. -/
theorem loop_in_order_greeter :
    ∃ q q', Reached (step greeter.recording) anyStep (new (.new 0)) q ∧
      q.step greeter.recording .fail = some q' ∧ q'.phase = .returned (some .eof) ∧
      q.taken = q.arrived ∧ q.side.results = [(5, none)] ∧ q.sent = [7] ∧
      q.side.wrote = q.sent ++ q.phase.pending := by
  have hreached : Reached (step greeter.recording) anyStep (new (.new 0)) _ :=
    reached_of_execute [.write, .send none, .arrive 5, .read, .lose .eof] rfl
  obtain ⟨-, -, hwrote, hsteps⟩ := (loop_in_order greeter 0).2 _ hreached
  obtain ⟨hphase, htaken, hresults⟩ := (hsteps .fail _ rfl).1 rfl
  exact ⟨_, _, hreached, rfl, hphase, htaken, hresults, rfl, hwrote⟩

end Loop

end ProjektCore.Protocol
