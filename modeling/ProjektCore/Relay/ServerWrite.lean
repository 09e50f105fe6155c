import ProjektCore.Foundation.Lists
import ProjektCore.Foundation.Runs
import ProjektCore.Packet
import ProjektCore.Relay.Message

/-!
# Concurrent writers on a client connection

The relay server writes each message to a client from a goroutine of its own. A goroutine wraps its
message and writes the packet with two calls, first the length and then the data; nothing keeps two
goroutines from alternating. A message that is too large for a packet closes the connection.

As long as no goroutine writes while another one is between its two calls, and no message is too
large, the client decodes exactly the messages whose goroutines have finished.
-/

namespace ProjektCore.Relay

open Foundation Packet

/-- How far a goroutine is with writing its message. -/
inductive WritePhase where
  | queued
  | headerWritten
  | sent
  | failed
deriving Repr, DecidableEq

/-- A goroutine that writes a message. -/
structure MessageWriter where
  message : Message
  phase : WritePhase
deriving Repr, DecidableEq

/-- The packet of a goroutine. -/
def MessageWriter.data (w : MessageWriter) : Bytes := wrapMessage w.message

/-- The packets of the goroutines in a phase. -/
def inPhase (phase : WritePhase) (writers : List MessageWriter) : List Bytes :=
  (writers.filter fun w => w.phase = phase).map MessageWriter.data

/-- A client connection: the bytes written so far, whether it is open, and the goroutines
writing. -/
structure ClientConn where
  written : Bytes
  isOpen : Bool
  writers : List MessageWriter
deriving Repr, DecidableEq

/-- A connection without messages. -/
def ClientConn.new : ClientConn := ⟨[], true, []⟩

/-- What happens on a client connection. -/
inductive WriteEvent where
  /-- A goroutine is started for a message. -/
  | go (message : Message)
  /-- The goroutine at a position makes its next call. -/
  | run (position : ℕ)
deriving Repr, DecidableEq

namespace ClientConn

/-- Replace the goroutine at a position. -/
def update (c : ClientConn) (position : ℕ) (writer : MessageWriter) (phase : WritePhase) :
    ClientConn :=
  { c with writers := c.writers.set position { writer with phase := phase } }

/-- A goroutine fails: it closes the connection. -/
def fail (c : ClientConn) (position : ℕ) (writer : MessageWriter) : ClientConn :=
  { c.update position writer .failed with isOpen := false }

/-- A goroutine makes one call to write, which fails on a closed connection. -/
def writeCall (c : ClientConn) (position : ℕ) (writer : MessageWriter) (bytes : Bytes)
    (phase : WritePhase) :
    ClientConn :=
  if c.isOpen then { c.update position writer phase with written := c.written ++ bytes }
  else c.fail position writer

/-- One step on a connection. -/
def step (c : ClientConn) : WriteEvent → Option ClientConn
  | .go message => some { c with writers := c.writers ++ [⟨message, .queued⟩] }
  | .run position =>
    match c.writers[position]? with
    | none => none
    | some writer =>
      match writer.phase with
      | .queued =>
        match lengthOf (wrapMessage writer.message) with
        | .error _ => some (c.fail position writer)
        | .ok length => some (c.writeCall position writer (lengthBytes length) .headerWritten)
      | .headerWritten => some (c.writeCall position writer (wrapMessage writer.message) .sent)
      | .sent => none
      | .failed => none

/-- All goroutines have returned. -/
def Quiet (c : ClientConn) : Prop := ∀ w ∈ c.writers, w.phase = .sent ∨ w.phase = .failed

/-- No other goroutine stands between its two calls, and the message is not too large. -/
def Undisturbed (c : ClientConn) : WriteEvent → Prop
  | .go message => (wrapMessage message).length ≤ MaxLength
  | .run position => ∀ other < c.writers.length, other ≠ position →
      ∀ w ∈ c.writers[other]?, w.phase ≠ .headerWritten

instance (c : ClientConn) : Decidable c.Quiet := inferInstanceAs (Decidable (∀ w ∈ c.writers, _))

instance (c : ClientConn) : (event : WriteEvent) → Decidable (c.Undisturbed event)
  | .go message => inferInstanceAs (Decidable ((wrapMessage message).length ≤ MaxLength))
  | .run position => inferInstanceAs (Decidable (∀ other < c.writers.length, other ≠ position →
      ∀ w ∈ c.writers[other]?, w.phase ≠ .headerWritten))

end ClientConn

/-- The packets of goroutines one after the other. -/
theorem inPhase_append (phase : WritePhase) (xs ys : List MessageWriter) :
    inPhase phase (xs ++ ys) = inPhase phase xs ++ inPhase phase ys := by
  rw [inPhase, List.filter_append, List.map_append]
  rfl

/-- The packets of a goroutine and of those behind it. -/
theorem inPhase_cons (phase : WritePhase) (w : MessageWriter) (ws : List MessageWriter) :
    inPhase phase (w :: ws) = (if w.phase = phase then [w.data] else []) ++ inPhase phase ws := by
  by_cases h : w.phase = phase <;> simp [inPhase, h]

/-- No packet is in a phase that no goroutine is in. -/
theorem inPhase_eq_nil {phase : WritePhase} {ws : List MessageWriter}
    (h : ∀ w ∈ ws, w.phase ≠ phase) :
    inPhase phase ws = [] := by
  rw [inPhase, List.map_eq_nil_iff, List.filter_eq_nil_iff]
  intro w hw
  simpa using h w hw

/-- If only the goroutine at a position may be in a phase, those before and behind it are not. -/
theorem inPhase_others {ws before behind : List MessageWriter} {w : MessageWriter}
    {phase : WritePhase} (hsplit : ws = before ++ w :: behind)
    (h : ∀ other v, other ≠ before.length → ws[other]? = some v → v.phase ≠ phase) :
    inPhase phase before = [] ∧ inPhase phase behind = [] := by
  subst hsplit
  constructor
  · apply inPhase_eq_nil
    intro v hv
    obtain ⟨i, hi, rfl⟩ := List.getElem_of_mem hv
    refine h i _ (by omega) ?_
    rw [List.getElem?_append_left hi, List.getElem?_eq_getElem hi]
  · apply inPhase_eq_nil
    intro v hv
    obtain ⟨i, hi, rfl⟩ := List.getElem_of_mem hv
    refine h (before.length + (i + 1)) _ (by omega) ?_
    rw [List.getElem?_append_right (by omega), Nat.add_sub_cancel_left, List.getElem?_cons_succ,
      List.getElem?_eq_getElem hi]

/-- The packets after the goroutine at a position goes on, if no other one stands between its two
calls. -/
theorem inPhase_set {ws : List MessageWriter} {position : ℕ} {w : MessageWriter}
    (hw : ws[position]? = some w)
    (hothers : ∀ other v, other ≠ position → ws[other]? = some v → v.phase ≠ .headerWritten) :
    ∃ front back : List Bytes,
      (∀ v, inPhase .headerWritten (ws.set position v) = if v.phase = .headerWritten then [v.data] else []) ∧
      ∀ v, inPhase .sent (ws.set position v) = front ++ ((if v.phase = .sent then [v.data] else []) ++ back) := by
  obtain ⟨before, behind, hsplit, rfl, hset⟩ := split_at_position hw
  obtain ⟨hbefore, hbehind⟩ := inPhase_others hsplit hothers
  refine ⟨inPhase .sent before, inPhase .sent behind, ?_, ?_⟩
  · intro v
    rw [hset, inPhase_append, inPhase_cons, hbefore, hbehind, List.nil_append, List.append_nil]
  · intro v
    rw [hset, inPhase_append, inPhase_cons]

/-- The stream of a connection: complete packets, and a length field if a goroutine stands between
its two calls. -/
structure Framed (c : ClientConn) : Prop where
  isOpen : c.isOpen = true
  writers : ∀ w ∈ c.writers, w.data.length ≤ MaxLength ∧ w.phase ≠ .failed
  written : ∃ packets : List Bytes, packets.Perm (inPhase .sent c.writers) ∧
    ((inPhase .headerWritten c.writers = [] ∧ c.written = (packets.map encode).flatten) ∨
      ∃ data, inPhase .headerWritten c.writers = [data] ∧
        c.written = (packets.map encode).flatten ++ lengthBytes data.length)

/-- A connection without messages is framed. -/
theorem framed_new : Framed .new := ⟨rfl, by simp [ClientConn.new], [], .nil, .inl ⟨rfl, rfl⟩⟩

/-- A goroutine is started. -/
theorem Framed.go {c : ClientConn} (hc : Framed c) {message : Message}
    (hlength : (wrapMessage message).length ≤ MaxLength) :
    Framed { c with writers := c.writers ++ [⟨message, .queued⟩] } := by
  have hsame (phase : WritePhase) (hne : phase ≠ .queued) :
      inPhase phase (c.writers ++ [⟨message, .queued⟩]) = inPhase phase c.writers := by
    rw [inPhase_append, inPhase_cons, if_neg hne.symm]
    exact List.append_nil _
  refine ⟨hc.isOpen, ?_, ?_⟩
  · intro w hw
    rcases List.mem_append.mp hw with hw | hw
    · exact hc.writers w hw
    · obtain rfl := List.mem_singleton.mp hw
      exact ⟨hlength, by simp⟩
  · simpa only [hsame .sent (by decide), hsame .headerWritten (by decide)] using hc.written

/-- A goroutine that does not fail goes on. -/
theorem Framed.writers_set {c : ClientConn} (hc : Framed c) {position : ℕ} {w : MessageWriter}
    (hw : c.writers[position]? = some w) {phase : WritePhase} (hne : phase ≠ .failed) :
    ∀ v ∈ c.writers.set position { w with phase := phase }, v.data.length ≤ MaxLength ∧ v.phase ≠ .failed := by
  intro v hv
  rcases List.mem_or_eq_of_mem_set hv with hv | rfl
  · exact hc.writers v hv
  · exact ⟨(hc.writers w (List.mem_of_getElem? hw)).1, hne⟩

/-- An undisturbed goroutine writes the length of its packet. -/
theorem Framed.writeLength {c : ClientConn} (hc : Framed c) {position : ℕ} {w : MessageWriter}
    (hw : c.writers[position]? = some w) (hphase : w.phase = .queued)
    (hothers : ∀ other v, other ≠ position → c.writers[other]? = some v → v.phase ≠ .headerWritten) :
    Framed { c.update position w .headerWritten with written := c.written ++ lengthBytes w.data.length } := by
  obtain ⟨front, back, hheader, hsent⟩ := inPhase_set hw hothers
  have hnone : inPhase .headerWritten c.writers = [] := by
    rw [← set_at_position hw, hheader, if_neg (by simp [hphase])]
  have hunsent : inPhase .sent (c.writers.set position { w with phase := .headerWritten }) =
      inPhase .sent c.writers := by
    rw [← set_at_position hw, List.set_set, hsent, hsent, if_neg (by simp),
      if_neg (by simp [hphase])]
  obtain ⟨packets, hperm, ⟨-, hwritten⟩ | ⟨data, hone, -⟩⟩ := hc.written
  · refine ⟨hc.isOpen, hc.writers_set hw (by decide), packets, ?_, .inr ⟨w.data, ?_, ?_⟩⟩
    · exact hperm.trans (.of_eq hunsent.symm)
    · exact (hheader _).trans (if_pos rfl)
    · rw [hwritten]
  · exact absurd (hnone.symm.trans hone) (by simp)

/-- An undisturbed goroutine writes its packet behind the length. -/
theorem Framed.writePacket {c : ClientConn} (hc : Framed c) {position : ℕ} {w : MessageWriter}
    (hw : c.writers[position]? = some w) (hphase : w.phase = .headerWritten)
    (hothers : ∀ other v, other ≠ position → c.writers[other]? = some v → v.phase ≠ .headerWritten) :
    Framed { c.update position w .sent with written := c.written ++ w.data } := by
  obtain ⟨front, back, hheader, hsent⟩ := inPhase_set hw hothers
  have hone : inPhase .headerWritten c.writers = [w.data] := by
    rw [← set_at_position hw, hheader, if_pos hphase]
  have hbefore : inPhase .sent c.writers = front ++ back := by
    rw [← set_at_position hw, hsent, if_neg (by simp [hphase]), List.nil_append]
  have hafter : inPhase .sent (c.writers.set position { w with phase := .sent }) = front ++ ([w.data] ++ back) :=
    (hsent _).trans (by rw [if_pos rfl]; rfl)
  obtain ⟨packets, hperm, ⟨hnone, -⟩ | ⟨data, hdata, hwritten⟩⟩ := hc.written
  · exact absurd (hone.symm.trans hnone) (by simp)
  · obtain rfl : w.data = data := List.head_eq_of_cons_eq (hone.symm.trans hdata)
    refine ⟨hc.isOpen, hc.writers_set hw (by decide), packets ++ [w.data], ?_, .inl ⟨?_, ?_⟩⟩
    · calc packets ++ [w.data]
          |>.Perm ((front ++ back) ++ [w.data]) := (hperm.trans (.of_eq hbefore)).append_right _
        _ |>.Perm (front ++ ([w.data] ++ back)) := by
          rw [List.append_assoc]
          exact List.perm_append_comm.append_left _
        _ |>.Perm (inPhase .sent (c.writers.set position { w with phase := .sent })) := .of_eq hafter.symm
    · exact (hheader _).trans (if_neg (by simp))
    · simp only [hwritten, List.map_append, List.map_cons, List.map_nil, List.flatten_append,
        List.flatten_cons, List.flatten_nil, List.append_nil, encode, List.append_assoc]

/-- Undisturbed steps keep a connection framed. -/
theorem Framed.step {c c' : ClientConn} {event : WriteEvent} (hc : Framed c)
    (hguard : c.Undisturbed event) (h : c.step event = some c') : Framed c' := by
  cases event with
  | go message =>
    obtain rfl := Option.some.inj h
    exact hc.go hguard
  | run position =>
    cases hw : c.writers[position]? with
    | none => simp [ClientConn.step, hw] at h
    | some w =>
      obtain ⟨hlength, hfailed⟩ := hc.writers w (List.mem_of_getElem? hw)
      have hothers (other : ℕ) (v : MessageWriter) (hne : other ≠ position) (hv : c.writers[other]? = some v) :
          v.phase ≠ .headerWritten :=
        hguard other (List.getElem?_eq_some_iff.mp hv).1 hne v hv
      cases hphase : w.phase with
      | queued =>
        have hok : lengthOf (wrapMessage w.message) = .ok w.data.length := if_neg (not_lt.mpr hlength)
        simp only [ClientConn.step, hw, hphase, hok, ClientConn.writeCall, hc.isOpen, if_true,
          Option.some.injEq] at h
        obtain rfl := h
        exact hc.writeLength hw hphase hothers
      | headerWritten =>
        simp only [ClientConn.step, hw, hphase, ClientConn.writeCall, hc.isOpen, if_true,
          Option.some.injEq] at h
        obtain rfl := h
        exact hc.writePacket hw hphase hothers
      | sent => simp [ClientConn.step, hw, hphase] at h
      | failed => exact absurd hphase hfailed

/-- Every goroutine of a quiet connection on which nothing failed has sent its packet. -/
theorem Framed.inPhase_sent {c : ClientConn} (hc : Framed c) (hquiet : c.Quiet) :
    inPhase .sent c.writers = c.writers.map MessageWriter.data := by
  rw [inPhase, List.filter_eq_self.mpr]
  intro w hw
  rcases hquiet w hw with h | h
  · simp [h]
  · exact absurd h (hc.writers w hw).2

/-- The client decodes the packets of a framed connection, however its stream is cut. -/
theorem Framed.decodeAll_perm {c : ClientConn} (hc : Framed c) {s : Stream}
    (hs : s.pending = c.written) :
    (decodeAll s).Perm (inPhase .sent c.writers) := by
  have hdata {phase : WritePhase} {data : Bytes} (h : data ∈ inPhase phase c.writers) :
      data ≠ [] ∧ data.length ≤ MaxLength := by
    obtain ⟨w, hw, rfl⟩ := List.mem_map.mp h
    exact ⟨wrapMessage_ne_nil w.message, (hc.writers w (List.mem_of_mem_filter hw)).1⟩
  obtain ⟨packets, hperm, hwritten⟩ := hc.written
  have hsizes : ∀ p ∈ packets, p.length ≤ MaxLength := fun p hp => (hdata (hperm.mem_iff.mp hp)).2
  have hdecode : decodeAll s = packets := by
    rcases hwritten with ⟨-, hwritten⟩ | ⟨data, hone, hwritten⟩
    · refine decodeAll_eq s packets hsizes (.inl rfl) ?_
      rw [hs, hwritten, List.append_nil]
    · obtain ⟨hne, hsize⟩ := hdata (hone ▸ List.mem_singleton_self data)
      exact decodeAll_eq s packets hsizes (.inr ⟨data, hne, hsize, rfl⟩) (hs.trans hwritten)
  exact hdecode ▸ hperm

/-- In every run in which no goroutine writes while another one is between its two calls, and no
message is too large, the client decodes the messages whose goroutines have sent them, and all
messages once the goroutines have returned. -/
theorem undisturbed_writers_framed {c : ClientConn}
    (h : Reached ClientConn.step ClientConn.Undisturbed .new c) (s : Stream)
    (hs : s.pending = c.written) :
    (decodeAll s).Perm (inPhase .sent c.writers) ∧
      (c.Quiet → (decodeAll s).Perm (c.writers.map MessageWriter.data)) := by
  have hc : Framed c := h.invariant Framed framed_new fun _ _ _ hc hguard hstep => hc.step hguard hstep
  refine ⟨hc.decodeAll_perm hs, ?_⟩
  intro hquiet
  exact hc.inPhase_sent hquiet ▸ hc.decodeAll_perm hs

/-- Two messages written one after the other. -/
def oneByOne : List WriteEvent :=
  [.go (.sessionEstablished [1]), .go (.sessionEstablished [2]), .run 1, .run 1, .run 0, .run 0]

/-- The client decodes two messages that are written one after the other. -/
theorem undisturbed_writers_framed_two :
    ∃ c, execute ClientConn.step ClientConn.Undisturbed oneByOne .new = some c ∧
      ∀ s : Stream, s.pending = c.written →
        (decodeAll s).Perm [wrapMessage (.sessionEstablished [1]), wrapMessage (.sessionEstablished [2])] := by
  refine ⟨_, rfl, ?_⟩
  intro s hs
  exact (undisturbed_writers_framed (reached_of_execute oneByOne rfl) s hs).2 (by decide)

/-- Two messages whose goroutines alternate. -/
def alternating : List WriteEvent :=
  [.go (.sessionEstablished [1]), .go (.sessionEstablished [2]), .run 0, .run 1, .run 0, .run 1]

/-- The client does not decode two messages whose goroutines alternate. -/
theorem alternating_writers_not_decoded :
    ∃ c, Reached ClientConn.step anyStep .new c ∧ c.Quiet ∧
      ¬ (decodeAll (.ofChunk c.written)).Perm (c.writers.map MessageWriter.data) := by
  refine ⟨_, reached_of_execute alternating rfl, by decide, by decide⟩

end ProjektCore.Relay
