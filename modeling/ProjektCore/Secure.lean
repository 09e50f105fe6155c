import ProjektCore.Packet

/-!
# The secure connection

A secure connection frames each encrypted payload with its length, which is authenticated with the
payload. The cipher is a parameter: all that is assumed is that it inverts itself at equal nonces
and adds a tag of fixed size.

Reading takes the length field with a single read of the underlying connection and the ciphertext in
full. The payloads come out as they went in exactly if no length field is cut by the stream. The
buffer that reading admits may be smaller than a message of the largest length, which then does not
fit.
-/

namespace ProjektCore.Secure

open Foundation Packet

/-- The size of the authentication tag. -/
def TagSize : ℕ := 16

/-- The largest size of an encrypted message. -/
def MessageMaxSize : ℕ := 2 ^ 16 - 1

/-- The largest size of a payload. -/
def PayloadMaxSize : ℕ := MessageMaxSize - TagSize

/-- The size of the ciphertext of a payload. -/
def messageSize (payloadLength : ℕ) : ℕ := payloadLength + TagSize

/-- The size of the payload of a ciphertext. -/
def payloadSize (messageLength : ℕ) : ℤ := messageLength - messageSize 0

/-- An authenticated cipher that is keyed by a nonce. -/
structure Cipher where
  encrypt : (nonce : ℕ) → (associated plaintext : Bytes) → Bytes
  decrypt : (nonce : ℕ) → (associated ciphertext : Bytes) → Option Bytes
  decrypt_encrypt : ∀ nonce associated plaintext,
    decrypt nonce associated (encrypt nonce associated plaintext) = some plaintext
  encrypt_length : ∀ nonce associated plaintext,
    (encrypt nonce associated plaintext).length = plaintext.length + TagSize

/-- The state of a secure connection: the nonces of its two cipher states. -/
structure NoiseConn where
  writeNonce : ℕ
  readNonce : ℕ
deriving Repr, DecidableEq

namespace NoiseConn

/-- The error of a cipher that refuses a message. -/
def decryptError : Err := .foreign 1

/-- Encrypt and write a payload. The underlying connection says how many bytes it took; these bytes
are returned beside the results. -/
def write (cipher : Cipher) (accept : Bytes → ℕ × Option Err) (c : NoiseConn) (p : Bytes) :
    Go (NoiseConn × Bytes × ℕ × Option Err) :=
  let size := messageSize p.length
  if size > MessageMaxSize then .ok (c, [], 0, some (.new "noise message is too long"))
  else
    let lenBuf := lengthBytes size
    let message := lenBuf ++ cipher.encrypt c.writeNonce lenBuf p
    let c := { c with writeNonce := c.writeNonce + 1 }
    if message.length - lenBuf.length ≠ size then panicText "unexpected ciphertext length"
    else
      let (m, err) := accept message
      if err.isSome then .ok (c, message.take m, 0, err)
      else if m ≠ message.length then
        .ok (c, message.take m, 0, some (.new "failed to write entire payload"))
      else .ok (c, message, p.length, none)

/-- Read and decrypt a payload into a buffer of a size. -/
def read (cipher : Cipher) (bufferSize : ℕ) (c : NoiseConn) (s : Stream) :
    Go (NoiseConn × Stream × Bytes × Option Err) :=
  if bufferSize < PayloadMaxSize then .ok (c, s, [], some (.new "buffer is too small"))
  else
    let (lenBuf, s) := s.read LengthSize
    if lenBuf = [] then .ok (c, s, [], some .eof)
    else if lenBuf.length ≠ LengthSize then .ok (c, s, [], some (.new "read invalid length field"))
    else match decodeLength lenBuf with
      | .error err => .ok (c, s, [], some err)
      | .ok size =>
        if size > bufferSize then panicRuntime "slice bounds out of range"
        else match readFull s size with
          | (_, s, some err) => .ok (c, s, [], some err)
          | (ct, s, none) =>
            match cipher.decrypt c.readNonce (lengthBytes size) ct with
            | none => .ok (c, s, [], some decryptError)
            | some plaintext =>
              let c := { c with readNonce := c.readNonce + 1 }
              if (plaintext.length : ℤ) ≠ payloadSize size then
                .ok (c, s, [], some (.new "unexpected plaintext length"))
              else .ok (c, s, plaintext, none)

/-- Write payloads one after the other to a connection that takes everything. -/
def writeAll (cipher : Cipher) (c : NoiseConn) : List Bytes → Go (NoiseConn × Bytes)
  | [] => .ok (c, [])
  | p :: rest => do
    let (c, sent, _, _) ← c.write cipher (fun message => (message.length, none)) p
    let (c, more) ← c.writeAll cipher rest
    return (c, sent ++ more)

/-- Read a number of times, whatever the reads return. -/
def readMany (cipher : Cipher) (bufferSize : ℕ) (c : NoiseConn) (s : Stream) :
    ℕ → Go (List (Bytes × Option Err))
  | 0 => .ok []
  | count + 1 => do
    let (c, s, payload, err) ← c.read cipher bufferSize s
    let more ← c.readMany cipher bufferSize s count
    return (payload, err) :: more

end NoiseConn

/-- An encrypted payload behind its length. -/
def frame (cipher : Cipher) (nonce : ℕ) (p : Bytes) : Bytes :=
  lengthBytes (messageSize p.length) ++ cipher.encrypt nonce (lengthBytes (messageSize p.length)) p

/-- The frames of successive payloads. -/
def frames (cipher : Cipher) (nonce : ℕ) : List Bytes → Bytes
  | [] => []
  | p :: rest => frame cipher nonce p ++ frames cipher (nonce + 1) rest

/-- The size of the frame of a payload. -/
def frameSize (p : Bytes) : ℕ := LengthSize + messageSize p.length

/-- The offset of the frame of the payload at an index. -/
def frameStart (payloads : List Bytes) (k : ℕ) : ℕ := ((payloads.take k).map frameSize).sum

variable {cipher : Cipher}

/-- A frame has the size computed for it. -/
theorem frame_length (nonce : ℕ) (p : Bytes) : (frame cipher nonce p).length = frameSize p := by
  rw [frame, List.length_append, lengthBytes_length, cipher.encrypt_length]
  rfl

/-- Writing a payload that is not too large hands its frame to the underlying connection. -/
theorem NoiseConn.write_frame (c : NoiseConn) (accept : Bytes → ℕ × Option Err) {p : Bytes}
    (h : p.length ≤ PayloadMaxSize) :
    c.write cipher accept p =
      let bytes := frame cipher c.writeNonce p
      let c' := { c with writeNonce := c.writeNonce + 1 }
      if (accept bytes).2.isSome then .ok (c', bytes.take (accept bytes).1, 0, (accept bytes).2)
      else if (accept bytes).1 ≠ bytes.length then
        .ok (c', bytes.take (accept bytes).1, 0, some (.new "failed to write entire payload"))
      else .ok (c', bytes, p.length, none) := by
  have hsize : ¬ messageSize p.length > MessageMaxSize := by
    rw [PayloadMaxSize, MessageMaxSize, TagSize] at h
    rw [messageSize, MessageMaxSize, TagSize]
    omega
  have hlength (associated : Bytes) :
      (cipher.encrypt c.writeNonce associated p).length = messageSize p.length :=
    cipher.encrypt_length c.writeNonce associated p
  simp only [NoiseConn.write, if_neg hsize, List.length_append, hlength, frame,
    Nat.add_sub_cancel_left, ne_eq, not_true_eq_false, if_false]

/-- Writing a payload that is not too large to a connection that takes everything sends its
frame. -/
theorem NoiseConn.write_eq (c : NoiseConn) {p : Bytes} (h : p.length ≤ PayloadMaxSize) :
    c.write cipher (fun message => (message.length, none)) p =
      .ok ({ c with writeNonce := c.writeNonce + 1 }, frame cipher c.writeNonce p, p.length, none) := by
  rw [c.write_frame _ h]
  simp

/-- Writing a payload that is not too large returns; it succeeds exactly if the underlying
connection takes the frame whole. -/
theorem NoiseConn.write_returns (c : NoiseConn) (cipher : Cipher) (accept : Bytes → ℕ × Option Err)
    {p : Bytes} (h : p.length ≤ PayloadMaxSize) :
    ∃ sent n err, c.write cipher accept p = .ok ({ c with writeNonce := c.writeNonce + 1 }, sent, n, err) ∧
      (err = none ↔ accept (frame cipher c.writeNonce p) = ((frame cipher c.writeNonce p).length, none)) := by
  simp only [c.write_frame accept h]
  rcases accept (frame cipher c.writeNonce p) with ⟨m, _ | err⟩
  · by_cases hm : m = (frame cipher c.writeNonce p).length
    · exact ⟨_, _, none, by rw [if_neg (by simp), if_neg (not_not.mpr hm)], by simp [hm]⟩
    · exact ⟨_, _, some _, by rw [if_neg (by simp), if_pos hm], by simp [hm]⟩
  · exact ⟨_, _, some err, rfl, by simp⟩

/-- Writing payloads that are not too large sends their frames. -/
theorem NoiseConn.writeAll_eq (c : NoiseConn) (cipher : Cipher) {payloads : List Bytes}
    (h : ∀ p ∈ payloads, p.length ≤ PayloadMaxSize) :
    ∃ c', c.writeAll cipher payloads = .ok (c', frames cipher c.writeNonce payloads) := by
  induction payloads generalizing c with
  | nil => exact ⟨c, rfl⟩
  | cons p rest ih =>
    obtain ⟨c', hrest⟩ := ih { c with writeNonce := c.writeNonce + 1 } fun q hq => h q (List.mem_cons_of_mem p hq)
    refine ⟨c', ?_⟩
    simp only [NoiseConn.writeAll, c.write_eq (h p List.mem_cons_self), Call.ok_bind, hrest]
    rfl

/-- A length field that the stream cuts is not read. -/
theorem NoiseConn.read_cut (c : NoiseConn) (cipher : Cipher) {s : Stream} (hlong : 2 ≤ s.length)
    (hcut : s.cutBefore 1) :
    ∃ s', c.read cipher MessageMaxSize s = .ok (c, s', [], some (.new "read invalid length field")) := by
  have hone : min LengthSize s.available = 1 := by
    have hnot : ¬ 2 ≤ s.available := fun htwo => (Stream.two_le_available_iff hlong).mp htwo hcut
    have hpos := (Stream.available_pos (List.ne_nil_of_length_pos (by omega : 0 < s.length))).1
    rw [LengthSize]
    omega
  have hread : (s.read LengthSize).1.length = 1 := by
    rw [Stream.read, hone, Stream.pending_length, List.length_take]
    omega
  refine ⟨(s.read LengthSize).2, ?_⟩
  have hne : (s.read LengthSize).1 ≠ [] := List.ne_nil_of_length_pos (by omega)
  simp only [NoiseConn.read, if_neg (by decide : ¬ MessageMaxSize < PayloadMaxSize), if_neg hne,
    hread]
  rfl

/-- A frame whose length field is not cut is read. -/
theorem NoiseConn.read_frame (c : NoiseConn) {s : Stream} {p rest : Bytes}
    (hsize : p.length ≤ PayloadMaxSize) (h : s.pending = frame cipher c.readNonce p ++ rest)
    (hcut : ¬ s.cutBefore 1) :
    c.read cipher MessageMaxSize s =
      .ok ({ c with readNonce := c.readNonce + 1 }, s.drop (frameSize p), p, none) := by
  have hfits : messageSize p.length ≤ MaxLength := by
    rw [PayloadMaxSize, MessageMaxSize, TagSize] at hsize
    rw [messageSize, TagSize, MaxLength, LengthSize]
    omega
  have hct : (cipher.encrypt c.readNonce (lengthBytes (messageSize p.length)) p).length = messageSize p.length :=
    cipher.encrypt_length _ _ _
  rw [frame, List.append_assoc] at h
  have hlong : 2 ≤ s.length := by
    rw [← Stream.pending_length, h, List.length_append, lengthBytes_length, LengthSize]
    omega
  have htwo : min LengthSize s.available = LengthSize :=
    Nat.min_eq_left ((Stream.two_le_available_iff hlong).mpr hcut)
  have hheader : s.read LengthSize = (lengthBytes (messageSize p.length), s.drop LengthSize) := by
    rw [Stream.read, htwo, Stream.pending_take, h, List.take_left' (lengthBytes_length _)]
  have hrest : Stream.pending (s.drop LengthSize) =
      cipher.encrypt c.readNonce (lengthBytes (messageSize p.length)) p ++ rest := by
    rw [Stream.pending_drop, h, List.drop_left' (lengthBytes_length _)]
  have hbody := readFull_append hrest
  rw [hct, List.drop_drop] at hbody
  have hne : lengthBytes (messageSize p.length) ≠ [] :=
    List.ne_nil_of_length_pos (by rw [lengthBytes_length]; decide)
  have hbuffer : ¬ messageSize p.length > MessageMaxSize := not_lt.mpr hfits
  have hpayload : (p.length : ℤ) = payloadSize (messageSize p.length) := by
    rw [payloadSize, messageSize, messageSize]
    push_cast
    ring
  simp only [NoiseConn.read, if_neg (by decide : ¬ MessageMaxSize < PayloadMaxSize), hheader,
    if_neg hne, lengthBytes_length, ne_eq, not_true_eq_false, if_false,
    decodeLength_lengthBytes hfits, if_neg hbuffer, hbody, cipher.decrypt_encrypt, ← hpayload]
  rfl

/-- The frame of a payload behind the first one. -/
theorem frameStart_cons (p : Bytes) (payloads : List Bytes) (k : ℕ) :
    frameStart (p :: payloads) (k + 1) = frameSize p + frameStart payloads k := by
  rw [frameStart, List.take_succ_cons, List.map_cons, List.sum_cons]
  rfl

/-- Reading the frames of payloads returns them exactly if no length field is cut. -/
theorem NoiseConn.readMany_iff (c : NoiseConn) {payloads : List Bytes}
    (hsize : ∀ p ∈ payloads, p.length ≤ PayloadMaxSize) {s : Stream}
    (hs : s.pending = frames cipher c.readNonce payloads) :
    c.readMany cipher MessageMaxSize s payloads.length = .ok (payloads.map fun p => (p, none)) ↔
      ∀ k, k < payloads.length → ¬ s.cutBefore (frameStart payloads k + 1) := by
  induction payloads generalizing c s with
  | nil =>
    constructor
    · intro _ k hk
      exact absurd hk (Nat.not_lt_zero k)
    · intro _
      rfl
  | cons p rest ih =>
    have hfirst := hsize p List.mem_cons_self
    have hstart : frameStart (p :: rest) 0 + 1 = 1 := rfl
    by_cases hcut : s.cutBefore 1
    · have hlong : 2 ≤ s.length := by
        rw [← Stream.pending_length, hs, frames, List.length_append, frame_length, frameSize,
          LengthSize]
        omega
      obtain ⟨s', hread⟩ := c.read_cut cipher hlong hcut
      constructor
      · intro hall
        simp only [List.length_cons, NoiseConn.readMany, hread, Call.ok_bind,
          Call.bind_eq_ok] at hall
        obtain ⟨more, -, hmore⟩ := hall
        simp at hmore
      · intro hall
        exact absurd (hstart ▸ hcut) (hall 0 (Nat.succ_pos _))
    · have hread := c.read_frame hfirst hs hcut
      have hbehind : Stream.pending (s.drop (frameSize p)) = frames cipher (c.readNonce + 1) rest := by
        rw [Stream.pending_drop, hs, frames, List.drop_left' (frame_length _ _)]
      have hrest := ih { c with readNonce := c.readNonce + 1 } (fun q hq => hsize q (List.mem_cons_of_mem p hq)) hbehind
      have hmany : c.readMany cipher MessageMaxSize s (p :: rest).length =
            .ok ((p :: rest).map fun q => (q, none)) ↔
          NoiseConn.readMany cipher MessageMaxSize { c with readNonce := c.readNonce + 1 }
            (s.drop (frameSize p)) rest.length = .ok (rest.map fun q => (q, none)) := by
        simp only [List.length_cons, NoiseConn.readMany, hread, Call.ok_bind, Call.bind_eq_ok,
          Call.pure_eq_ok, List.map_cons, Except.ok.injEq, List.cons.injEq, true_and]
        exact exists_eq_right
      rw [hmany, hrest]
      constructor
      · intro hall k hk
        cases k with
        | zero => exact hcut
        | succ k =>
          rw [frameStart_cons, Nat.add_assoc, ← Stream.cutBefore_drop]
          exact hall k (Nat.lt_of_succ_lt_succ hk)
      · intro hall k hk
        rw [Stream.cutBefore_drop, ← Nat.add_assoc, ← frameStart_cons]
        exact hall (k + 1) (Nat.succ_lt_succ hk)

/-- Payloads written on one end are read on the other end, for every way the stream is cut, exactly
if no cut falls between the two bytes of a length field. -/
theorem secure_round_trip_iff (cipher : Cipher) (payloads : List Bytes)
    (hsize : ∀ p ∈ payloads, p.length ≤ PayloadMaxSize) (writer reader : NoiseConn)
    (hnonce : writer.writeNonce = reader.readNonce) :
    ∃ writer' sent, writer.writeAll cipher payloads = .ok (writer', sent) ∧
      ∀ s : Stream, s.pending = sent →
        (reader.readMany cipher MessageMaxSize s payloads.length = .ok (payloads.map fun p => (p, none)) ↔
          ∀ k, k < payloads.length → ¬ s.cutBefore (frameStart payloads k + 1)) := by
  obtain ⟨writer', hwritten⟩ := writer.writeAll_eq cipher hsize
  refine ⟨writer', _, hwritten, ?_⟩
  intro s hs
  rw [hnonce] at hs
  exact reader.readMany_iff hsize hs

/-- A cipher that only appends a tag of zeroes. -/
def taggingCipher : Cipher where
  encrypt _ _ plaintext := plaintext ++ List.replicate TagSize 0
  decrypt _ _ ciphertext := some (ciphertext.take (ciphertext.length - TagSize))
  decrypt_encrypt := by simp
  encrypt_length := by simp

/-- The round trip of two payloads. -/
theorem secure_round_trip_two_payloads :
    ∃ writer' sent, NoiseConn.writeAll taggingCipher ⟨0, 0⟩ [[1, 2, 3], []] = .ok (writer', sent) ∧
      ∀ s : Stream, s.pending = sent →
        (NoiseConn.readMany taggingCipher MessageMaxSize ⟨0, 0⟩ s 2 = .ok [([1, 2, 3], none), ([], none)] ↔
          ∀ k, k < 2 → ¬ s.cutBefore (frameStart [[1, 2, 3], []] k + 1)) :=
  secure_round_trip_iff taggingCipher [[1, 2, 3], []] (by decide) ⟨0, 0⟩ ⟨0, 0⟩ rfl

/-- An empty payload whose frame arrives in two chunks, the first one of a single byte, is not
read. -/
theorem cut_length_field_not_read :
    (do
      let (_, sent) ← NoiseConn.writeAll taggingCipher ⟨0, 0⟩ [[]]
      NoiseConn.readMany taggingCipher MessageMaxSize ⟨0, 0⟩ (.ofChunks [sent.take 1, sent.drop 1]) 1) =
      .ok [([], some (.new "read invalid length field"))] := rfl

/-- Whether the length field that the next read takes from a stream is whole and exceeds the
buffer. -/
def oversized (bufferSize : ℕ) (s : Stream) : Prop :=
  (s.read LengthSize).1.length = LengthSize ∧ bufferSize < fromBigEndian (s.read LengthSize).1

/-- A length field that exceeds an admitted buffer makes reading slice beyond it. -/
theorem NoiseConn.read_oversized (cipher : Cipher) {bufferSize : ℕ}
    (hbuffer : PayloadMaxSize ≤ bufferSize) (c : NoiseConn) {s : Stream}
    (h : oversized bufferSize s) :
    c.read cipher bufferSize s = panicRuntime "slice bounds out of range" := by
  obtain ⟨hlength, hlarge⟩ := h
  have hne : (s.read LengthSize).1 ≠ [] := List.ne_nil_of_length_pos (by rw [hlength]; decide)
  have hdecode : decodeLength (s.read LengthSize).1 = .ok (fromBigEndian (s.read LengthSize).1) := by
    rw [decodeLength, if_neg (not_not.mpr hlength)]
  simp only [NoiseConn.read, if_neg (not_lt.mpr hbuffer), if_neg hne, hlength, ne_eq,
    not_true_eq_false, if_false, hdecode, if_pos hlarge]

/-- A length field that does not exceed the buffer lets reading return, with a payload that fits
into it. -/
theorem NoiseConn.read_returns (cipher : Cipher) {bufferSize : ℕ} (c : NoiseConn) {s : Stream}
    (h : ¬ oversized bufferSize s) :
    ∃ c' s' payload err, c.read cipher bufferSize s = .ok (c', s', payload, err) ∧ payload.length ≤ bufferSize := by
  rw [NoiseConn.read]
  split
  · exact ⟨_, _, _, _, rfl, Nat.zero_le _⟩
  simp only
  split
  · exact ⟨_, _, _, _, rfl, Nat.zero_le _⟩
  split
  · exact ⟨_, _, _, _, rfl, Nat.zero_le _⟩
  next hlength =>
  push Not at hlength
  have hdecode : decodeLength (s.read LengthSize).1 = .ok (fromBigEndian (s.read LengthSize).1) := by
    rw [decodeLength, if_neg (not_not.mpr hlength)]
  have hfits : fromBigEndian (s.read LengthSize).1 ≤ bufferSize := not_lt.mp fun hlarge => h ⟨hlength, hlarge⟩
  simp only [hdecode, if_neg (not_lt.mpr hfits)]
  split
  · exact ⟨_, _, _, _, rfl, Nat.zero_le _⟩
  split
  · exact ⟨_, _, _, _, rfl, Nat.zero_le _⟩
  next plaintext hplaintext =>
  split
  · exact ⟨_, _, _, _, rfl, Nat.zero_le _⟩
  next hsize =>
  push Not at hsize
  refine ⟨_, _, _, _, rfl, ?_⟩
  -- the payload is shorter than its message by the tag
  rw [payloadSize] at hsize
  omega

/-- A stream that delivers a length field of an arbitrary value in one chunk. -/
def lengthStream (size : ℕ) : Stream := .ofChunk (lengthBytes size)

/-- The length field of that stream exceeds a buffer that is smaller. -/
theorem lengthStream_oversized {bufferSize size : ℕ} (hsize : size ≤ MaxLength)
    (h : bufferSize < size) :
    oversized bufferSize (lengthStream size) := by
  have hread : ((lengthStream size).read LengthSize).1 = lengthBytes size := rfl
  have hlt : size < 256 ^ LengthSize := Nat.lt_of_le_of_lt hsize (by decide)
  rw [oversized, hread, lengthBytes_length, lengthBytes, fromBigEndian_bigEndian _ _ hlt]
  exact ⟨rfl, h⟩

/-- Reading into an admitted buffer stays in its bounds exactly if the length field of the peer does
not exceed the buffer; it does so for every stream exactly if the buffer holds the largest
message. -/
theorem secure_read_in_bounds (cipher : Cipher) (bufferSize : ℕ)
    (hbuffer : PayloadMaxSize ≤ bufferSize) :
    (∀ (c : NoiseConn) (s : Stream), ¬ oversized bufferSize s →
      ∃ c' s' payload err, c.read cipher bufferSize s = .ok (c', s', payload, err) ∧ payload.length ≤ bufferSize) ∧
    (∀ (c : NoiseConn) (s : Stream), oversized bufferSize s →
      c.read cipher bufferSize s = panicRuntime "slice bounds out of range") ∧
    ((∀ s, ¬ oversized bufferSize s) ↔ MessageMaxSize ≤ bufferSize) := by
  refine ⟨fun c s h => c.read_returns cipher h, fun c s h => c.read_oversized cipher hbuffer h, ?_⟩
  constructor
  · intro hnever
    by_contra hsmall
    exact hnever (lengthStream MessageMaxSize) (lengthStream_oversized le_rfl (not_le.mp hsmall))
  · intro hlarge s hover
    have hlt := fromBigEndian_lt (s.read LengthSize).1
    rw [hover.1] at hlt
    have hfield : fromBigEndian (s.read LengthSize).1 ≤ MessageMaxSize := Nat.le_of_lt_succ hlt
    exact absurd hover.2 (not_lt.mpr (hfield.trans hlarge))

/-- A payload is read into the smallest admitted buffer. -/
theorem secure_read_in_bounds_smallest :
    ¬ oversized PayloadMaxSize (.ofChunk (frame taggingCipher 0 [7])) ∧
      ∃ c' s' payload err, NoiseConn.read taggingCipher PayloadMaxSize ⟨0, 0⟩
          (.ofChunk (frame taggingCipher 0 [7])) = .ok (c', s', payload, err) ∧ payload.length ≤ PayloadMaxSize := by
  have hfits : ¬ oversized PayloadMaxSize (.ofChunk (frame taggingCipher 0 [7])) := by
    rw [oversized]
    decide
  exact ⟨hfits, (secure_read_in_bounds taggingCipher PayloadMaxSize le_rfl).1 ⟨0, 0⟩ _ hfits⟩

/-- A length field of one more than the smallest admitted buffer makes reading panic. -/
theorem smallest_buffer_overrun :
    ¬ PayloadMaxSize < PayloadMaxSize ∧
      NoiseConn.read taggingCipher PayloadMaxSize ⟨0, 0⟩ (lengthStream (PayloadMaxSize + 1)) =
        panicRuntime "slice bounds out of range" :=
  ⟨lt_irrefl _, NoiseConn.read_oversized taggingCipher le_rfl ⟨0, 0⟩
    (lengthStream_oversized (by decide) (Nat.lt_succ_self _))⟩

end ProjektCore.Secure
