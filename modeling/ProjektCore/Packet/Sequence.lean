import ProjektCore.Foundation.Conn
import ProjektCore.Packet

/-!
# Sequences of packets

Packets are written one after the other and read back by decoding one packet at a time. A packet
says where it ends, so a reader finds the same packets wherever the stream is cut into chunks, and
notices a stream that ends inside a packet. A packet that is too large stops the sequence before any
of its bytes is written.
-/

namespace ProjektCore.Packet

open Foundation

/-- Write a packet; the number of bytes counts only if the length could be written. -/
def writeTo (data : Bytes) (w : Conn Err) : ℕ × Option Err × Conn Err :=
  match lengthOf data with
  | .error err => (0, some err, w)
  | .ok length =>
    let n1 := (w.accepts (lengthBytes length)).1
    match w.write (lengthBytes length) with
    | (some err, w) => (0, some err, w)
    | (none, w) =>
      let n2 := (w.accepts data).1
      (n1 + n2, w.write data)

/-- Decode a packet from a byte string that holds nothing else. -/
def decode (raw : Bytes) : Except Err Bytes :=
  if raw.length < LengthSize then .error (.new "missing length header")
  else
    match decodeLength (raw.take LengthSize) with
    | .error err => .error err
    | .ok length =>
      if raw.length - LengthSize ≠ length then
        .error (.new "length of remaining bytes does not conform to header value")
      else .ok (raw.drop LengthSize)

/-- The number of bytes that encode a packet. -/
def size (data : Bytes) : ℕ := LengthSize + data.length

/-- Write packets one after the other, up to the first error. -/
def sequenceWriteTo : List Bytes → Conn Err → ℕ × Option Err × Conn Err
  | [], w => (0, none, w)
  | packet :: rest, w =>
    match writeTo packet w with
    | (m, some err, w) => (m, some err, w)
    | (m, none, w) =>
      let (n, err, w) := sequenceWriteTo rest w
      (m + n, err, w)

/-- The number of bytes that encode a sequence of packets. -/
def sequenceSize (packets : List Bytes) : ℕ := (packets.map size).sum

/-- Decode from a stream a number of times, whether or not a packet can be decoded. -/
def decodeTimes : ℕ → Stream → List (Bytes × Option Err) × Stream
  | 0, s => ([], s)
  | times + 1, s =>
    let (data, s, err) := decodeFrom s
    let (results, s) := decodeTimes times s
    ((data, err) :: results, s)

/-- The bytes of a sequence of packets. -/
def encodeAll (packets : List Bytes) : Bytes := (packets.map encode).flatten

/-- The size of a sequence is the number of its bytes. -/
theorem encodeAll_length (packets : List Bytes) :
    (encodeAll packets).length = sequenceSize packets := by
  induction packets with
  | nil => rfl
  | cons packet rest ih =>
    rw [encodeAll] at ih
    rw [encodeAll, List.map_cons, List.flatten_cons, List.length_append, encode_length, ih]
    rfl

/-- A packet that is too large is refused before anything is written. -/
theorem writeTo_tooLarge {data : Bytes} (h : MaxLength < data.length) (w : Conn Err) :
    writeTo data w = (0, some (.new "the data may not exceed 65535 bytes"), w) := by
  rw [writeTo, lengthOf, if_pos h]

/-- A packet is written as its encoding to a writer that does not fail. -/
theorem writeTo_eq {data : Bytes} (hsize : data.length ≤ MaxLength) {w : Conn Err}
    (hw : w.NeverFails) :
    ∃ w', writeTo data w = (size data, none, w') ∧ w'.NeverFails ∧ w'.outgoing = w.outgoing ++ encode data := by
  have hlength : lengthOf data = .ok data.length := by rw [lengthOf, if_neg (by omega)]
  obtain ⟨haccepts, hwrite⟩ := hw.write (lengthBytes data.length)
  have hw' : (w.took (lengthBytes data.length)).NeverFails := hw
  obtain ⟨haccepts', hwrite'⟩ := hw'.write data
  refine ⟨(w.took (lengthBytes data.length)).took data, ?_, hw', ?_⟩
  · simp only [writeTo, hlength, haccepts, hwrite, haccepts', hwrite', lengthBytes_length, size]
  · simp only [Conn.took, encode, List.append_assoc]

/-- A sequence is written as the encodings of its packets, up to the first one that is too large. -/
theorem sequenceWriteTo_append {packets : List Bytes} (hsizes : ∀ p ∈ packets, p.length ≤ MaxLength)
    (rest : List Bytes) {w : Conn Err} (hw : w.NeverFails) :
    ∃ w', w'.NeverFails ∧ w'.outgoing = w.outgoing ++ encodeAll packets ∧
      sequenceWriteTo (packets ++ rest) w =
        (sequenceSize packets + (sequenceWriteTo rest w').1, (sequenceWriteTo rest w').2) := by
  induction packets generalizing w with
  | nil => exact ⟨w, hw, (List.append_nil _).symm, by simp [sequenceSize]⟩
  | cons packet more ih =>
    obtain ⟨w₁, hfirst, hw₁, hout₁⟩ := writeTo_eq (hsizes packet List.mem_cons_self) hw
    obtain ⟨w₂, hw₂, hout₂, hmore⟩ := ih (fun p hp => hsizes p (List.mem_cons_of_mem packet hp)) hw₁
    refine ⟨w₂, hw₂, ?_, ?_⟩
    · rw [hout₂, hout₁, List.append_assoc]
      rfl
    · rw [List.cons_append, sequenceWriteTo, hfirst]
      simp only [hmore, sequenceSize, List.map_cons, List.sum_cons, Nat.add_assoc]

/-- Decoding more often than there are packets at the start of a stream goes on behind them. -/
theorem decodeTimes_append {packets : List Bytes} (hsizes : ∀ p ∈ packets, p.length ≤ MaxLength)
    (times : ℕ) {s : Stream} {rest : Bytes} (h : s.pending = encodeAll packets ++ rest) :
    ∃ s' : Stream, s'.pending = rest ∧
      decodeTimes (packets.length + times) s =
        (packets.map (·, none) ++ (decodeTimes times s').1, (decodeTimes times s').2) := by
  induction packets generalizing s with
  | nil => exact ⟨s, h, by simp⟩
  | cons packet more ih =>
    rw [encodeAll, List.map_cons, List.flatten_cons, List.append_assoc] at h
    have hfirst := decodeFrom_append (hsizes packet List.mem_cons_self) h
    have hbehind : Stream.pending (s.drop (LengthSize + packet.length)) = encodeAll more ++ rest := by
      rw [Stream.pending_drop, h, List.drop_left' (encode_length packet)]
      rfl
    obtain ⟨s', hpending, hmore⟩ := ih (fun p hp => hsizes p (List.mem_cons_of_mem packet hp)) hbehind
    refine ⟨s', hpending, ?_⟩
    rw [List.length_cons, Nat.add_right_comm, decodeTimes, hfirst]
    simp only [hmore, List.map_cons, List.cons_append]

/-- A byte string decodes to a packet exactly if it is the encoding of the packet. -/
theorem decode_eq_ok_iff {raw data : Bytes} :
    decode raw = .ok data ↔ data.length ≤ MaxLength ∧ raw = encode data := by
  constructor
  · intro h
    by_cases hshort : raw.length < LengthSize
    · simp [decode, hshort] at h
    have htake : (raw.take LengthSize).length = LengthSize := by
      rw [List.length_take]
      omega
    have hheader : decodeLength (raw.take LengthSize) = .ok (fromBigEndian (raw.take LengthSize)) := by
      rw [decodeLength, if_neg (by simp [htake])]
    rw [decode, if_neg hshort, hheader] at h
    simp only at h
    split at h
    · simp at h
    · next hlength =>
      push Not at hlength
      obtain rfl := Except.ok.inj h
      have hbytes := bigEndian_fromBigEndian (raw.take LengthSize)
      rw [htake, ← hlength] at hbytes
      have hdrop : (raw.drop LengthSize).length = raw.length - LengthSize := List.length_drop
      refine ⟨?_, ?_⟩
      · have hlt := fromBigEndian_lt (raw.take LengthSize)
        rw [htake, LengthSize] at hlt
        rw [hdrop, hlength, MaxLength, LengthSize]
        omega
      · rw [encode, lengthBytes, hdrop, hbytes, List.take_append_drop]
  · rintro ⟨hsize, rfl⟩
    have hlength := encode_length data
    have htake : (encode data).take LengthSize = lengthBytes data.length := List.take_left' (lengthBytes_length _)
    have hdrop : (encode data).drop LengthSize = data := List.drop_left' (lengthBytes_length _)
    rw [decode, if_neg (by omega), htake, decodeLength_lengthBytes hsize]
    simp only [hlength, hdrop, Nat.add_sub_cancel_left, ne_eq, not_true_eq_false, if_false]

/-- Filling a buffer from a stream that is too short is an error. -/
theorem readFull_short {s : Stream} {size : ℕ} (h : s.length < size) :
    ∃ err, readFull s size = (s.pending, [], some err) := by
  have hlength : s.pending.length ≠ size := by
    rw [Stream.pending_length]
    omega
  refine ⟨if s.pending = [] then .eof else .unexpectedEOF, ?_⟩
  simp only [readFull, Stream.readFull_eq]
  rw [List.take_of_length_le (by rw [Stream.pending_length]; omega), List.drop_of_length_le h.le,
    if_neg hlength]

/-- A stream that ends inside a packet does not decode to one. -/
theorem decodeFrom_cut {data : Bytes} (hsize : data.length ≤ MaxLength) {s : Stream}
    (hcut : s.pending <+: encode data) (hinside : s.pending ≠ encode data) :
    ∃ result rest err, decodeFrom s = (result, rest, some err) := by
  have hlength : s.length < LengthSize + data.length := by
    rw [← Stream.pending_length, ← encode_length]
    exact lt_of_le_of_ne hcut.length_le fun heq => hinside (hcut.eq_of_length heq)
  by_cases hheader : s.length < LengthSize
  · obtain ⟨err, hshort⟩ := readFull_short hheader
    exact ⟨[], [], err, by rw [decodeFrom, hshort]⟩
  · obtain ⟨rest, hrest⟩ : ∃ rest, s.pending = lengthBytes data.length ++ rest := by
      obtain ⟨tail, htail⟩ := hcut
      rw [encode] at htail
      have hle : (lengthBytes data.length).length ≤ s.pending.length := by
        rw [lengthBytes_length, Stream.pending_length]
        omega
      obtain ⟨rest, hrest⟩ := List.prefix_of_prefix_length_le ⟨data, rfl⟩ ⟨tail, htail⟩ hle
      exact ⟨rest, hrest.symm⟩
    have hfull := readFull_append hrest
    rw [lengthBytes_length] at hfull
    have hbehind : (s.drop LengthSize).length < data.length := by
      rw [List.length_drop]
      omega
    obtain ⟨err, hshort⟩ := readFull_short hbehind
    have hdecode : decodeFrom s = (Stream.pending (s.drop LengthSize) ++
        List.replicate (data.length - (Stream.pending (s.drop LengthSize)).length) 0, [], some err) := by
      simp only [decodeFrom, hfull, decodeLength_lengthBytes hsize, hshort]
    exact ⟨_, _, _, hdecode⟩

/-- The packet format. A sequence is written with as many bytes as its size, and these decode to the
same packets and then to the end of the stream, wherever the stream is cut into chunks. A packet
that is too large is refused before any of its bytes is written. A byte string decodes exactly if it
is the encoding of a packet, and a stream that ends inside a packet is an error after the packets
before it. -/
theorem packet_format :
    (∀ (w : Conn Err) (packets : List Bytes), w.NeverFails → (∀ p ∈ packets, p.length ≤ MaxLength) →
      ∃ emitted w', sequenceWriteTo packets w = (sequenceSize packets, none, w') ∧
        w'.outgoing = w.outgoing ++ emitted ∧ emitted.length = sequenceSize packets ∧
        ∀ s : Stream, s.pending = emitted →
          decodeTimes (packets.length + 1) s = (packets.map (·, none) ++ [([], some .eof)], [])) ∧
    (∀ (w : Conn Err) (big : Bytes), MaxLength < big.length →
      writeTo big w = (0, some (.new "the data may not exceed 65535 bytes"), w)) ∧
    (∀ (w : Conn Err) (packets rest : List Bytes) (big : Bytes), w.NeverFails →
      (∀ p ∈ packets, p.length ≤ MaxLength) → MaxLength < big.length →
      ∃ w', sequenceWriteTo (packets ++ big :: rest) w =
          (sequenceSize packets, some (.new "the data may not exceed 65535 bytes"), w') ∧
        w'.outgoing = w.outgoing ++ encodeAll packets) ∧
    (∀ raw data : Bytes, decode raw = .ok data ↔ data.length ≤ MaxLength ∧ raw = encode data) ∧
    (∀ (w : Conn Err) (data : Bytes), w.NeverFails → data.length ≤ MaxLength →
      ∃ w', writeTo data w = (size data, none, w') ∧ w'.outgoing = w.outgoing ++ encode data) ∧
    (∀ (packets : List Bytes) (data cut : Bytes) (s : Stream), (∀ p ∈ packets, p.length ≤ MaxLength) →
      data.length ≤ MaxLength → cut <+: encode data → cut ≠ encode data → s.pending = encodeAll packets ++ cut →
      ∃ result rest err,
        decodeTimes (packets.length + 1) s = (packets.map (·, none) ++ [(result, some err)], rest)) := by
  refine ⟨?_, fun w big hbig => writeTo_tooLarge hbig w, ?_, fun raw data => decode_eq_ok_iff, ?_, ?_⟩
  · intro w packets hw hsizes
    obtain ⟨w', -, hout, hwrite⟩ := sequenceWriteTo_append hsizes [] hw
    rw [List.append_nil] at hwrite
    refine ⟨encodeAll packets, w', hwrite, hout, encodeAll_length packets, ?_⟩
    intro s hs
    obtain ⟨s', hpending, hdecode⟩ := decodeTimes_append hsizes 1 (hs.trans (List.append_nil _).symm)
    have hend : s' = [] := List.map_eq_nil_iff.mp hpending
    rw [hdecode, hend]
    rfl
  · intro w packets rest big hw hsizes hbig
    obtain ⟨w', -, hout, hwrite⟩ := sequenceWriteTo_append hsizes (big :: rest) hw
    refine ⟨w', ?_, hout⟩
    rw [hwrite, sequenceWriteTo, writeTo_tooLarge hbig]
    rfl
  · intro w data hw hsize
    obtain ⟨w', hwrite, -, hout⟩ := writeTo_eq hsize hw
    exact ⟨w', hwrite, hout⟩
  · intro packets data cut s hsizes hsize hcut hinside hs
    obtain ⟨s', hpending, hdecode⟩ := decodeTimes_append hsizes 1 hs
    obtain ⟨result, rest, err, hfrom⟩ := decodeFrom_cut hsize (hpending ▸ hcut) (hpending ▸ hinside)
    refine ⟨result, rest, err, ?_⟩
    rw [hdecode, decodeTimes, hfrom]
    rfl

/-- A writer that takes everything. -/
def sink : Conn Err := .new ⟨fun _ => 0, fun _ => none, fun _ p => (p.length, none)⟩ [] .eof

/-- An empty packet and one of two bytes, written and read back byte by byte. -/
theorem packet_format_two :
    ∃ emitted w', sequenceWriteTo [[], [7, 8]] sink = (6, none, w') ∧ w'.outgoing = emitted ∧
      emitted = [0, 0, 0, 2, 7, 8] ∧
      decodeTimes 3 (.ofChunks [[0], [0], [0], [2], [7], [8]]) =
        ([([], none), ([7, 8], none), ([], some .eof)], []) := by
  obtain ⟨emitted, w', hwrite, hout, -, hdecode⟩ := packet_format.1 sink [[], [7, 8]] (fun _ _ => rfl) (by decide)
  have hemitted : emitted = [0, 0, 0, 2, 7, 8] := by
    have hsent : w'.outgoing = [0, 0, 0, 2, 7, 8] :=
      congrArg (fun result : ℕ × Option Err × Conn Err => result.2.2.outgoing) hwrite.symm
    exact hout.symm.trans hsent
  exact ⟨emitted, w', hwrite, hout, hemitted, hdecode _ (hemitted ▸ rfl)⟩

end ProjektCore.Packet
