import ProjektCore.Errors
import ProjektCore.Foundation.Stream

/-!
# Packets

A packet is a byte string behind a two-byte big-endian length. Writing a packet takes two calls to
write, one for the length and one for the data; decoding reads both in full.
-/

namespace ProjektCore.Packet

open Foundation

/-- The bytes of a length field. -/
def LengthSize : ℕ := 2

/-- The largest length of a packet. -/
def MaxLength : ℕ := 2 ^ (LengthSize * 8) - 1

/-- The length of a byte string, if a packet can have it. -/
def lengthOf (data : Bytes) : Except Err ℕ :=
  if data.length > MaxLength then .error (.new "the data may not exceed 65535 bytes") else .ok data.length

/-- Decode a length field. -/
def decodeLength (raw : Bytes) : Except Err ℕ :=
  if raw.length ≠ LengthSize then .error (.new "a length field must be 2 bytes long")
  else .ok (fromBigEndian raw)

/-- Encode a length. -/
def lengthBytes (length : ℕ) : Bytes := bigEndian LengthSize length

/-- The two writes that a packet takes, in their order. -/
def writeCalls (data : Bytes) : Except Err (List Bytes) := do
  let length ← lengthOf data
  return [lengthBytes length, data]

/-- Fill a buffer from a stream; a stream that ends in between is an error. -/
def readFull (s : Stream) (size : ℕ) : Bytes × Stream × Option Err :=
  let (bytes, s) := s.readFull size
  if bytes.length = size then (bytes, s, none)
  else (bytes, s, some (if bytes = [] then .eof else .unexpectedEOF))

/-- Decode a packet from a stream; the data of an incomplete packet is filled up with zeroes. -/
def decodeFrom (s : Stream) : Bytes × Stream × Option Err :=
  match readFull s LengthSize with
  | (_, s, some err) => ([], s, some err)
  | (header, s, none) =>
    match decodeLength header with
    | .error err => ([], s, some err)
    | .ok length =>
      match readFull s length with
      | (bytes, s, err) => (bytes ++ List.replicate (length - bytes.length) 0, s, err)

/-- The encoding of a packet. -/
def encode (data : Bytes) : Bytes := lengthBytes data.length ++ data

/-- Decode packets until one cannot be decoded. -/
def decodeLoop : (fuel : ℕ) → Stream → List Bytes
  | 0, _ => []
  | fuel + 1, s =>
    match decodeFrom s with
    | (data, s, none) => data :: decodeLoop fuel s
    | (_, _, some _) => []

/-- The packets of a stream; every packet takes some of its bytes. -/
def decodeAll (s : Stream) : List Bytes := decodeLoop s.length s

/-- A length field has its size. -/
@[simp] theorem lengthBytes_length (length : ℕ) : (lengthBytes length).length = LengthSize :=
  bigEndian_length _ _

/-- Decoding an encoded length gives it back. -/
theorem decodeLength_lengthBytes {length : ℕ} (h : length ≤ MaxLength) :
    decodeLength (lengthBytes length) = .ok length := by
  have hlt : length < 256 ^ LengthSize := by
    rw [MaxLength, LengthSize] at h
    rw [LengthSize]
    omega
  rw [decodeLength, if_neg (by simp), lengthBytes, fromBigEndian_bigEndian _ _ hlt]

/-- Filling a buffer from a stream that has enough bytes. -/
theorem readFull_eq {s : Stream} {size : ℕ} (h : size ≤ s.length) :
    readFull s size = (s.pending.take size, s.drop size, none) := by
  have hlength : (s.pending.take size).length = size := by
    rw [List.length_take, Stream.pending_length]
    omega
  simp only [readFull, Stream.readFull_eq, hlength, if_true]

/-- Filling a buffer with the bytes that a stream starts with. -/
theorem readFull_append {s : Stream} {bytes rest : Bytes} (h : s.pending = bytes ++ rest) :
    readFull s bytes.length = (bytes, s.drop bytes.length, none) := by
  have hlength : bytes.length ≤ s.length := by
    rw [← Stream.pending_length, h, List.length_append]
    omega
  rw [readFull_eq hlength, h, List.take_left]

/-- A packet at the start of a stream is decoded, wherever the stream is cut. -/
theorem decodeFrom_append {s : Stream} {data rest : Bytes} (hsize : data.length ≤ MaxLength)
    (h : s.pending = lengthBytes data.length ++ data ++ rest) :
    decodeFrom s = (data, s.drop (LengthSize + data.length), none) := by
  rw [List.append_assoc] at h
  have hheader := readFull_append h
  rw [lengthBytes_length] at hheader
  have hrest : Stream.pending (s.drop LengthSize) = data ++ rest := by
    rw [Stream.pending_drop, h]
    exact List.drop_left' (lengthBytes_length _)
  have hbody := readFull_append hrest
  rw [decodeFrom, hheader]
  simp only [decodeLength_lengthBytes hsize, hbody, Nat.sub_self, List.replicate_zero,
    List.append_nil, List.drop_drop]

/-- The size of an encoded packet. -/
theorem encode_length (data : Bytes) : (encode data).length = LengthSize + data.length := by
  rw [encode, List.length_append, lengthBytes_length]

/-- The start of a packet that is not empty, up to its length field. -/
def Incomplete (tail : Bytes) : Prop :=
  tail = [] ∨ ∃ data : Bytes, data ≠ [] ∧ data.length ≤ MaxLength ∧ tail = lengthBytes data.length

/-- A stream that ends before a packet is complete does not decode to one. -/
theorem decodeFrom_incomplete {s : Stream} (h : Incomplete s.pending) :
    ∃ data rest err, decodeFrom s = (data, rest, some err) := by
  rcases h with h | ⟨data, hdata, hsize, h⟩
  · have hs : s = [] := List.map_eq_nil_iff.mp h
    subst hs
    exact ⟨[], [], .eof, rfl⟩
  · have hheader := readFull_append (h.trans (List.append_nil _).symm)
    have hlength : s.length = LengthSize := by rw [← Stream.pending_length, h, lengthBytes_length]
    rw [lengthBytes_length, List.drop_of_length_le hlength.le] at hheader
    have hshort : readFull [] data.length = ([], [], some .eof) := by
      have hne : ¬ 0 = data.length := fun h0 => hdata (List.length_eq_zero_iff.mp h0.symm)
      simp [readFull, Stream.readFull_eq, Stream.pending, hne]
    refine ⟨List.replicate data.length 0, [], .eof, ?_⟩
    simp only [decodeFrom, hheader, decodeLength_lengthBytes hsize, hshort]
    simp

/-- Complete packets, possibly followed by a length field, decode to the packets. -/
theorem decodeLoop_eq (fuel : ℕ) (s : Stream) (packets : List Bytes) {tail : Bytes}
    (hsizes : ∀ p ∈ packets, p.length ≤ MaxLength) (hfuel : packets.length ≤ fuel)
    (htail : Incomplete tail) (h : s.pending = (packets.map encode).flatten ++ tail) :
    decodeLoop fuel s = packets := by
  induction packets generalizing fuel s with
  | nil =>
    cases fuel with
    | zero => rfl
    | succ fuel =>
      rw [List.map_nil, List.flatten_nil, List.nil_append] at h
      obtain ⟨data, rest, err, hdecode⟩ := decodeFrom_incomplete (h ▸ htail)
      rw [decodeLoop, hdecode]
  | cons packet rest ih =>
    cases fuel with
    | zero => simp at hfuel
    | succ fuel =>
      have hfirst := hsizes packet List.mem_cons_self
      rw [List.map_cons, List.flatten_cons, List.append_assoc] at h
      have hbehind : Stream.pending (s.drop (LengthSize + packet.length)) = (rest.map encode).flatten ++ tail := by
        rw [Stream.pending_drop, h, List.drop_left' (encode_length packet)]
      simp only [decodeLoop, decodeFrom_append hfirst h]
      rw [ih fuel _ (fun p hp => hsizes p (List.mem_cons_of_mem packet hp)) (Nat.le_of_succ_le_succ hfuel) hbehind]

/-- A stream of complete packets, possibly followed by a length field, decodes to the packets. -/
theorem decodeAll_eq (s : Stream) (packets : List Bytes) {tail : Bytes}
    (hsizes : ∀ p ∈ packets, p.length ≤ MaxLength) (htail : Incomplete tail)
    (h : s.pending = (packets.map encode).flatten ++ tail) : decodeAll s = packets := by
  refine decodeLoop_eq s.length s packets hsizes ?_ htail h
  have hcount : packets.length ≤ ((packets.map encode).flatten).length := by
    clear h hsizes
    induction packets with
    | nil => exact Nat.zero_le _
    | cons packet rest ih =>
      rw [List.map_cons, List.flatten_cons, List.length_append, List.length_cons, encode_length,
        LengthSize]
      omega
  rw [← Stream.pending_length, h, List.length_append]
  omega

end ProjektCore.Packet
