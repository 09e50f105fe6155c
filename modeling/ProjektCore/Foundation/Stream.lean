import ProjektCore.Foundation.Bytes

/-!
# Byte streams that arrive in chunks

A stream delivers its bytes in order, cut into chunks at any places. One read returns at most the
rest of the current chunk; reading in full repeats reads until enough bytes arrived or the stream
ends. What a full read returns does not depend on the cuts, what a single read returns does.
-/

namespace ProjektCore.Foundation

/-- A byte that is still to be delivered, and whether it is the first one of a chunk. -/
structure Arriving where
  byte : UInt8
  first : Bool
deriving Repr, DecidableEq

/-- The bytes of a stream that are still to be delivered. -/
abbrev Stream := List Arriving

namespace Stream

/-- The bytes of a stream without the cuts. -/
def pending (s : Stream) : Bytes := s.map Arriving.byte

/-- The stream that delivers one chunk. -/
def ofChunk : Bytes → Stream
  | [] => []
  | byte :: rest => ⟨byte, true⟩ :: rest.map fun b => ⟨b, false⟩

/-- The stream that delivers given chunks. -/
def ofChunks (chunks : List Bytes) : Stream := (chunks.map ofChunk).flatten

/-- Whether the stream is cut before the byte at a position. -/
def cutBefore (s : Stream) (position : ℕ) : Prop := (s[position]?.map Arriving.first) = some true

instance (s : Stream) (position : ℕ) : Decidable (s.cutBefore position) :=
  inferInstanceAs (Decidable (_ = _))

/-- The number of bytes that arrive together with the first one. -/
def available : Stream → ℕ
  | [] => 0
  | _ :: rest => 1 + (rest.takeWhile fun b => !b.first).length

/-- One read into a buffer of a size. -/
def read (s : Stream) (size : ℕ) : Bytes × Stream :=
  (pending (s.take (min size s.available)), s.drop (min size s.available))

/-- Repeat reads until the buffer is full or the stream ends; every read gets at least one byte. -/
def readLoop : (fuel : ℕ) → Stream → ℕ → Bytes × Stream
  | 0, s, _ => ([], s)
  | fuel + 1, s, size =>
    if size = 0 ∨ s = [] then ([], s)
    else
      let (got, s) := s.read size
      let (more, s) := readLoop fuel s (size - got.length)
      (got ++ more, s)

/-- Read until the buffer is full or the stream ends. -/
def readFull (s : Stream) (size : ℕ) : Bytes × Stream := readLoop size s size

/-- The pending bytes of a stream are as many as the stream has. -/
@[simp] theorem pending_length (s : Stream) : s.pending.length = s.length := List.length_map ..

/-- Reading from a stream removes the bytes read from the pending ones. -/
@[simp] theorem pending_drop (s : Stream) (n : ℕ) :
    pending (s.drop n) = s.pending.drop n := List.map_drop

/-- Reading from a stream returns the first pending bytes. -/
@[simp] theorem pending_take (s : Stream) (n : ℕ) :
    pending (s.take n) = s.pending.take n := List.map_take

/-- The cuts behind the bytes read stay where they are. -/
theorem cutBefore_drop (s : Stream) (n position : ℕ) :
    (cutBefore (s.drop n) position) ↔ s.cutBefore (n + position) := by
  rw [cutBefore, cutBefore, List.getElem?_drop]

/-- A stream with bytes has some of them available, and no more than it has. -/
theorem available_pos {s : Stream} (h : s ≠ []) : 0 < s.available ∧ s.available ≤ s.length := by
  cases s with
  | nil => exact absurd rfl h
  | cons b rest =>
    have hle := (List.takeWhile_sublist (fun b : Arriving => !b.first) (l := rest)).length_le
    simp only [available, List.length_cons]
    omega

/-- A single read returns two bytes exactly if the stream is not cut before the second one. -/
theorem two_le_available_iff {s : Stream} (h : 2 ≤ s.length) :
    2 ≤ s.available ↔ ¬ s.cutBefore 1 := by
  match s, h with
  | first :: second :: rest, _ =>
    cases hcut : second.first with
    | true => simp [available, cutBefore, hcut]
    | false =>
      simp only [available, cutBefore, List.takeWhile_cons, hcut, Bool.not_false, if_true,
        List.length_cons]
      simp [hcut]
      omega

/-- Reading in full takes as many bytes as requested, wherever the stream is cut. -/
theorem readLoop_eq (fuel : ℕ) (s : Stream) (size : ℕ) (h : size ≤ fuel) :
    readLoop fuel s size = (s.pending.take size, s.drop size) := by
  induction fuel generalizing s size with
  | zero =>
    obtain rfl : size = 0 := by omega
    rfl
  | succ fuel ih =>
    by_cases hstop : size = 0 ∨ s = []
    · rw [readLoop, if_pos hstop]
      rcases hstop with rfl | rfl <;> simp [pending]
    · have hsize : size ≠ 0 := fun hz => hstop (.inl hz)
      obtain ⟨hpos, hle⟩ := available_pos fun hs => hstop (.inr hs)
      have hmin : min size s.available ≤ s.length := by omega
      have hgot : (pending (s.take (min size s.available))).length = min size s.available := by
        rw [pending_length, List.length_take]
        omega
      have hall : min size s.available + (size - min size s.available) = size := by omega
      rw [readLoop, if_neg hstop]
      simp only [read, hgot]
      rw [ih _ _ (by omega), pending_drop, pending_take, List.drop_drop, hall, ← List.take_add,
        hall]

/-- Reading in full takes as many bytes as requested, wherever the stream is cut. -/
theorem readFull_eq (s : Stream) (size : ℕ) :
    s.readFull size = (s.pending.take size, s.drop size) :=
  readLoop_eq size s size le_rfl

end Stream

end ProjektCore.Foundation
