import ProjektCore.Errors
import ProjektCore.Foundation.Bytes

/-!
# Block arithmetic and block messages

A file of `size` bytes is cut into blocks of one size, the last one possibly shorter. Offsets are
computed in 64-bit arithmetic and wrap; under the bounds of `Size.Fits` they do not.

The hash function behind a checksum is a parameter. Nothing here depends on which one it is.
-/

namespace ProjektCore.Transfer

open Foundation

/-- The size of a block; a size of 0 cannot be built. -/
structure Size where
  bytes : ℕ
  pos : 0 < bytes
deriving DecidableEq

/-- A block of data with its position and checksum. -/
structure Block where
  index : ℕ
  data : Bytes
  checksum : Bytes
deriving Repr, DecidableEq

/-- The checksum of a block: the hash of its 64-bit big-endian index and its data. -/
def computeChecksum (sha256 : Bytes → Bytes) (index : ℕ) (data : Bytes) : Bytes :=
  sha256 (bigEndian 8 index ++ data)

namespace Size

/-- The number of blocks of a file. -/
def blockCount (s : Size) (size : ℕ) : ℕ :=
  if size = 0 then 0 else (size - 1) / s.bytes + 1

/-- The offset of a block, in wrapping 64-bit arithmetic. -/
def offset (s : Size) (index : ℕ) : ℕ := index * s.bytes % 2 ^ 64

/-- The index of the block at an offset. -/
def index (s : Size) (offset : ℕ) : ℕ := offset / s.bytes

/-- The number of bytes of the block at an offset. -/
def amount (s : Size) (offset size : ℕ) : ℕ :=
  if offset ≥ size then 0 else min s.bytes (size - offset)

/-- The range of file and block sizes in which no offset up to the end of the file wraps. -/
structure Fits (s : Size) (size : ℕ) : Prop where
  size_lt : size < 2 ^ 63
  bytes_le : s.bytes ≤ 2 ^ 63

/-- A block exists exactly if it starts inside the file. -/
theorem lt_blockCount_iff (s : Size) (size i : ℕ) : i < s.blockCount size ↔ i * s.bytes < size := by
  by_cases h : size = 0
  · simp [blockCount, h]
  · rw [blockCount, if_neg h, Nat.lt_succ_iff, Nat.le_div_iff_mul_le s.pos]
    omega

/-- A file with some bytes has a block. -/
theorem blockCount_pos (s : Size) (size : ℕ) (h : 0 < size) : 0 < s.blockCount size := by
  rw [lt_blockCount_iff]
  omega

/-- The end of the last block is less than one block behind the end of the file. -/
theorem blockCount_mul_lt (s : Size) (size : ℕ) : s.blockCount size * s.bytes < size + s.bytes := by
  by_cases h : size = 0
  · simp [blockCount, h, s.pos]
  · have hdiv := Nat.div_mul_le_self (size - 1) s.bytes
    rw [blockCount, if_neg h, Nat.add_one_mul]
    omega

/-- Up to the end of the file an offset is the plain product. -/
theorem offset_eq {s : Size} {size : ℕ} (h : s.Fits size) {i : ℕ} (hi : i ≤ s.blockCount size) :
    s.offset i = i * s.bytes := by
  have hend := s.blockCount_mul_lt size
  have hle : i * s.bytes ≤ s.blockCount size * s.bytes := Nat.mul_le_mul_right _ hi
  have hsize := h.size_lt
  have hbytes := h.bytes_le
  apply Nat.mod_eq_of_lt
  omega

/-- The offset of an existing block is the plain product, however large the blocks are. -/
theorem offset_eq_of_lt (s : Size) {size i : ℕ} (hsize : size < 2 ^ 64)
    (hi : i < s.blockCount size) :
    s.offset i = i * s.bytes := by
  have hlt := (s.lt_blockCount_iff size i).mp hi
  exact Nat.mod_eq_of_lt (hlt.trans hsize)

/-- The blocks reach up to the end of the file. -/
theorem le_blockCount_mul (s : Size) (size : ℕ) : size ≤ s.blockCount size * s.bytes := by
  by_contra hlt
  have hbelow := (s.lt_blockCount_iff size (s.blockCount size)).mpr (Nat.lt_of_not_le hlt)
  exact Nat.lt_irrefl _ hbelow

/-- The bytes of an existing block. -/
theorem amount_eq (s : Size) {size i : ℕ} (hi : i < s.blockCount size) :
    s.amount (i * s.bytes) size = min s.bytes (size - i * s.bytes) := by
  have hlt := (s.lt_blockCount_iff size i).mp hi
  rw [amount, if_neg (by omega)]

/-- A position of the file belongs to a block exactly if it lies in the block's range. -/
theorem div_eq_iff_range (s : Size) (position i : ℕ) :
    position / s.bytes = i ↔ i * s.bytes ≤ position ∧ position < i * s.bytes + s.bytes := by
  rw [Nat.div_eq_iff s.pos]
  have := s.pos
  omega

/-- The range of an existing block has the positions of the file that belong to the block. -/
theorem range_iff (s : Size) {size i : ℕ} (hi : i < s.blockCount size) (position : ℕ) :
    i * s.bytes ≤ position ∧ position < i * s.bytes + s.amount (i * s.bytes) size ↔
      position < size ∧ position / s.bytes = i := by
  have hlt := (s.lt_blockCount_iff size i).mp hi
  rw [s.div_eq_iff_range, s.amount_eq hi]
  omega

/-- Every position of the file belongs to an existing block. -/
theorem div_lt_blockCount (s : Size) {size position : ℕ} (h : position < size) :
    position / s.bytes < s.blockCount size := by
  rw [lt_blockCount_iff]
  exact lt_of_le_of_lt (Nat.div_mul_le_self position s.bytes) h

end Size

/-- The data of a block of a file. -/
def dataAt (data : Bytes) (s : Size) (i : ℕ) : Bytes := (data.drop (i * s.bytes)).take s.bytes

/-- The block that a reader produces for an index of a file. -/
def blockAt (sha256 : Bytes → Bytes) (data : Bytes) (s : Size) (i : ℕ) : Block where
  index := i
  data := dataAt data s i
  checksum := computeChecksum sha256 i (dataAt data s i)

/-- The data of a block has the amount of bytes that the block arithmetic computes. -/
theorem dataAt_length (data : Bytes) (s : Size) {i : ℕ} (hi : i < s.blockCount data.length) :
    (dataAt data s i).length = s.amount (i * s.bytes) data.length := by
  rw [s.amount_eq hi, dataAt, List.length_take, List.length_drop]

/-- The data of a block is the file at the block's range. -/
theorem dataAt_getElem? (data : Bytes) (s : Size) (i j : ℕ) (hj : j < s.bytes) :
    (dataAt data s i)[j]? = data[i * s.bytes + j]? := by
  rw [dataAt, List.getElem?_take_of_lt hj, List.getElem?_drop]

end ProjektCore.Transfer
