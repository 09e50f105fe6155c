import Mathlib.Data.Set.Lattice
import ProjektCore.Transfer.Block.Size

/-!
# Block arithmetic on machine words

The four functions of a block size compute on words of 64 bits, where sums and products wrap. Each
of them computes what the function of `Size` does on the numbers that the words stand for, so that
the model of the transfer, which counts in numbers, is exact for all words. The blocks then cut a
file of any size without gaps and overlaps.
-/

namespace ProjektCore.Transfer

/-- The size of a block as a word; a size of 0 cannot be built. -/
structure WordSize where
  bytes : UInt64
  pos : 0 < bytes
deriving DecidableEq

/-- The smaller one of two words. -/
def minWord (a b : UInt64) : UInt64 := if a < b then a else b

/-- The smaller one of two words stands for the smaller one of two numbers. -/
theorem toNat_minWord (a b : UInt64) : (minWord a b).toNat = min a.toNat b.toNat := by
  rw [minWord]
  split
  · next hless => exact (Nat.min_eq_left (UInt64.lt_iff_toNat_lt.mp hless).le).symm
  · next hmore =>
    rw [UInt64.lt_iff_toNat_lt] at hmore
    exact (Nat.min_eq_right (Nat.le_of_not_lt hmore)).symm

namespace WordSize

/-- The number of blocks of a file. -/
def blockCount (s : WordSize) (size : UInt64) :
    UInt64 := if size = 0 then 0 else (size - 1) / s.bytes + 1

/-- The offset of a block. -/
def offset (s : WordSize) (index : UInt64) : UInt64 := index * s.bytes

/-- The index of the block at an offset. -/
def index (s : WordSize) (offset : UInt64) : UInt64 := offset / s.bytes

/-- The number of bytes of the block at an offset. -/
def amount (s : WordSize) (offset size : UInt64) : UInt64 :=
  if offset ≥ size then 0
  else
    let remaining := size - offset
    minWord s.bytes remaining

/-- The end of a block. -/
def blockEnd (s : WordSize) (size i : UInt64) : UInt64 := s.offset i + s.amount (s.offset i) size

/-- The positions from the offset of a block up to its end. -/
def range (s : WordSize) (size i : UInt64) :
    Set UInt64 := {p | s.offset i ≤ p ∧ p < s.blockEnd size i}

/-- The number that a block size stands for. -/
def toSize (s : WordSize) : Size := ⟨s.bytes.toNat, UInt64.lt_iff_toNat_lt.mp s.pos⟩

variable (s : WordSize) (size : UInt64) {i j : UInt64}

/-- The number of blocks does not wrap. -/
theorem toNat_blockCount : (s.blockCount size).toNat = s.toSize.blockCount size.toNat := by
  rw [blockCount, Size.blockCount]
  by_cases hsize : size = 0
  · rw [if_pos hsize, hsize]
    rfl
  · have hpos : size.toNat ≠ 0 := fun hzero => hsize (UInt64.toNat_inj.mp hzero)
    have hone : (1 : UInt64) ≤ size := UInt64.le_iff_toNat_le.mpr (Nat.one_le_iff_ne_zero.mpr hpos)
    have hdiv : (size.toNat - 1) / s.bytes.toNat ≤ size.toNat - 1 := Nat.div_le_self _ _
    have hword := size.toNat_lt
    rw [if_neg hsize, if_neg hpos, UInt64.toNat_add, UInt64.toNat_div,
      UInt64.toNat_sub_of_le _ _ hone]
    exact Nat.mod_eq_of_lt (Nat.lt_of_le_of_lt (Nat.add_le_add_right hdiv 1) (by omega))

/-- The offset wraps as the number does. -/
theorem toNat_offset (i : UInt64) :
    (s.offset i).toNat = s.toSize.offset i.toNat := UInt64.toNat_mul _ _

/-- The index of an offset. -/
theorem toNat_index (offset : UInt64) :
    (s.index offset).toNat = s.toSize.index offset.toNat := UInt64.toNat_div _ _

/-- The number of bytes at an offset. -/
theorem toNat_amount (offset : UInt64) :
    (s.amount offset size).toNat = s.toSize.amount offset.toNat size.toNat := by
  rw [amount, Size.amount]
  by_cases houtside : offset ≥ size
  · rw [if_pos houtside, if_pos (UInt64.le_iff_toNat_le.mp houtside)]
    rfl
  · have hinside : offset.toNat < size.toNat := by
      rw [ge_iff_le, UInt64.le_iff_toNat_le] at houtside
      exact Nat.lt_of_not_le houtside
    have hremaining : (size - offset).toNat = size.toNat - offset.toNat :=
      UInt64.toNat_sub_of_le _ _ (UInt64.le_iff_toNat_le.mpr hinside.le)
    rw [if_neg houtside, if_neg (Nat.not_le.mpr hinside), toNat_minWord, hremaining]
    rfl

variable {s size}

/-- A word is the index of an existing block exactly if its number is. -/
theorem lt_blockCount_iff : i < s.blockCount size ↔ i.toNat < s.toSize.blockCount size.toNat := by
  rw [UInt64.lt_iff_toNat_lt, toNat_blockCount]

section Blocks

variable (hi : i < s.blockCount size)
include hi

/-- An existing block starts inside the file. -/
theorem mul_lt : i.toNat * s.bytes.toNat < size.toNat :=
  (s.toSize.lt_blockCount_iff size.toNat i.toNat).mp (lt_blockCount_iff.mp hi)

/-- The offset of an existing block does not wrap. -/
theorem toNat_offset_of_lt : (s.offset i).toNat = i.toNat * s.bytes.toNat := by
  rw [toNat_offset]
  exact s.toSize.offset_eq_of_lt size.toNat_lt (lt_blockCount_iff.mp hi)

/-- The offset of an existing block is inside the file. -/
theorem offset_lt : s.offset i < size := by
  rw [UInt64.lt_iff_toNat_lt, toNat_offset_of_lt hi]
  exact mul_lt hi

/-- The offset of an existing block leads back to its index. -/
theorem index_offset : s.index (s.offset i) = i := by
  apply UInt64.toNat_inj.mp
  rw [toNat_index, toNat_offset_of_lt hi]
  exact Nat.mul_div_cancel _ s.toSize.pos

/-- The number of bytes of an existing block: a whole block, or what is left of the file. -/
theorem toNat_amount_offset :
    (s.amount (s.offset i) size).toNat = min s.bytes.toNat (size.toNat - i.toNat * s.bytes.toNat) := by
  rw [toNat_amount, toNat_offset_of_lt hi]
  exact s.toSize.amount_eq (lt_blockCount_iff.mp hi)

/-- An existing block has a byte. -/
theorem one_le_amount : 1 ≤ s.amount (s.offset i) size := by
  have hinside := mul_lt hi
  have hpos : 0 < s.bytes.toNat := s.toSize.pos
  have hone : (1 : UInt64).toNat = 1 := rfl
  rw [UInt64.le_iff_toNat_le, toNat_amount_offset hi, hone]
  omega

/-- An existing block is not larger than the block size. -/
theorem amount_le : s.amount (s.offset i) size ≤ s.bytes := by
  rw [UInt64.le_iff_toNat_le, toNat_amount_offset hi]
  exact Nat.min_le_left _ _

/-- The end of an existing block does not wrap, since it is not behind the end of the file. -/
theorem toNat_blockEnd :
    (s.blockEnd size i).toNat = (s.offset i).toNat + (s.amount (s.offset i) size).toNat := by
  have hinside := mul_lt hi
  have hword := size.toNat_lt
  rw [blockEnd, UInt64.toNat_add]
  apply Nat.mod_eq_of_lt
  rw [toNat_offset_of_lt hi, toNat_amount_offset hi]
  omega

/-- The positions of an existing block are those of the file with the index of the block. -/
theorem mem_range_iff {p : UInt64} : p ∈ s.range size i ↔ p < size ∧ s.index p = i := by
  have hrange := s.toSize.range_iff (lt_blockCount_iff.mp hi) p.toNat
  have hbounds : p ∈ s.range size i ↔ (s.offset i).toNat ≤ p.toNat ∧ p.toNat < (s.blockEnd size i).toNat := by
    rw [range, Set.mem_ofPred_eq, UInt64.le_iff_toNat_le, UInt64.lt_iff_toNat_lt]
  rw [hbounds, toNat_blockEnd hi, toNat_amount, toNat_offset_of_lt hi, UInt64.lt_iff_toNat_lt,
    ← UInt64.toNat_inj, toNat_index]
  exact hrange

end Blocks

/-- A block ends before the next one starts. -/
theorem blockEnd_le_offset (hij : i < j) (hj : j < s.blockCount size) :
    s.blockEnd size i ≤ s.offset j := by
  rw [UInt64.lt_iff_toNat_lt] at hij
  have hi : i < s.blockCount size := UInt64.lt_iff_toNat_lt.mpr (hij.trans (UInt64.lt_iff_toNat_lt.mp hj))
  have hnext : (i.toNat + 1) * s.bytes.toNat ≤ j.toNat * s.bytes.toNat := Nat.mul_le_mul_right _ hij
  have hamount := Nat.min_le_left s.bytes.toNat (size.toNat - i.toNat * s.bytes.toNat)
  rw [UInt64.le_iff_toNat_le, toNat_blockEnd hi, toNat_amount_offset hi, toNat_offset_of_lt hi,
    toNat_offset_of_lt hj]
  rw [Nat.add_one_mul] at hnext
  omega

/-- Every position of the file has the index of an existing block. -/
theorem index_lt_blockCount {p : UInt64} (hp : p < size) : s.index p < s.blockCount size := by
  rw [lt_blockCount_iff, toNat_index]
  exact s.toSize.div_lt_blockCount (UInt64.lt_iff_toNat_lt.mp hp)

/-- Different blocks have no position in common: a position has one index. -/
theorem range_inter_range (hi : i < s.blockCount size) (hj : j < s.blockCount size) (hne : i ≠ j) :
    s.range size i ∩ s.range size j = ∅ := by
  apply Set.eq_empty_of_forall_notMem
  rintro p ⟨hpi, hpj⟩
  have hindex : s.index p = i := ((mem_range_iff hi).mp hpi).2
  have hother : s.index p = j := ((mem_range_iff hj).mp hpj).2
  exact hne (hindex.symm.trans hother)

/-- The blocks have all positions of the file: a position is in the block of its index. -/
theorem iUnion_range : ⋃ i ∈ {i | i < s.blockCount size}, s.range size i = {p | p < size} := by
  ext p
  rw [Set.mem_iUnion₂]
  constructor
  · rintro ⟨i, hi, hp⟩
    exact ((mem_range_iff hi).mp hp).1
  · intro hp
    exact ⟨s.index p, index_lt_blockCount hp, (mem_range_iff (index_lt_blockCount hp)).mpr ⟨hp, rfl⟩⟩

/-- The offset behind the last block is behind the file if it cannot wrap. -/
theorem toNat_offset_blockCount (hfits : size.toNat + s.bytes.toNat ≤ 2 ^ 64) :
    (s.offset (s.blockCount size)).toNat = (s.blockCount size).toNat * s.bytes.toNat ∧
      size ≤ s.offset (s.blockCount size) := by
  have hend : s.toSize.blockCount size.toNat * s.bytes.toNat < size.toNat + s.bytes.toNat :=
    s.toSize.blockCount_mul_lt size.toNat
  have hfile : size.toNat ≤ s.toSize.blockCount size.toNat * s.bytes.toNat := s.toSize.le_blockCount_mul size.toNat
  have hoffset : (s.offset (s.blockCount size)).toNat = (s.blockCount size).toNat * s.bytes.toNat := by
    rw [offset, UInt64.toNat_mul, toNat_blockCount]
    exact Nat.mod_eq_of_lt (hend.trans_le hfits)
  refine ⟨hoffset, ?_⟩
  rw [UInt64.le_iff_toNat_le, hoffset, toNat_blockCount]
  exact hfile

/-- The blocks of every block size partition every file, in wrapping arithmetic on words. The offset
and the end of an existing block do not wrap, the offset is inside the file and leads back to the
index, and the block has at least a byte and at most the block size. The ranges of the blocks follow
each other, are disjoint and cover the file. The offset behind the last block does not wrap and is
behind the file if the file and one more block fit. -/
theorem blocks_partition (s : WordSize) (size : UInt64) :
    (∀ i, i < s.blockCount size →
      (s.offset i).toNat = i.toNat * s.bytes.toNat ∧ s.offset i < size ∧ s.index (s.offset i) = i ∧
      1 ≤ s.amount (s.offset i) size ∧ s.amount (s.offset i) size ≤ s.bytes ∧
      (s.blockEnd size i).toNat = (s.offset i).toNat + (s.amount (s.offset i) size).toNat) ∧
    (∀ i j, i < j → j < s.blockCount size → s.blockEnd size i ≤ s.offset j) ∧
    (∀ i j, i < s.blockCount size → j < s.blockCount size → i ≠ j → s.range size i ∩ s.range size j = ∅) ∧
    ⋃ i ∈ {i | i < s.blockCount size}, s.range size i = {p | p < size} ∧
    (size.toNat + s.bytes.toNat ≤ 2 ^ 64 →
      (s.offset (s.blockCount size)).toNat = (s.blockCount size).toNat * s.bytes.toNat ∧
      size ≤ s.offset (s.blockCount size)) := by
  refine ⟨?_, fun i j hij hj => blockEnd_le_offset hij hj, fun i j hi hj hne => range_inter_range hi hj hne,
    iUnion_range, toNat_offset_blockCount⟩
  intro i hi
  exact ⟨toNat_offset_of_lt hi, offset_lt hi, index_offset hi, one_le_amount hi, amount_le hi, toNat_blockEnd hi⟩

/-- Blocks of half the words. -/
def halfWords : WordSize := ⟨0x8000000000000000, by decide⟩

/-- The largest file has two such blocks, and the second one leads back to its index. -/
theorem blocks_partition_largest :
    halfWords.blockCount 0xFFFFFFFFFFFFFFFF = 2 ∧ halfWords.index (halfWords.offset 1) = 1 ∧
      halfWords.blockEnd 0xFFFFFFFFFFFFFFFF 0 ≤ halfWords.offset 1 := by
  obtain ⟨hblocks, horder, -⟩ := blocks_partition halfWords 0xFFFFFFFFFFFFFFFF
  exact ⟨by decide, (hblocks 1 (by decide)).2.2.1, horder 0 1 (by decide) (by decide)⟩

-- the offset behind its last block wraps
example : halfWords.offset (halfWords.blockCount 0xFFFFFFFFFFFFFFFF) = 0 := by decide

end WordSize

end ProjektCore.Transfer
