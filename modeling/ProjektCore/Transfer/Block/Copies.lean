import ProjektCore.Transfer.Block.Filled

/-!
# A writer that copies data

`Writer.Copies` says that the blocks written so far are those of a given byte string, and that the
store does not fail. A writer that copies a byte string accepts each of its blocks once, and holds
exactly that byte string when it is done.
-/

namespace ProjektCore.Transfer.Writer

open Foundation

variable {sha256 : Bytes → Bytes} {data : Bytes} {s : Size} {w : Writer}

/-- A writer whose written blocks are those of given data, and whose store does not fail. -/
structure Copies (data : Bytes) (s : Size) (w : Writer) : Prop where
  faults : w.writer.faults = []
  totalSize : w.totalSize = data.length
  blockSize : w.blockSize = s
  filled : ∃ store blocks, store.data.length = data.length ∧ Filled store blocks w ∧
    ∀ b ∈ blocks, b.data = dataAt data s b.index

/-- A fresh writer over a store of the right size copies any data of that size. -/
theorem copies_newWriter (hfits : s.Fits data.length) {store : Store}
    (hlength : store.data.length = data.length) (hfaults : store.faults = []) :
    Copies data s (newWriter store data.length s) where
  faults := hfaults
  totalSize := rfl
  blockSize := rfl
  filled := ⟨store, [], hlength, filled_newWriter store (hfits.size_lt.trans (by decide)) s, by simp⟩

/-- The store has the size of the data. -/
theorem Copies.length (h : Copies data s w) : w.writer.data.length = data.length := by
  obtain ⟨store, blocks, hlength, hfilled, -⟩ := h.filled
  exact hfilled.length.trans hlength

/-- The bitmap has an entry for each block of the data. -/
theorem Copies.bitmap (h : Copies data s w) : w.written.length = s.blockCount data.length := by
  obtain ⟨store, blocks, -, hfilled, -⟩ := h.filled
  rw [hfilled.bitmap, blockCount, h.blockSize, h.totalSize]

/-- The store has the data at the blocks that are written. -/
theorem Copies.content (h : Copies data s w) (p : ℕ) (hp : p < data.length)
    (hmark : w.written[p / s.bytes]? = some true) : w.writer.data[p]? = data[p]? := by
  obtain ⟨store, blocks, -, hfilled, hdata⟩ := h.filled
  obtain ⟨b, hb, hindex⟩ := (hfilled.marked _).mp hmark
  obtain ⟨hfirst, hlast⟩ := (s.div_eq_iff_range p b.index).mp hindex.symm
  have hlength : b.data.length = min s.bytes (data.length - b.index * s.bytes) := by
    rw [hfilled.amount b hb, h.blockSize, h.totalSize]
  have hcontent := hfilled.content b hb (p - b.index * s.bytes) (by omega)
  rw [h.blockSize, Nat.add_sub_of_le hfirst, hdata b hb, dataAt_getElem? _ _ _ _ (by omega),
    Nat.add_sub_of_le hfirst] at hcontent
  exact hcontent

/-- A writer that copies data is done exactly if every block is written. -/
theorem Copies.isDone_iff (h : Copies data s w) : w.isDone = true ↔ ∀ b ∈ w.written, b = true := by
  obtain ⟨store, blocks, -, hfilled, -⟩ := h.filled
  rw [hfilled.isDone_iff, ← hfilled.bitmap, List.forall_mem_iff_getElem]
  refine forall₂_congr fun i hi => ?_
  rw [List.getElem?_eq_getElem hi, Option.some.injEq]

/-- A writer that copies data and is done holds the data. -/
theorem Copies.data_eq (h : Copies data s w) (hdone : w.isDone = true) : w.writer.data = data := by
  obtain ⟨store, blocks, -, hfilled, -⟩ := h.filled
  have hall := hfilled.isDone_iff.mp hdone
  apply List.ext_getElem?
  intro p
  by_cases hp : p < data.length
  · refine h.content p hp (hall _ ?_)
    rw [← hfilled.bitmap, h.bitmap]
    exact s.div_lt_blockCount hp
  · rw [List.getElem?_eq_none (by rw [h.length]; omega), List.getElem?_eq_none (by omega)]

/-- A block of the data passes all checks unless it was written before. -/
theorem Copies.checkBlock_eq (h : Copies data s w) (hfits : s.Fits data.length) {i : ℕ}
    (hi : i < s.blockCount data.length) :
    w.checkBlock sha256 (blockAt sha256 data s i) =
      .ok (if w.written[i]? = some true then some .alreadyWritten else none) := by
  have hlt := (s.lt_blockCount_iff data.length i).mp hi
  have hbit : i < w.written.length := by rw [h.bitmap]; exact hi
  have hoffset : w.offset i = i * s.bytes := by rw [offset, h.blockSize, Size.offset_eq hfits hi.le]
  have hamount : (dataAt data s i).length = w.amount (i * s.bytes) := by
    rw [amount, h.blockSize, h.totalSize, dataAt_length data s hi]
  simp only [checkBlock, blockAt, hoffset, h.totalSize,
    if_neg (by omega : ¬ i * s.bytes ≥ data.length), hamount, ne_eq, not_true_eq_false, if_false,
    List.getElem?_eq_getElem hbit, Option.some.injEq]
  cases w.written[i] <;> simp

/-- A block of the data that was not written before is written. -/
theorem Copies.writeBlock_eq (h : Copies data s w) (hfits : s.Fits data.length) {i : ℕ}
    (hi : i < s.blockCount data.length) (hnew : w.written[i]? = some false) :
    w.writeBlock sha256 (blockAt sha256 data s i) =
      .ok (w.withBlock s (blockAt sha256 data s i), none) := by
  have hlt := (s.lt_blockCount_iff data.length i).mp hi
  have hoffset : w.offset i = i * s.bytes := by rw [offset, h.blockSize, Size.offset_eq hfits hi.le]
  have hcheck : w.checkBlock sha256 (blockAt sha256 data s i) = .ok none := by
    rw [h.checkBlock_eq hfits hi, hnew]
    rfl
  have hend : i * s.bytes + (dataAt data s i).length ≤ w.writer.data.length := by
    rw [h.length, dataAt, List.length_take, List.length_drop]
    omega
  have hbit : i < w.written.length := by rw [h.bitmap]; exact hi
  exact writeBlock_of_calm hcheck hoffset (hlt.trans hfits.size_lt) h.faults hend hbit

/-- A block of the data that was written before is refused. -/
theorem Copies.writeBlock_again (h : Copies data s w) (hfits : s.Fits data.length) {i : ℕ}
    (hi : i < s.blockCount data.length) (hold : w.written[i]? = some true) :
    w.writeBlock sha256 (blockAt sha256 data s i) = .ok (w, some .alreadyWritten) := by
  simp [writeBlock, h.checkBlock_eq hfits hi, hold]

/-- Writing a new block of the data keeps the writer a copy of the data. -/
theorem Copies.withBlock (h : Copies data s w) (hfits : s.Fits data.length) {i : ℕ}
    (hi : i < s.blockCount data.length) (hnew : w.written[i]? = some false) :
    Copies data s (w.withBlock s (blockAt sha256 data s i)) := by
  obtain ⟨store, blocks, hlength, hfilled, hdata⟩ := h.filled
  refine ⟨h.faults, h.totalSize, h.blockSize, store, _, hlength, hfilled.write (h.writeBlock_eq hfits hi hnew), ?_⟩
  intro b hb
  rcases List.mem_append.mp hb with hb | hb
  · exact hdata b hb
  · rw [List.mem_singleton.mp hb]
    rfl

end ProjektCore.Transfer.Writer
