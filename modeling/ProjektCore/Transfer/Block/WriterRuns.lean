import ProjektCore.Transfer.Block.Filled

/-!
# Runs of the block writer

A block writer is called with arbitrary blocks, over a store whose calls may fail. After any such
run the bitmap, the counter and the store agree with the blocks that were accepted: a failed call
leaves at most some bytes in the range of its own block, which a later call overwrites.

A block is accepted exactly if it exists, has the right amount of data, was not written before and
carries its checksum. The bounds check is made on the wrapped offset, so that a block behind the end
of the store may pass it. Its number is then behind the end of the bitmap.
-/

namespace ProjektCore.Transfer

open Foundation

namespace Writer

/-- Write blocks one after the other, whatever the calls return. -/
def writeBlocks (sha256 : Bytes → Bytes) (w : Writer) : List Block → Go (Writer × List (Option Err))
  | [] => .ok (w, [])
  | block :: rest => do
    let (w, err) ← w.writeBlock sha256 block
    let (w, errs) ← w.writeBlocks sha256 rest
    return (w, err :: errs)

/-- The blocks for which no error was returned. -/
def accepted : List Block → List (Option Err) → List Block
  | block :: blocks, none :: errs => block :: accepted blocks errs
  | _ :: blocks, some _ :: errs => accepted blocks errs
  | _, _ => []

variable {sha256 : Bytes → Bytes} {w w' : Writer} {b : Block} {store : Store} {blocks calls : List Block}
  {errs : List (Option Err)}

/-- A call that returns an error keeps the blocks that are written. -/
theorem Filled.refuse (h : Filled store blocks w) {err : Err}
    (hwrite : w.writeBlock sha256 b = .ok (w', some err)) :
    Filled store blocks w' := by
  cases writeBlock_outcome hwrite with
  | refused _ => exact h
  | failed _ htorn => exact h.torn htorn

/-- Writing a block does not change the sizes of a writer. -/
theorem writeBlock_sizes {err : Option Err} (hwrite : w.writeBlock sha256 b = .ok (w', err)) :
    w'.totalSize = w.totalSize ∧ w'.blockSize = w.blockSize := by
  cases writeBlock_outcome hwrite with
  | written => exact ⟨rfl, rfl⟩
  | refused _ => exact ⟨rfl, rfl⟩
  | failed _ _ => exact ⟨rfl, rfl⟩

/-- The first call of a run and the run of the others. -/
theorem writeBlocks_cons (hrun : w.writeBlocks sha256 (b :: calls) = .ok (w', errs)) :
    ∃ mid err rest, w.writeBlock sha256 b = .ok (mid, err) ∧ mid.writeBlocks sha256 calls = .ok (w', rest) ∧
      errs = err :: rest := by
  simp only [writeBlocks, Call.bind_eq_ok] at hrun
  obtain ⟨⟨mid, err⟩, hwrite, ⟨last, rest⟩, hrest, hend⟩ := hrun
  simp only [Call.pure_eq_ok, Except.ok.injEq, Prod.mk.injEq] at hend
  obtain ⟨rfl, rfl⟩ := hend
  exact ⟨mid, err, rest, hwrite, hrest, rfl⟩

/-- After a run the writer has written what it had written before and the blocks that were
accepted. -/
theorem Filled.run (h : Filled store blocks w)
    (hrun : w.writeBlocks sha256 calls = .ok (w', errs)) :
    Filled store (blocks ++ accepted calls errs) w' ∧ w'.totalSize = w.totalSize ∧ w'.blockSize = w.blockSize := by
  induction calls generalizing w blocks errs with
  | nil =>
    simp only [writeBlocks, Except.ok.injEq, Prod.mk.injEq] at hrun
    obtain ⟨rfl, rfl⟩ := hrun
    rw [accepted, List.append_nil]
    · exact ⟨h, rfl, rfl⟩
    all_goals simp
  | cons b calls ih =>
    obtain ⟨mid, err, rest, hwrite, hrest, rfl⟩ := writeBlocks_cons hrun
    obtain ⟨htotal, hblock⟩ := writeBlock_sizes hwrite
    rw [← htotal, ← hblock]
    cases err with
    | none =>
      rw [accepted, List.append_cons]
      exact ih (h.write hwrite) hrest
    | some err =>
      rw [accepted]
      exact ih (h.refuse hwrite) hrest

/-- A fresh writer after a run. -/
theorem filled_of_writeBlocks {size : ℕ} (hsize : size < 2 ^ 64) {s : Size}
    (hrun : (newWriter store size s).writeBlocks sha256 calls = .ok (w, errs)) :
    Filled store (accepted calls errs) w ∧ w.totalSize = size ∧ w.blockSize = s :=
  (filled_newWriter store hsize s).run hrun

/-- A block passes the checks exactly if it exists, has the right amount of data, is not written and
carries its checksum. -/
theorem Filled.checkBlock_iff (h : Filled store blocks w) :
    w.checkBlock sha256 b = .ok none ↔
      b.index < w.blockCount ∧ b.data.length = min w.blockSize.bytes (w.totalSize - b.index * w.blockSize.bytes) ∧
        (∀ other ∈ blocks, other.index ≠ b.index) ∧ b.checksum = computeChecksum sha256 b.index b.data := by
  constructor
  · intro hcheck
    obtain ⟨hamount, hunwritten, hchecksum⟩ := passes_of_checkBlock hcheck
    obtain ⟨hlt, -, hoffset⟩ := h.offset_eq hunwritten
    rw [Writer.amount, hoffset, w.blockSize.amount_eq hlt] at hamount
    exact ⟨hlt, hamount, h.fresh hunwritten, hchecksum.symm⟩
  · rintro ⟨hlt, hamount, hfresh, hchecksum⟩
    have hbit : b.index < w.written.length := by rw [h.bitmap]; exact hlt
    have hunwritten : w.written[b.index]? = some false := by
      rw [List.getElem?_eq_getElem hbit, Option.some.injEq, Bool.eq_false_iff]
      intro htrue
      obtain ⟨other, hother, hindex⟩ := (h.marked b.index).mp (by rw [List.getElem?_eq_getElem hbit, htrue])
      exact hfresh other hother hindex
    obtain ⟨-, hinside, hoffset⟩ := h.offset_eq hunwritten
    have hlength : b.data.length = w.amount (b.index * w.blockSize.bytes) := by
      rw [Writer.amount, w.blockSize.amount_eq hlt, hamount]
    simp only [checkBlock, hoffset, if_neg (Nat.not_le.mpr hinside), hlength, ne_eq,
      not_true_eq_false, if_false, hunwritten, hchecksum]

/-- The checks panic exactly at a block behind the end whose wrapped offset and amount of data
fit. -/
theorem Filled.checkBlock_panics_iff (h : Filled store blocks w) :
    (∃ value, w.checkBlock sha256 b = .error value) ↔
      w.blockCount ≤ b.index ∧ w.offset b.index < w.totalSize ∧ b.data.length = w.amount (w.offset b.index) := by
  by_cases hinside : w.offset b.index < w.totalSize
  · by_cases hamount : b.data.length = w.amount (w.offset b.index)
    · by_cases hbit : b.index < w.written.length
      · -- a number inside the bitmap leads to one of the three last answers
        have hanswer : ∃ answer, w.checkBlock sha256 b = .ok answer := by
          simp only [checkBlock, if_neg (Nat.not_le.mpr hinside), hamount, ne_eq, not_true_eq_false,
            if_false, List.getElem?_eq_getElem hbit]
          cases w.written[b.index] with
          | true => exact ⟨_, rfl⟩
          | false =>
            by_cases hchecksum : computeChecksum sha256 b.index b.data = b.checksum
            · exact ⟨none, if_neg (not_not.mpr hchecksum)⟩
            · exact ⟨_, if_pos hchecksum⟩
        obtain ⟨answer, hanswer⟩ := hanswer
        rw [h.bitmap] at hbit
        simp [hanswer, Nat.not_le.mpr hbit]
      · have hpanics : w.checkBlock sha256 b = panicRuntime "index out of range" := by
          simp only [checkBlock, if_neg (Nat.not_le.mpr hinside), hamount, ne_eq, not_true_eq_false,
            if_false, List.getElem?_eq_none (Nat.not_lt.mp hbit)]
        rw [h.bitmap] at hbit
        exact iff_of_true ⟨_, hpanics⟩ ⟨Nat.not_lt.mp hbit, hinside, hamount⟩
    · have hanswer : w.checkBlock sha256 b = .ok (some .badBlockData) := by
        simp only [checkBlock, if_neg (Nat.not_le.mpr hinside), if_pos hamount]
      simp [hanswer, hamount]
  · have hanswer : w.checkBlock sha256 b = .ok (some .writerBoundsExceeded) := if_pos (Nat.not_lt.mp hinside)
    simp [hanswer, hinside]

/-- The checks return for every block whose offset does not wrap. -/
theorem Filled.checkBlock_returns (sha256 : Bytes → Bytes) (h : Filled store blocks w)
    (hsmall : b.index * w.blockSize.bytes < 2 ^ 64) :
    ∃ answer, w.checkBlock sha256 b = .ok answer := by
  cases hcheck : w.checkBlock sha256 b with
  | ok answer => exact ⟨answer, rfl⟩
  | error value =>
    -- an offset that does not wrap lies behind the end if the block does
    obtain ⟨hbehind, hinside, -⟩ := h.checkBlock_panics_iff.mp ⟨value, hcheck⟩
    have hoffset : w.offset b.index = b.index * w.blockSize.bytes := Nat.mod_eq_of_lt hsmall
    rw [hoffset, ← w.blockSize.lt_blockCount_iff] at hinside
    exact absurd hinside (Nat.not_lt.mpr hbehind)

/-- After any run a block is accepted exactly if it exists, has the right amount of data, was not
written before and carries its checksum. The check returns for every block whose offset does not
wrap; it panics exactly at a block behind the end whose wrapped offset and amount of data fit. -/
theorem checkBlock_exact (sha256 : Bytes → Bytes) (store : Store) {size : ℕ} (hsize : size < 2 ^ 64)
    (s : Size) {calls : List Block} {w : Writer} {errs : List (Option Err)}
    (hrun : (newWriter store size s).writeBlocks sha256 calls = .ok (w, errs)) (b : Block) :
    (b.index * s.bytes < 2 ^ 64 → ∃ answer, w.checkBlock sha256 b = .ok answer) ∧
      (w.checkBlock sha256 b = .ok none ↔
        b.index < s.blockCount size ∧ b.data.length = min s.bytes (size - b.index * s.bytes) ∧
          (∀ other ∈ accepted calls errs, other.index ≠ b.index) ∧
          b.checksum = computeChecksum sha256 b.index b.data) ∧
      ((∃ value, w.checkBlock sha256 b = .error value) ↔
        s.blockCount size ≤ b.index ∧ s.offset b.index < size ∧
          b.data.length = s.amount (s.offset b.index) size) := by
  obtain ⟨hfilled, rfl, rfl⟩ := filled_of_writeBlocks hsize hrun
  exact ⟨hfilled.checkBlock_returns sha256, hfilled.checkBlock_iff, hfilled.checkBlock_panics_iff⟩

/-- A file of three bytes in blocks of two whose first block was accepted: the second block is
accepted, the first one is not. -/
theorem checkBlock_exact_second :
    checkBlock id ⟨⟨[7, 8, 0], 0, []⟩, 3, ⟨2, by decide⟩, [true, false], 1⟩ (blockAt id [7, 8, 9] ⟨2, by decide⟩ 1) =
        .ok none ∧
      checkBlock id ⟨⟨[7, 8, 0], 0, []⟩, 3, ⟨2, by decide⟩, [true, false], 1⟩ (blockAt id [7, 8, 9] ⟨2, by decide⟩ 0) ≠
        .ok none := by
  have hrun : (newWriter (.make 3) 3 ⟨2, by decide⟩).writeBlocks id [blockAt id [7, 8, 9] ⟨2, by decide⟩ 0] =
      .ok (⟨⟨[7, 8, 0], 0, []⟩, 3, ⟨2, by decide⟩, [true, false], 1⟩, [none]) := rfl
  obtain ⟨-, haccepted, -⟩ := checkBlock_exact id (.make 3) (by decide) _ hrun (blockAt id [7, 8, 9] ⟨2, by decide⟩ 1)
  obtain ⟨-, hrefused, -⟩ := checkBlock_exact id (.make 3) (by decide) _ hrun (blockAt id [7, 8, 9] ⟨2, by decide⟩ 0)
  refine ⟨haccepted.mpr ⟨by decide, by decide, ?_, rfl⟩, ?_⟩
  · intro other hother
    rw [List.mem_singleton.mp hother]
    decide
  · intro hcheck
    exact (hrefused.mp hcheck).2.2.1 _ List.mem_cons_self rfl

/-- A file of two bytes in one block: the offset of block `2 ^ 63` wraps to the start of the file,
and the writer panics at it. -/
theorem writeBlock_panics_wrapped :
    (newWriter (.make 2) 2 ⟨2, by decide⟩).writeBlock id ⟨2 ^ 63, [7, 8], []⟩ = panicRuntime "index out of range" :=
  rfl

/-- A call that returns an error changes no byte outside the range of its block. -/
theorem Filled.refuse_outside (h : Filled store blocks w) {err : Err}
    (hwrite : w.writeBlock sha256 b = .ok (w', some err)) {p : ℕ}
    (hp : ¬ (p / w.blockSize.bytes = b.index ∧ p < w.totalSize)) :
    w'.writer.data[p]? = w.writer.data[p]? := by
  cases writeBlock_outcome hwrite with
  | refused _ => rfl
  | failed _ htorn => exact h.torn_outside htorn hp

/-- A call that returns an error marks nothing. -/
theorem writeBlock_error_marks {err : Err} (hwrite : w.writeBlock sha256 b = .ok (w', some err)) :
    w'.written = w.written ∧ w'.writtenCount = w.writtenCount := by
  cases writeBlock_outcome hwrite with
  | refused _ => exact ⟨rfl, rfl⟩
  | failed _ _ => exact ⟨rfl, rfl⟩

/-- After any run over a store that may fail: the counter is the number of marks; the writer is done
exactly if all blocks are marked; a call that returns an error marks nothing and changes no byte
outside the range of its block; one block was accepted for each mark, and its data is what the store
has. -/
theorem writeBlocks_represents (sha256 : Bytes → Bytes) (store : Store) {size : ℕ}
    (hsize : size < 2 ^ 64) (s : Size) {calls : List Block} {w : Writer} {errs : List (Option Err)}
    (hrun : (newWriter store size s).writeBlocks sha256 calls = .ok (w, errs)) :
    (w.written.length = s.blockCount size ∧ w.writtenCount = w.written.count true) ∧
      (w.isDone = true ↔ ∀ i < s.blockCount size, w.written[i]? = some true) ∧
      (∀ (b : Block) (w' : Writer) (err : Err), w.writeBlock sha256 b = .ok (w', some err) →
        w'.written = w.written ∧ w'.writtenCount = w.writtenCount ∧
          ∀ p, ¬ (p / s.bytes = b.index ∧ p < size) → w'.writer.data[p]? = w.writer.data[p]?) ∧
      ((accepted calls errs).map Block.index).Nodup ∧
      (∀ i, w.written[i]? = some true ↔ ∃ b ∈ accepted calls errs, b.index = i) ∧
      ∀ b ∈ accepted calls errs, b.data.length = min s.bytes (size - b.index * s.bytes) ∧
        ∀ j < b.data.length, w.writer.data[b.index * s.bytes + j]? = b.data[j]? := by
  obtain ⟨h, rfl, rfl⟩ := filled_of_writeBlocks hsize hrun
  refine ⟨⟨h.bitmap, h.count⟩, h.isDone_iff, ?_, h.nodup, h.marked, fun b hb => ⟨h.amount b hb, h.content b hb⟩⟩
  intro b w' err hwrite
  obtain ⟨hwritten, hcount⟩ := writeBlock_error_marks hwrite
  exact ⟨hwritten, hcount, fun p hp => h.refuse_outside hwrite hp⟩

/-- The first block is torn after one byte, which its second attempt overwrites; the last one is
torn after its only byte and not marked. -/
theorem writeBlocks_represents_torn :
    let data : Bytes := [7, 8, 9]
    let w : Writer := ⟨⟨data, 2, []⟩, 3, ⟨2, by decide⟩, [true, false], 1⟩
    w.isDone = false ∧ ∀ j < 2, w.writer.data[0 * 2 + j]? = (dataAt data ⟨2, by decide⟩ 0)[j]? := by
  intro data w
  have hrun : (newWriter ⟨[0, 0, 0], 0, [none, some 1, none, none, none, some 1]⟩ 3 ⟨2, by decide⟩).writeBlocks id
      [blockAt id [7, 8, 9] ⟨2, by decide⟩ 0, blockAt id [7, 8, 9] ⟨2, by decide⟩ 0,
        blockAt id [7, 8, 9] ⟨2, by decide⟩ 1] =
      .ok (⟨⟨[7, 8, 9], 2, []⟩, 3, ⟨2, by decide⟩, [true, false], 1⟩,
        [some Store.ioError, none, some Store.ioError]) := rfl
  obtain ⟨-, hdone, -, -, -, hcontent⟩ := writeBlocks_represents id _ (by decide) _ hrun
  refine ⟨?_, (hcontent (blockAt id [7, 8, 9] ⟨2, by decide⟩ 0) List.mem_cons_self).2⟩
  rw [Bool.eq_false_iff, Ne, hdone]
  intro hall
  exact absurd (hall 1 (by decide)) (by decide)

end Writer

end ProjektCore.Transfer
