import ProjektCore.Transfer.Block.Reader

/-!
# The block writer

A block writer puts blocks into a store of known size, in any order, each at most once. A block is
checked before anything is written: its offset, the length of its data, that it is not yet written,
and its checksum.
-/

namespace ProjektCore.Transfer

open Foundation

/-- Writes a store block by block. -/
structure Writer where
  writer : Store
  totalSize : ℕ
  blockSize : Size
  written : List Bool
  writtenCount : ℕ
deriving DecidableEq

/-- A writer of which no block is written. -/
def newWriter (writer : Store) (size : ℕ) (blockSize : Size) : Writer :=
  ⟨writer, size, blockSize, List.replicate (blockSize.blockCount size) false, 0⟩

namespace Writer

/-- The number of blocks of the store. -/
def blockCount (w : Writer) : ℕ := w.blockSize.blockCount w.totalSize

/-- Whether as many blocks were written as the store has. -/
def isDone (w : Writer) : Bool := w.writtenCount = w.blockCount

/-- The offset of a block. -/
def offset (w : Writer) (index : ℕ) : ℕ := w.blockSize.offset index

/-- The bytes of the block at an offset. -/
def amount (w : Writer) (offset : ℕ) : ℕ := w.blockSize.amount offset w.totalSize

/-- The checks that a block has to pass before it is written. -/
def checkBlock (sha256 : Bytes → Bytes) (w : Writer) (block : Block) : Go (Option Err) :=
  let offset := w.offset block.index
  if offset ≥ w.totalSize then .ok (some .writerBoundsExceeded)
  else if block.data.length ≠ w.amount offset then .ok (some .badBlockData)
  else match w.written[block.index]? with
    | none => panicRuntime "index out of range"
    | some true => .ok (some .alreadyWritten)
    | some false =>
      if computeChecksum sha256 block.index block.data ≠ block.checksum then .ok (some .badBlockChecksum)
      else .ok none

/-- Seek to the start of a block. -/
def seek (w : Writer) (index : ℕ) : Go (Writer × Option Err) :=
  let offset := w.offset index
  match w.writer.seek offset with
  | (store, _, some err) => .ok ({ w with writer := store }, some err)
  | (store, position, none) =>
    if position ≠ offset then panicText "seek position does not equal requested offset"
    else .ok ({ w with writer := store }, none)

/-- Write the data of a block at the cursor. -/
def write (w : Writer) (data : Bytes) : Go (Writer × Option Err) := do
  match ← w.writer.write data with
  | (store, _, some err) => return ({ w with writer := store }, some err)
  | (store, n, none) =>
    if n ≠ data.length then panicText "unexpected amount of bytes written"
    else return ({ w with writer := store }, none)

/-- Mark a block as written; the bitmap has an entry for it. -/
def mark (w : Writer) (index : ℕ) : Go Writer :=
  if index < w.written.length then
    .ok { w with written := w.written.set index true, writtenCount := w.writtenCount + 1 }
  else panicRuntime "index out of range"

/-- Check a block, write it and mark it as written. -/
def writeBlock (sha256 : Bytes → Bytes) (w : Writer) (block : Block) :
    Go (Writer × Option Err) := do
  match ← w.checkBlock sha256 block with
  | some err => return (w, some err)
  | none =>
    match ← w.seek block.index with
    | (w, some err) => return (w, some err)
    | (w, none) =>
      match ← w.write block.data with
      | (w, some err) => return (w, some err)
      | (w, none) => return (← w.mark block.index, none)

variable {sha256 : Bytes → Bytes} {s : Size} {w : Writer}

/-- A block whose checksum does not fit is refused, and the writer is unchanged. -/
theorem writeBlock_badChecksum {block : Block} {w' : Writer} {err : Option Err}
    (hbad : computeChecksum sha256 block.index block.data ≠ block.checksum)
    (h : w.writeBlock sha256 block = .ok (w', err)) : w' = w ∧ err.isSome := by
  simp only [writeBlock, Call.bind_eq_ok] at h
  obtain ⟨checked, hcheck, h⟩ := h
  cases checked with
  | some e =>
    simp only [Call.pure_eq_ok, Except.ok.injEq, Prod.mk.injEq] at h
    exact ⟨h.1.symm, by simp [← h.2]⟩
  | none =>
    exfalso
    revert hcheck
    simp only [checkBlock, hbad, ne_eq, not_false_eq_true, if_true]
    split <;> [simp; split <;> [simp; split <;> simp [panicRuntime]]]

/-- The writer after a block was written. -/
def withBlock (w : Writer) (s : Size) (block : Block) : Writer where
  writer := { w.writer.movedTo (block.index * s.bytes) with
    data := overwrite w.writer.data (block.index * s.bytes) block.data }
  totalSize := w.totalSize
  blockSize := w.blockSize
  written := w.written.set block.index true
  writtenCount := w.writtenCount + 1

/-- A block that passes all checks is written if its offset does not wrap and the store does not
fail and has room for it. -/
theorem writeBlock_of_calm {b : Block} (hcheck : w.checkBlock sha256 b = .ok none)
    (hoffset : w.offset b.index = b.index * s.bytes) (hsmall : b.index * s.bytes < 2 ^ 63)
    (hcalm : w.writer.faults = []) (hend : b.index * s.bytes + b.data.length ≤ w.writer.data.length)
    (hbit : b.index < w.written.length) : w.writeBlock sha256 b = .ok (w.withBlock s b, none) := by
  have hseek : w.seek b.index = .ok ({ w with writer := w.writer.movedTo (b.index * s.bytes) }, none) := by
    simp [seek, hoffset, Store.seek_eq hcalm hsmall]
  have hstore : (w.writer.movedTo (b.index * s.bytes)).write b.data =
      .ok ((w.withBlock s b).writer, b.data.length, none) := by
    have hfault : (w.writer.movedTo (b.index * s.bytes)).nextFault = (none, w.writer.movedTo (b.index * s.bytes)) :=
      Store.nextFault_of_nil hcalm
    have hroom : ¬ (w.writer.movedTo (b.index * s.bytes)).cursor + b.data.length >
        (w.writer.movedTo (b.index * s.bytes)).data.length := Nat.not_lt.mpr hend
    simp only [Store.write, hfault, if_neg hroom]
    rfl
  have hwrite : Writer.write { w with writer := w.writer.movedTo (b.index * s.bytes) } b.data =
      .ok ({ w with writer := (w.withBlock s b).writer }, none) := by
    simp [write, hstore]
  simp only [writeBlock, hcheck, Call.ok_bind, hseek, hwrite, mark, if_pos hbit]
  rfl

end Writer

end ProjektCore.Transfer
