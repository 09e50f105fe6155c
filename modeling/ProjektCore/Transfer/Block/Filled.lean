import Mathlib.Data.List.Count
import Mathlib.Data.List.Nodup
import ProjektCore.Transfer.Block.Writer

/-!
# A writer and the blocks that it has written

What a block writer does with an arbitrary block: it writes the block, refuses it after a check, or
fails because its store does. `Writer.Filled` says that the writer has written exactly the blocks of
a list, each of them once, and that their data is what its store has at their offsets. Nothing is
assumed about where the blocks come from.
-/

namespace ProjektCore.Transfer

open Foundation

/-- What a write that returns does to a store: it stores all bytes, or fails after some of them. -/
theorem Store.write_outcome {s after : Store} {bytes : Bytes} {n : ℕ} {err : Option Err}
    (h : s.write bytes = .ok (after, n, err)) :
    (err = none → s.cursor + bytes.length ≤ s.data.length ∧ after.data = overwrite s.data s.cursor bytes) ∧
      ∀ e, err = some e → isStoreError e = true ∧ ∃ k, s.cursor + (bytes.take k).length ≤ s.data.length ∧
        after.data = overwrite s.data s.cursor (bytes.take k) := by
  rcases hfault : s.nextFault with ⟨fault, next⟩
  have hnext : next = s.nextFault.2 := by rw [hfault]
  have hdata : next.data = s.data := by rw [hnext]; rfl
  have hcursor : next.cursor = s.cursor := by rw [hnext]; rfl
  cases fault with
  | some k =>
    simp only [write, hfault] at h
    split at h
    · simp [panicText] at h
    · rename_i hroom
      simp only [Except.ok.injEq, Prod.mk.injEq] at h
      obtain ⟨rfl, -, rfl⟩ := h
      rw [hcursor, hdata] at hroom
      refine ⟨by simp, ?_⟩
      intro e he
      obtain rfl := Option.some.inj he
      refine ⟨rfl, k, Nat.not_lt.mp hroom, ?_⟩
      rw [← hdata, ← hcursor]
  | none =>
    simp only [write, hfault] at h
    split at h
    · simp [panicText] at h
    · rename_i hroom
      simp only [Except.ok.injEq, Prod.mk.injEq] at h
      obtain ⟨rfl, -, rfl⟩ := h
      rw [hcursor, hdata] at hroom
      refine ⟨fun _ => ⟨Nat.not_lt.mp hroom, ?_⟩, by simp⟩
      rw [← hdata, ← hcursor]

namespace Writer

variable {sha256 : Bytes → Bytes} {w : Writer} {b : Block} {store : Store} {blocks : List Block}

/-- The checks that a block has passed. -/
theorem passes_of_checkBlock (h : w.checkBlock sha256 b = .ok none) :
    b.data.length = w.amount (w.offset b.index) ∧ w.written[b.index]? = some false ∧
      computeChecksum sha256 b.index b.data = b.checksum := by
  unfold checkBlock at h
  simp only at h
  split at h
  · simp at h
  · split at h
    · simp at h
    · rename_i hamount
      split at h
      · simp [panicRuntime] at h
      · simp at h
      · rename_i hunwritten
        split at h
        · simp at h
        · rename_i hchecksum
          exact ⟨not_not.mp hamount, hunwritten, not_not.mp hchecksum⟩

/-- What a store that failed has of a block: nothing, or the first bytes of one that passed all
checks. -/
inductive Torn (sha256 : Bytes → Bytes) (w : Writer) (b : Block) (after : Store) : Prop
  | untouched : after.data = w.writer.data → Torn sha256 w b after
  | partly {k : ℕ} : w.checkBlock sha256 b = .ok none →
      w.offset b.index + (b.data.take k).length ≤ w.writer.data.length →
      after.data = overwrite w.writer.data (w.offset b.index) (b.data.take k) → Torn sha256 w b after

/-- What a writer that returns does with a block. -/
inductive Writing (sha256 : Bytes → Bytes) (w : Writer) (b : Block) : Writer × Option Err → Prop
  /-- The block is written and marked. -/
  | written {store : Store} : w.checkBlock sha256 b = .ok none →
      w.offset b.index + b.data.length ≤ w.writer.data.length →
      store.data = overwrite w.writer.data (w.offset b.index) b.data →
      Writing sha256 w b
        (⟨store, w.totalSize, w.blockSize, w.written.set b.index true, w.writtenCount + 1⟩, none)
  /-- The block does not pass a check. -/
  | refused {err : Err} : w.checkBlock sha256 b = .ok (some err) → Writing sha256 w b (w, some err)
  /-- The store fails. -/
  | failed {store : Store} {err : Err} : Store.isStoreError err = true → w.Torn sha256 b store →
      Writing sha256 w b ({ w with writer := store }, some err)

/-- Every outcome of writing a block is listed. -/
theorem writeBlock_outcome {result : Writer × Option Err} (h : w.writeBlock sha256 b = .ok result) :
    Writing sha256 w b result := by
  simp only [writeBlock, Call.bind_eq_ok] at h
  obtain ⟨checked, hcheck, h⟩ := h
  cases checked with
  | some err =>
    obtain rfl := Except.ok.inj h
    exact .refused hcheck
  | none =>
    simp only [Call.bind_eq_ok] at h
    obtain ⟨⟨sought, sought?⟩, hseek, h⟩ := h
    rcases hstore : w.writer.seek (w.offset b.index) with ⟨moved, position, _ | err⟩
    · obtain ⟨hused, hmoved⟩ := Store.seek_outcome hstore
      obtain ⟨rfl, -, hcursor⟩ := hmoved rfl
      simp only [seek, hstore, ne_eq, not_true_eq_false, if_false, Except.ok.injEq,
        Prod.mk.injEq] at hseek
      obtain ⟨rfl, rfl⟩ := hseek
      simp only [Call.bind_eq_ok] at h
      obtain ⟨⟨after, after?⟩, hwrite, h⟩ := h
      simp only [write, Call.bind_eq_ok] at hwrite
      obtain ⟨⟨stored, n, outcome⟩, hput, hwrite⟩ := hwrite
      obtain ⟨hok, hfail⟩ := Store.write_outcome hput
      cases outcome with
      | some err =>
        simp only [Call.pure_eq_ok, Except.ok.injEq, Prod.mk.injEq] at hwrite
        obtain ⟨rfl, rfl⟩ := hwrite
        obtain rfl := Except.ok.inj h
        obtain ⟨herr, k, hroom, hdata⟩ := hfail err rfl
        rw [hcursor, hused.data] at hroom hdata
        exact .failed herr (.partly hcheck hroom hdata)
      | none =>
        obtain ⟨hroom, hdata⟩ := hok rfl
        simp only at hwrite
        split at hwrite
        · simp [panicText] at hwrite
        · simp only [Call.pure_eq_ok, Except.ok.injEq, Prod.mk.injEq] at hwrite
          obtain ⟨rfl, rfl⟩ := hwrite
          simp only [mark] at h
          split at h
          · obtain rfl := Except.ok.inj h
            rw [hcursor, hused.data] at hroom hdata
            exact .written hcheck hroom hdata
          · simp [panicRuntime] at h
    · simp only [seek, hstore, Except.ok.injEq, Prod.mk.injEq] at hseek
      obtain ⟨rfl, rfl⟩ := hseek
      obtain rfl := Except.ok.inj h
      exact .failed (Store.seek_error hstore) (.untouched (Store.seek_outcome hstore).1.data)

/-- The writer has written the blocks of a list, each of them once, to a store that it was given. -/
structure Filled (store : Store) (blocks : List Block) (w : Writer) : Prop where
  size : w.totalSize < 2 ^ 64
  bitmap : w.written.length = w.blockCount
  count : w.writtenCount = w.written.count true
  marked : ∀ i, w.written[i]? = some true ↔ ∃ b ∈ blocks, b.index = i
  nodup : (blocks.map Block.index).Nodup
  amount : ∀ b ∈ blocks, b.data.length = min w.blockSize.bytes (w.totalSize - b.index * w.blockSize.bytes)
  content : ∀ b ∈ blocks, ∀ j < b.data.length, w.writer.data[b.index * w.blockSize.bytes + j]? = b.data[j]?
  length : w.writer.data.length = store.data.length
  rest : ∀ p, w.totalSize ≤ p → w.writer.data[p]? = store.data[p]?

/-- A new writer has written nothing. -/
theorem filled_newWriter (store : Store) {size : ℕ} (hsize : size < 2 ^ 64) (blockSize : Size) :
    Filled store [] (newWriter store size blockSize) where
  size := hsize
  bitmap := by simp [newWriter, blockCount]
  count := by simp [newWriter, List.count_replicate]
  marked := by simp [newWriter, List.getElem?_replicate]
  nodup := .nil
  amount := by simp
  content := by simp
  length := rfl
  rest _ _ := rfl

namespace Filled

/-- The offset of a block that is not written does not wrap. -/
theorem offset_eq (h : Filled store blocks w) {i : ℕ} {bit : Bool} (hi : w.written[i]? = some bit) :
    i < w.blockCount ∧ i * w.blockSize.bytes < w.totalSize ∧ w.offset i = i * w.blockSize.bytes := by
  have hlt : i < w.blockCount := h.bitmap ▸ (List.getElem?_eq_some_iff.mp hi).1
  have hinside := (w.blockSize.lt_blockCount_iff w.totalSize i).mp hlt
  exact ⟨hlt, hinside, Nat.mod_eq_of_lt (hinside.trans h.size)⟩

/-- The ranges of two blocks do not overlap. -/
theorem range_disjoint (h : Filled store blocks w) {other : Block} (hother : other ∈ blocks)
    {i j : ℕ} (hne : other.index ≠ i) (hj : j < other.data.length) :
    other.index * w.blockSize.bytes + j < i * w.blockSize.bytes ∨
      i * w.blockSize.bytes + w.blockSize.bytes ≤ other.index * w.blockSize.bytes + j := by
  have hamount := h.amount other hother
  rcases Nat.lt_or_gt_of_ne hne with hlt | hgt
  · have hle : (other.index + 1) * w.blockSize.bytes ≤ i * w.blockSize.bytes := Nat.mul_le_mul_right _ hlt
    rw [Nat.add_one_mul] at hle
    omega
  · have hle : (i + 1) * w.blockSize.bytes ≤ other.index * w.blockSize.bytes := Nat.mul_le_mul_right _ hgt
    rw [Nat.add_one_mul] at hle
    omega

/-- No written block has the number of one that is not written. -/
theorem fresh (h : Filled store blocks w) (hunwritten : w.written[b.index]? = some false) :
    ∀ other ∈ blocks, other.index ≠ b.index := by
  intro other hother hindex
  have hmarked := (h.marked b.index).mpr ⟨other, hother, hindex⟩
  simp [hunwritten] at hmarked

/-- A block that is written is added to the list. -/
theorem write (h : Filled store blocks w) {w' : Writer}
    (hwrite : w.writeBlock sha256 b = .ok (w', none)) :
    Filled store (blocks ++ [b]) w' := by
  cases writeBlock_outcome hwrite with
  | @written stored hcheck hroom hdata =>
    obtain ⟨hamount, hunwritten, -⟩ := passes_of_checkBlock hcheck
    obtain ⟨hlt, hinside, hoffset⟩ := h.offset_eq hunwritten
    rw [Writer.amount, hoffset, w.blockSize.amount_eq hlt] at hamount
    rw [hoffset] at hroom hdata
    have hfresh := h.fresh hunwritten
    refine ⟨h.size, ?_, ?_, ?_, ?_, ?_, ?_, ?_, ?_⟩
    · exact (List.length_set ..).trans h.bitmap
    · obtain ⟨hbit, hfalse⟩ := List.getElem?_eq_some_iff.mp hunwritten
      change w.writtenCount + 1 = (w.written.set b.index true).count true
      rw [List.count_set hbit, h.count, hfalse]
      simp
    · intro i
      change (w.written.set b.index true)[i]? = some true ↔ _
      by_cases hi : b.index = i
      · subst hi
        rw [List.getElem?_set_self (List.getElem?_eq_some_iff.mp hunwritten).1]
        exact iff_of_true rfl ⟨b, by simp, rfl⟩
      · rw [List.getElem?_set_ne hi, h.marked]
        simp [hi]
    · rw [List.map_append, List.map_singleton, List.nodup_append]
      refine ⟨h.nodup, List.nodup_singleton _, ?_⟩
      intro i hi j hj
      obtain ⟨other, hother, rfl⟩ := List.mem_map.mp hi
      rw [List.mem_singleton.mp hj]
      exact hfresh other hother
    · intro other hother
      rcases List.mem_append.mp hother with hother | hother
      · exact h.amount other hother
      · rw [List.mem_singleton.mp hother]
        exact hamount
    · intro other hother j hj
      change stored.data[other.index * w.blockSize.bytes + j]? = _
      rw [hdata]
      rcases List.mem_append.mp hother with hother | hother
      · have hrange := h.range_disjoint hother (hfresh other hother) hj
        rw [overwrite_getElem?_outside _ _ _ hroom _ (by omega)]
        exact h.content other hother j hj
      · obtain rfl := List.mem_singleton.mp hother
        rw [overwrite_getElem?_inside _ _ _ hroom _ (by omega) (by omega)]
        congr 1
        omega
    · exact (congrArg List.length hdata).trans ((overwrite_length _ _ _ hroom).trans h.length)
    · intro p hp
      change stored.data[p]? = _
      rw [hdata, overwrite_getElem?_outside _ _ _ hroom _ (.inr _)]
      · exact h.rest p hp
      · change w.totalSize ≤ p at hp
        omega

/-- A store that failed keeps every byte outside the range of the block. -/
theorem torn_outside (h : Filled store blocks w) {after : Store} (htorn : w.Torn sha256 b after)
    {p : ℕ} (hp : ¬ (p / w.blockSize.bytes = b.index ∧ p < w.totalSize)) :
    after.data[p]? = w.writer.data[p]? := by
  cases htorn with
  | untouched hdata => rw [hdata]
  | @partly k hcheck hroom hdata =>
    obtain ⟨hamount, hunwritten, -⟩ := passes_of_checkBlock hcheck
    obtain ⟨hlt, hinside, hoffset⟩ := h.offset_eq hunwritten
    rw [Writer.amount, hoffset, w.blockSize.amount_eq hlt] at hamount
    rw [hoffset] at hroom hdata
    rw [w.blockSize.div_eq_iff_range] at hp
    have hshort : (b.data.take k).length ≤ b.data.length := List.length_take_le' k b.data
    rw [hdata, overwrite_getElem?_outside _ _ _ hroom p (by omega)]

/-- A store that failed has as many bytes as before. -/
theorem torn_length {after : Store} (htorn : w.Torn sha256 b after) :
    after.data.length = w.writer.data.length := by
  cases htorn with
  | untouched hdata => rw [hdata]
  | partly _ hroom hdata => rw [hdata, overwrite_length _ _ _ hroom]

/-- A store that failed keeps the blocks that are written. -/
theorem torn (h : Filled store blocks w) {after : Store} (htorn : w.Torn sha256 b after) :
    Filled store blocks { w with writer := after } where
  size := h.size
  bitmap := h.bitmap
  count := h.count
  marked := h.marked
  nodup := h.nodup
  amount := h.amount
  content := by
    intro other hother j hj
    change after.data[other.index * w.blockSize.bytes + j]? = _
    cases htorn with
    | untouched hdata =>
      rw [hdata]
      exact h.content other hother j hj
    | partly hcheck hroom hdata =>
      obtain ⟨-, hunwritten, -⟩ := passes_of_checkBlock hcheck
      have hrange := h.range_disjoint hother (h.fresh hunwritten other hother) hj
      refine (h.torn_outside (.partly hcheck hroom hdata) ?_).trans (h.content other hother j hj)
      rw [w.blockSize.div_eq_iff_range]
      omega
  length := (torn_length htorn).trans h.length
  rest := by
    intro p hp
    refine (h.torn_outside htorn ?_).trans (h.rest p hp)
    exact fun hinside => absurd hinside.2 (Nat.not_lt.mpr hp)

/-- A writer is done exactly if all blocks are written. -/
theorem isDone_iff (h : Filled store blocks w) :
    w.isDone = true ↔ ∀ i < w.blockCount, w.written[i]? = some true := by
  rw [isDone, decide_eq_true_iff, h.count, ← h.bitmap, List.count_eq_length]
  constructor
  · intro hall i hi
    rw [List.getElem?_eq_getElem hi, ← hall _ (List.getElem_mem hi)]
  · intro hall bit hbit
    obtain ⟨i, hi, rfl⟩ := List.mem_iff_getElem.mp hbit
    have htrue := hall i hi
    rw [List.getElem?_eq_getElem hi, Option.some.injEq] at htrue
    exact htrue.symm

/-- A writer that is done has written every block. -/
theorem all_written (h : Filled store blocks w) (hdone : w.isDone = true) {i : ℕ}
    (hi : i < w.blockCount) :
    ∃ b ∈ blocks, b.index = i :=
  (h.marked i).mp (h.isDone_iff.mp hdone i hi)

/-- Two written blocks with the same number are the same. -/
theorem eq_of_index (h : Filled store blocks w) {other : Block} (hb : b ∈ blocks)
    (hother : other ∈ blocks) (hindex : b.index = other.index) : b = other :=
  List.inj_on_of_nodup_map h.nodup hb hother hindex

/-- Every position in front of the end belongs to a written block once the writer is done. -/
theorem exists_block (h : Filled store blocks w) (hdone : w.isDone = true) {p : ℕ}
    (hp : p < w.totalSize) :
    ∃ b ∈ blocks, b.index * w.blockSize.bytes ≤ p ∧ p < b.index * w.blockSize.bytes + b.data.length := by
  obtain ⟨b, hb, hindex⟩ := h.all_written hdone (w.blockSize.div_lt_blockCount hp)
  obtain ⟨hle, hlt⟩ := (w.blockSize.div_eq_iff_range p b.index).mp hindex.symm
  refine ⟨b, hb, hle, ?_⟩
  rw [h.amount b hb]
  omega

end Filled

end Writer

end ProjektCore.Transfer
