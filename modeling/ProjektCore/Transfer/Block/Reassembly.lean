import ProjektCore.Transfer.Block.Copies
import ProjektCore.Transfer.Block.WriterRuns

/-!
# Blocks reassemble in any order

Draining a block reader yields the blocks of its data, one for each number. Writing these blocks to
a block writer, in whatever order, restores the data: every call returns without an error, and the
writer is done after the last one and not before.
-/

namespace ProjektCore.Transfer

open Foundation

variable {sha256 : Bytes → Bytes} {data : Bytes} {s : Size}

namespace Reader

/-- Read blocks while the reader has data, at most as many as the fuel allows. -/
def drain (sha256 : Bytes → Bytes) :
    (fuel : ℕ) → Reader → Go (Reader × List (Option Block × Option Err))
  | 0, r => .ok (r, [])
  | fuel + 1, r =>
    if r.hasData then do
      let (r, block, err) ← r.nextBlock sha256
      let (r, more) ← r.drain sha256 fuel
      return (r, (block, err) :: more)
    else .ok (r, [])

/-- What a reader returns for a block of its data. -/
def returned (sha256 : Bytes → Bytes) (data : Bytes) (s : Size) (i : ℕ) :
    Option Block × Option Err :=
  (some (blockAt sha256 data s i), none)

/-- A reader without requested blocks yields the blocks that it has not read, and no more. -/
theorem Over.drain_eq (sha256 : Bytes → Bytes) (hfits : s.Fits data.length) {r : Reader}
    (h : Over data s r) (hredo : r.redoBlocks = []) {left fuel : ℕ}
    (hleft : r.nextIndex + left = s.blockCount data.length) (hfuel : left ≤ fuel) :
    ∃ r', r'.hasData = false ∧
      r.drain sha256 fuel = .ok (r', (List.range' r.nextIndex left).map (returned sha256 data s)) := by
  induction left generalizing r fuel with
  | zero =>
    have hdone : r.hasData = false := by
      rw [hasData, (h.isDone_iff hfits).mpr ⟨hredo, hleft⟩]
      rfl
    refine ⟨r, hdone, ?_⟩
    cases fuel with
    | zero => rfl
    | succ fuel => simp [drain, hdone]
  | succ left ih =>
    obtain ⟨fuel, rfl⟩ : ∃ more, fuel = more + 1 := ⟨fuel - 1, by omega⟩
    have hmore : r.nextIndex < s.blockCount data.length := by omega
    have hdata : r.hasData = true := by
      rw [hasData, Bool.not_eq_true', Bool.eq_false_iff]
      intro hdone
      have hend := ((h.isDone_iff hfits).mp hdone).2
      omega
    have hnext := h.nextBlock_new sha256 hfits hredo hmore
    have hover := (h.nextBlock hfits hnext).1
    have hleft' : r.nextIndex + 1 + left = s.blockCount data.length := by omega
    obtain ⟨r', hdone, hdrain⟩ := ih hover hredo hleft' (Nat.le_of_succ_le_succ hfuel)
    refine ⟨r', hdone, ?_⟩
    simp only [drain, hdata, if_true, hnext, Call.ok_bind, hdrain, List.range'_succ, List.map_cons,
      returned]
    rfl

end Reader

namespace Writer

/-- Different blocks of the data that are not written yet are all written. -/
theorem Copies.writeBlocks (sha256 : Bytes → Bytes) (hfits : s.Fits data.length) {w : Writer}
    (h : Copies data s w) {indices : List ℕ} (hnodup : indices.Nodup)
    (hexist : ∀ i ∈ indices, i < s.blockCount data.length)
    (hnew : ∀ i ∈ indices, w.written[i]? = some false) :
    ∃ w', w.writeBlocks sha256 (indices.map (blockAt sha256 data s)) =
        .ok (w', List.replicate indices.length none) ∧
      Copies data s w' ∧ w'.writtenCount = w.writtenCount + indices.length := by
  induction indices generalizing w with
  | nil => exact ⟨w, rfl, h, rfl⟩
  | cons i rest ih =>
    obtain ⟨hfresh, hrest⟩ := List.nodup_cons.mp hnodup
    have hi := hexist i List.mem_cons_self
    have hfalse := hnew i List.mem_cons_self
    have hlater : ∀ j ∈ rest, (w.withBlock s (blockAt sha256 data s i)).written[j]? = some false := by
      intro j hj
      have hne : i ≠ j := fun heq => hfresh (heq ▸ hj)
      change (w.written.set i true)[j]? = some false
      rw [List.getElem?_set_ne hne]
      exact hnew j (List.mem_cons_of_mem i hj)
    obtain ⟨w', hrun, hcopies, hcount⟩ := ih (h.withBlock hfits hi hfalse) hrest
      (fun j hj => hexist j (List.mem_cons_of_mem i hj)) hlater
    refine ⟨w', ?_, hcopies, ?_⟩
    · simp only [List.map_cons, Writer.writeBlocks, h.writeBlock_eq hfits hi hfalse, Call.ok_bind,
        hrun]
      rfl
    · rw [hcount, List.length_cons]
      change w.writtenCount + 1 + rest.length = _
      omega

/-- A writer that copies the data is done exactly if it has counted all blocks. -/
theorem Copies.isDone_iff_count {w : Writer} (h : Copies data s w) :
    w.isDone = true ↔ w.writtenCount = s.blockCount data.length := by
  rw [isDone, decide_eq_true_iff, blockCount, h.blockSize, h.totalSize]

end Writer

/-- The blocks of the data, in the order of their numbers. -/
def blocksOf (sha256 : Bytes → Bytes) (data : Bytes) (s : Size) : List Block :=
  (List.range (s.blockCount data.length)).map (blockAt sha256 data s)

/-- The number of blocks of the data. -/
theorem blocksOf_length : (blocksOf sha256 data s).length = s.blockCount data.length := by
  rw [blocksOf, List.length_map, List.length_range]

/-- The blocks of the data in some order are the blocks of their numbers, which are all numbers in
that order. -/
theorem perm_blocksOf {order : List Block} (h : order.Perm (blocksOf sha256 data s)) :
    order = (order.map Block.index).map (blockAt sha256 data s) ∧
      (order.map Block.index).Perm (List.range (s.blockCount data.length)) := by
  have hblock : ∀ b ∈ order, blockAt sha256 data s b.index = b := by
    intro b hb
    obtain ⟨i, -, rfl⟩ := List.mem_map.mp (h.mem_iff.mp hb)
    rfl
  have hindices : (blocksOf sha256 data s).map Block.index = List.range (s.blockCount data.length) := by
    rw [blocksOf, List.map_map]
    exact List.map_id _
  constructor
  · rw [List.map_map]
    exact ((List.map_congr_left hblock).trans (List.map_id order)).symm
  · exact hindices ▸ h.map Block.index

/-- The first blocks of any order are written to a fresh writer, which is done exactly if they are
all blocks and then holds the data. -/
theorem writeBlocks_perm (hfits : s.Fits data.length) {store : Store}
    (hroom : store.data.length = data.length) (hcalm : store.faults = []) {order : List Block}
    (horder : order.Perm (blocksOf sha256 data s)) {k : ℕ} (hk : k ≤ s.blockCount data.length) :
    ∃ w, (newWriter store data.length s).writeBlocks sha256 (order.take k) = .ok (w, List.replicate k none) ∧
      (w.isDone = true ↔ k = s.blockCount data.length) ∧ (k = s.blockCount data.length → w.writer.data = data) := by
  obtain ⟨heq, hperm⟩ := perm_blocksOf horder
  have hexist : ∀ i ∈ (order.map Block.index).take k, i < s.blockCount data.length :=
    fun i hi => List.mem_range.mp (hperm.mem_iff.mp (List.mem_of_mem_take hi))
  have hnodup : ((order.map Block.index).take k).Nodup :=
    (hperm.nodup_iff.mpr List.nodup_range).sublist (List.take_sublist k _)
  have hlength : ((order.map Block.index).take k).length = k := by
    rw [List.length_take, hperm.length_eq, List.length_range]
    exact Nat.min_eq_left hk
  have hnew : ∀ i ∈ (order.map Block.index).take k,
      (newWriter store data.length s).written[i]? = some false := by
    intro i hi
    rw [newWriter, List.getElem?_replicate, if_pos (hexist i hi)]
  obtain ⟨w, hrun, hcopies, hcount⟩ :=
    (Writer.copies_newWriter hfits hroom hcalm).writeBlocks sha256 hfits hnodup hexist hnew
  rw [List.map_take, ← heq, hlength] at hrun
  have hdone : w.isDone = true ↔ k = s.blockCount data.length := by
    rw [hcopies.isDone_iff_count, hcount, hlength]
    change 0 + k = _ ↔ _
    rw [Nat.zero_add]
  exact ⟨w, hrun, hdone, fun hall => hcopies.data_eq (hdone.mpr hall)⟩

/-- Draining a fresh reader over any data yields all blocks and ends; written to a fresh writer in
any order, they are all accepted, the writer is done exactly after the last one, and its store then
holds the data. -/
theorem blocks_reassemble (sha256 : Bytes → Bytes) (data : Bytes) (hlength : data.length < 2 ^ 63)
    (s : Size) (hbytes : s.bytes ≤ 2 ^ 63) (source store : Store) (hsource : source.data = data)
    (hread : source.faults = []) (hroom : store.data.length = data.length)
    (hwrite : store.faults = []) :
    ∃ blocks : List Block, blocks.length = s.blockCount data.length ∧
      (∀ fuel ≥ s.blockCount data.length, ∃ r : Reader, r.hasData = false ∧
        (newBlockReader source data.length s).drain sha256 fuel = .ok (r, blocks.map fun b => (some b, none))) ∧
      ∀ order : List Block, order.Perm blocks → ∀ k ≤ blocks.length, ∃ w : Writer,
        (newWriter store data.length s).writeBlocks sha256 (order.take k) = .ok (w, List.replicate k none) ∧
        (w.isDone = true ↔ k = blocks.length) ∧ (k = blocks.length → w.writer.data = data) := by
  have hfits : s.Fits data.length := ⟨hlength, hbytes⟩
  have hover : Reader.Over data s (newBlockReader source data.length s) :=
    ⟨hsource, hread, rfl, rfl, Nat.zero_le _, fun _ h => nomatch h⟩
  refine ⟨blocksOf sha256 data s, blocksOf_length, ?_, ?_⟩
  · intro fuel hfuel
    obtain ⟨r, hdone, hdrain⟩ := hover.drain_eq sha256 hfits rfl (Nat.zero_add _) hfuel
    refine ⟨r, hdone, ?_⟩
    rw [hdrain, blocksOf, List.map_map, List.range_eq_range']
    rfl
  · intro order horder k hk
    rw [blocksOf_length] at hk ⊢
    exact writeBlocks_perm hfits hroom hwrite horder hk

/-- Three bytes in blocks of two: the blocks restore the data when the short one comes first. -/
theorem blocks_reassemble_reversed :
    ∃ blocks : List Block, blocks.length = 2 ∧ ∃ w : Writer,
      (newWriter (.make 3) 3 ⟨2, by decide⟩).writeBlocks id (blocks.reverse.take 2) = .ok (w, [none, none]) ∧
      w.isDone = true ∧ w.writer.data = [7, 8, 9] := by
  obtain ⟨blocks, hcount, -, hwrite⟩ := blocks_reassemble id [7, 8, 9] (by decide) ⟨2, by decide⟩ (by decide)
    (.ofBytes [7, 8, 9]) (.make 3) rfl rfl rfl rfl
  have htwo : blocks.length = 2 := hcount
  obtain ⟨w, hrun, hdone, hdata⟩ := hwrite blocks.reverse (List.reverse_perm blocks) 2 htwo.ge
  exact ⟨blocks, htwo, w, hrun, hdone.mpr htwo.symm, hdata htwo.symm⟩

end ProjektCore.Transfer
