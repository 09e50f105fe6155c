import Mathlib.Data.List.Count
import Mathlib.Data.List.Nodup
import ProjektCore.Foundation.History
import ProjektCore.Foundation.Runs
import ProjektCore.Transfer.Block.Reader

/-!
# The redo bookkeeping of the block reader

Calls of `nextBlock` and `redoBlock` in any order, with a record of what they returned. The record
is that of a queue with priority: a requested block is returned when all blocks that were requested
before it have been, and a new block only when nothing is requested. Each number is returned once as
a new block and once for each request that was queued, except for the request that still waits.
-/

namespace ProjektCore.Transfer

open Foundation

/-- A call of a block reader. -/
inductive ReaderCall
  | nextBlock
  | redoBlock (index : ℕ)
deriving Repr, DecidableEq

/-- What a block reader returned: that a request was queued, or a block, requested or new. -/
inductive ReaderEntry
  | queued (index : ℕ)
  | redone (block : Block)
  | fresh (block : Block)
deriving Repr, DecidableEq

namespace ReaderEntry

/-- The number that was queued. -/
def queued? : ReaderEntry → Option ℕ
  | queued index => some index
  | _ => none

/-- The number of the requested block that was returned. -/
def redone? : ReaderEntry → Option ℕ
  | redone block => some block.index
  | _ => none

/-- The number of the new block that was returned. -/
def fresh? : ReaderEntry → Option ℕ
  | fresh block => some block.index
  | _ => none

/-- The block that was returned. -/
def block? : ReaderEntry → Option Block
  | queued _ => none
  | redone block => some block
  | fresh block => some block

/-- Requested blocks come in the order of the requests, new ones in the order of their numbers and
only when all requests are met. -/
def Due (before : List ReaderEntry) : ReaderEntry → Prop
  | queued _ => True
  | redone block => ∃ rest, before.filterMap queued? = before.filterMap redone? ++ block.index :: rest
  | fresh block => before.filterMap queued? = before.filterMap redone? ∧
      block.index = (before.filterMap fresh?).length

/-- How often a block was returned. -/
def timesReturned (history : List ReaderEntry) (index : ℕ) : ℕ :=
  (history.filterMap block?).countP fun block => block.index = index

/-- A returned block was requested or new. -/
theorem timesReturned_eq (history : List ReaderEntry) (index : ℕ) :
    timesReturned history index =
      (history.filterMap fresh?).count index + (history.filterMap redone?).count index := by
  induction history with
  | nil => rfl
  | cons entry history ih =>
    simp only [timesReturned] at ih ⊢
    cases entry with
    | queued i => simpa [List.filterMap_cons, block?, fresh?, redone?] using ih
    | redone b =>
      simp only [List.filterMap_cons, block?, fresh?, redone?, List.countP_cons, List.count_cons,
        ih, decide_eq_true_eq, beq_iff_eq]
      omega
    | fresh b =>
      simp only [List.filterMap_cons, block?, fresh?, redone?, List.countP_cons, List.count_cons,
        ih, decide_eq_true_eq, beq_iff_eq]
      omega

end ReaderEntry

/-- A block reader with the record of what it returned. -/
structure ReaderLog where
  reader : Reader
  history : List ReaderEntry
deriving DecidableEq

namespace ReaderLog

/-- A fresh reader has returned nothing. -/
def new (source : Store) (size : ℕ) (s : Size) : ReaderLog := ⟨newBlockReader source size s, []⟩

/-- The entry for a block that the reader returns next. -/
def entryOf (r : Reader) (block : Block) : ReaderEntry :=
  if r.redoBlocks = [] then .fresh block else .redone block

/-- One call; a call that panics has no result. -/
def step (sha256 : Bytes → Bytes) (l : ReaderLog) : ReaderCall → Option ReaderLog
  | .nextBlock =>
    match l.reader.nextBlock sha256 with
    | .error _ => none
    | .ok (r, some block, none) => some ⟨r, l.history ++ [entryOf l.reader block]⟩
    | .ok (r, _, _) => some ⟨r, l.history⟩
  | .redoBlock index =>
    match l.reader.redoBlock index with
    | (r, true, _) => some ⟨r, l.history ++ [.queued index]⟩
    | (r, false, _) => some ⟨r, l.history⟩

/-- The record of a reader over given data agrees with the reader's queue and its next new block. -/
structure Kept (sha256 : Bytes → Bytes) (data : Bytes) (s : Size) (l : ReaderLog) : Prop where
  covers : l.reader.Over data s
  nodup : l.reader.redoBlocks.Nodup
  queue : l.history.filterMap ReaderEntry.queued? =
    l.history.filterMap ReaderEntry.redone? ++ l.reader.redoBlocks
  fresh : l.history.filterMap ReaderEntry.fresh? = List.range l.reader.nextIndex
  blocks : ∀ b ∈ l.history.filterMap ReaderEntry.block?, b = blockAt sha256 data s b.index
  due : Justified ReaderEntry.Due l.history

variable {sha256 : Bytes → Bytes} {data : Bytes} {s : Size} {l l' : ReaderLog}

/-- A fresh reader has an empty record. -/
theorem kept_new {source : Store} (hdata : source.data = data) (hcalm : source.faults = []) :
    Kept sha256 data s (new source data.length s) where
  covers := ⟨hdata, hcalm, rfl, rfl, Nat.zero_le _, fun _ h => nomatch h⟩
  nodup := List.nodup_nil
  queue := rfl
  fresh := rfl
  blocks := by simp [new]
  due := justified_nil

/-- Reading the next block of a reader over given data: nothing is left, or the block that was
requested first is returned, or the next new one. -/
theorem Kept.nextBlock_cases (h : Kept sha256 data s l) (hfits : s.Fits data.length) :
    (l.reader.isDone = true ∧ l.reader.nextBlock sha256 = .ok (l.reader, none, some .eof)) ∨
    (∃ i rest moved, l.reader.redoBlocks = i :: rest ∧ l.reader.nextBlock sha256 =
      .ok ({ l.reader with reader := moved, redoBlocks := rest }, some (blockAt sha256 data s i), none)) ∨
    (∃ moved, l.reader.redoBlocks = [] ∧ l.reader.nextBlock sha256 =
      .ok ({ l.reader with reader := moved, nextIndex := l.reader.nextIndex + 1 },
        some (blockAt sha256 data s l.reader.nextIndex), none)) := by
  cases hredo : l.reader.redoBlocks with
  | cons i rest => exact .inr (.inl ⟨i, rest, _, rfl, h.covers.nextBlock_redo sha256 hfits hredo⟩)
  | nil =>
    rcases Nat.lt_or_ge l.reader.nextIndex (s.blockCount data.length) with hmore | hend
    · exact .inr (.inr ⟨_, rfl, h.covers.nextBlock_new sha256 hfits hredo hmore⟩)
    · have hdone := (h.covers.isDone_iff hfits).mpr ⟨hredo, h.covers.next_le.antisymm hend⟩
      refine .inl ⟨hdone, ?_⟩
      simp only [Reader.nextBlock, hdone, if_true]
      rfl

/-- Requesting a block again: nothing changes, or it goes to the end of the queue, where it was not
before. -/
theorem redoBlock_cases (r : Reader) (index : ℕ) :
    (∃ err, r.redoBlock index = (r, false, err)) ∨
    (index < r.nextIndex ∧ index ∉ r.redoBlocks ∧
      r.redoBlock index = ({ r with redoBlocks := r.redoBlocks ++ [index] }, true, none)) := by
  unfold Reader.redoBlock
  split
  · exact .inl ⟨_, rfl⟩
  · split
    · exact .inl ⟨_, rfl⟩
    · split
      · exact .inl ⟨_, rfl⟩
      · rename_i hindex hmem
        exact .inr ⟨Nat.not_le.mp hindex, hmem, rfl⟩

/-- Returning the next block keeps the record. -/
theorem Kept.nextBlock (h : Kept sha256 data s l) (hfits : s.Fits data.length)
    (hstep : l.step sha256 .nextBlock = some l') : Kept sha256 data s l' := by
  rcases h.nextBlock_cases hfits with ⟨-, hnext⟩ | ⟨i, rest, moved, hredo, hnext⟩ | ⟨moved, hredo, hnext⟩
  · simp only [step, hnext, Option.some.injEq] at hstep
    exact hstep ▸ h
  · have hover := (h.covers.nextBlock hfits hnext).1
    have hentry : entryOf l.reader (blockAt sha256 data s i) = .redone (blockAt sha256 data s i) := by
      rw [entryOf, hredo, if_neg (List.cons_ne_nil i rest)]
    simp only [step, hnext, hentry, Option.some.injEq] at hstep
    subst hstep
    have hqueue := h.queue
    rw [hredo] at hqueue
    have hnodup := h.nodup
    rw [hredo, List.nodup_cons] at hnodup
    refine ⟨hover, hnodup.2, ?_, ?_, ?_, justified_concat.mpr ⟨h.due, rest, hqueue⟩⟩
    · simp [List.filterMap_cons, ReaderEntry.queued?, ReaderEntry.redone?, hqueue, blockAt]
    · simpa [List.filterMap_cons, ReaderEntry.fresh?] using h.fresh
    · simpa [List.filterMap_cons, ReaderEntry.block?, or_imp, forall_and, blockAt] using h.blocks
  · have hover := (h.covers.nextBlock hfits hnext).1
    have hentry : entryOf l.reader (blockAt sha256 data s l.reader.nextIndex) =
        .fresh (blockAt sha256 data s l.reader.nextIndex) := if_pos hredo
    simp only [step, hnext, hentry, Option.some.injEq] at hstep
    subst hstep
    have hqueue := h.queue
    rw [hredo, List.append_nil] at hqueue
    refine ⟨hover, h.nodup, ?_, ?_, ?_, justified_concat.mpr ⟨h.due, hqueue, ?_⟩⟩
    · simpa [List.filterMap_cons, ReaderEntry.queued?, ReaderEntry.redone?, hredo] using hqueue
    · simp [ReaderEntry.fresh?, h.fresh, blockAt, List.range_succ]
    · simpa [List.filterMap_cons, ReaderEntry.block?, or_imp, forall_and, blockAt] using h.blocks
    · rw [h.fresh, List.length_range]
      rfl

/-- Requesting a block again keeps the record. -/
theorem Kept.redoBlock (h : Kept sha256 data s l) {index : ℕ}
    (hstep : l.step sha256 (.redoBlock index) = some l') : Kept sha256 data s l' := by
  have hover := h.covers.redoBlock index
  rcases redoBlock_cases l.reader index with ⟨err, hredo⟩ | ⟨-, hnew, hredo⟩
  · simp only [step, hredo, Option.some.injEq] at hstep
    exact hstep ▸ h
  · rw [hredo] at hover
    simp only [step, hredo, Option.some.injEq] at hstep
    subst hstep
    refine ⟨hover, ?_, ?_, ?_, ?_, justified_concat.mpr ⟨h.due, trivial⟩⟩
    · exact List.nodup_append.mpr ⟨h.nodup, List.nodup_singleton index, by
        rintro i hi j hj rfl
        exact hnew (List.mem_singleton.mp hj ▸ hi)⟩
    · simp [List.filterMap_cons, ReaderEntry.queued?, ReaderEntry.redone?, h.queue]
    · simpa [List.filterMap_cons, ReaderEntry.fresh?] using h.fresh
    · simpa [List.filterMap_cons, ReaderEntry.block?] using h.blocks

/-- After any calls the record is kept. -/
theorem kept_of_reached (hfits : s.Fits data.length) {source : Store} (hdata : source.data = data)
    (hcalm : source.faults = []) (h : Reached (step sha256) anyStep (new source data.length s) l) :
    Kept sha256 data s l := by
  refine h.invariant (Kept sha256 data s) (kept_new hdata hcalm) ?_
  intro l call l' hkept _ hstep
  cases call with
  | nextBlock => exact hkept.nextBlock hfits hstep
  | redoBlock index => exact hkept.redoBlock hstep

/-- A number is returned once as a new block and once for each queued request, without the one that
waits. -/
theorem Kept.timesReturned_add (h : Kept sha256 data s l) (i : ℕ) :
    ReaderEntry.timesReturned l.history i + (if i ∈ l.reader.redoBlocks then 1 else 0) =
      (if i < l.reader.nextIndex then 1 else 0) + (l.history.filterMap ReaderEntry.queued?).count i := by
  have hfresh : (List.range l.reader.nextIndex).count i = if i < l.reader.nextIndex then 1 else 0 := by
    rw [List.nodup_range.count]
    simp
  rw [ReaderEntry.timesReturned_eq, h.fresh, h.queue, List.count_append, h.nodup.count, hfresh]
  omega

/-- After any calls of a reader over a store that does not fail: no number waits twice, the waiting
ones were read and no more was read than there are blocks; the reader is done exactly if nothing
waits and all blocks were read; the next block can be asked for; each number was returned as often
as the record says; and requested blocks came first-in first-out, before any new one. -/
theorem redo_bookkeeping (sha256 : Bytes → Bytes) (data : Bytes) (hlength : data.length < 2 ^ 63)
    (s : Size) (hbytes : s.bytes ≤ 2 ^ 63) (source : Store) (hdata : source.data = data)
    (hcalm : source.faults = []) (l : ReaderLog)
    (h : Reached (step sha256) anyStep (new source data.length s) l) :
    l.reader.redoBlocks.Nodup ∧ (∀ i ∈ l.reader.redoBlocks, i < l.reader.nextIndex) ∧
      l.reader.nextIndex ≤ s.blockCount data.length ∧
      (l.reader.isDone = true ↔ l.reader.redoBlocks = [] ∧ l.reader.nextIndex = s.blockCount data.length) ∧
      (∃ result, l.reader.nextBlock sha256 = .ok result) ∧
      (∀ i, ReaderEntry.timesReturned l.history i + (if i ∈ l.reader.redoBlocks then 1 else 0) =
        (if i < l.reader.nextIndex then 1 else 0) + (l.history.filterMap ReaderEntry.queued?).count i) ∧
      (∀ b ∈ l.history.filterMap ReaderEntry.block?, b = blockAt sha256 data s b.index) ∧
      Justified ReaderEntry.Due l.history ∧
      l.history.filterMap ReaderEntry.queued? =
        l.history.filterMap ReaderEntry.redone? ++ l.reader.redoBlocks := by
  have hfits : s.Fits data.length := ⟨hlength, hbytes⟩
  have hkept := kept_of_reached hfits hdata hcalm h
  have hnext : ∃ result, l.reader.nextBlock sha256 = .ok result := by
    rcases hkept.nextBlock_cases hfits with ⟨-, hnext⟩ | ⟨_, _, _, -, hnext⟩ | ⟨_, -, hnext⟩
    · exact ⟨_, hnext⟩
    · exact ⟨_, hnext⟩
    · exact ⟨_, hnext⟩
  exact ⟨hkept.nodup, hkept.covers.redo_lt, hkept.covers.next_le, hkept.covers.isDone_iff hfits, hnext,
    hkept.timesReturned_add, hkept.blocks, hkept.due, hkept.queue⟩

/-- Both blocks of three bytes are read, both are requested again, the first one twice, and one
block is read: the first one was returned twice, the second one once. -/
theorem redo_bookkeeping_two_blocks :
    ∃ l : ReaderLog, execute (step id) anyStep
        [.nextBlock, .nextBlock, .redoBlock 0, .redoBlock 1, .redoBlock 0, .nextBlock]
        (new (.ofBytes [7, 8, 9]) 3 ⟨2, by decide⟩) = some l ∧
      ReaderEntry.timesReturned l.history 0 = 2 ∧ ReaderEntry.timesReturned l.history 1 = 1 := by
  have hend : (execute (step id) anyStep
      [.nextBlock, .nextBlock, .redoBlock 0, .redoBlock 1, .redoBlock 0, .nextBlock]
      (new (.ofBytes [7, 8, 9]) 3 ⟨2, by decide⟩)).map
        (fun l => (l.reader.redoBlocks, l.reader.nextIndex, l.history.filterMap ReaderEntry.queued?)) =
      some ([1], 2, [0, 1]) := by decide +kernel
  obtain ⟨l, hrun, hview⟩ := Option.map_eq_some_iff.mp hend
  obtain ⟨-, -, -, -, -, htimes, -⟩ := redo_bookkeeping id [7, 8, 9] (by decide) ⟨2, by decide⟩ (by decide)
    (.ofBytes [7, 8, 9]) rfl rfl l (reached_of_execute _ hrun)
  simp only [Prod.mk.injEq] at hview
  rw [hview.1, hview.2.1, hview.2.2] at htimes
  exact ⟨l, hrun, htimes 0, Nat.succ_injective (htimes 1)⟩

end ReaderLog

end ProjektCore.Transfer
