import ProjektCore.Transfer.Block.Size

/-!
# Stores and the block reader

A store is the seekable file behind a block reader or writer. It behaves like the repository's
in-memory buffer, except that a script may let any of its next calls fail; a failing write may
have stored a prefix of its data.

A block reader cuts a store into blocks. Blocks whose retransmission was requested are read again
before the next new block.
-/

namespace ProjektCore.Transfer

open Foundation

/-- A seekable store with the scripted outcomes of its next calls: `some n` fails after `n`
bytes. -/
structure Store where
  data : Bytes
  cursor : ℕ
  faults : List (Option ℕ)
deriving Repr, DecidableEq

namespace Store

/-- A store over given bytes whose calls do not fail. -/
def ofBytes (data : Bytes) : Store := ⟨data, 0, []⟩

/-- A fresh store of zeroed bytes. -/
def make (size : ℕ) : Store := ofBytes (List.replicate size 0)

/-- The error of a call that is scripted to fail. -/
def ioError : Err := .foreign 0

/-- The scripted outcome of the next call. -/
def nextFault (s : Store) :
    Option ℕ × Store := (s.faults.head?.join, { s with faults := s.faults.tail })

/-- An empty script lets the next call succeed. -/
theorem nextFault_of_nil {s : Store} (h : s.faults = []) : s.nextFault = (none, s) := by
  rcases s with ⟨data, cursor, faults⟩
  subst h
  rfl

/-- The errors that a store or a reader over it can return. -/
def isStoreError : Err → Bool
  | .foreign _ | .new _ | .eof | .unexpectedEOF => true
  | _ => false

/-- The store with its cursor at a position. -/
def movedTo (s : Store) (position : ℕ) : Store := { s with cursor := position }

/-- Move the cursor; the position is a signed 64-bit number, and a negative one is refused. -/
def seek (s : Store) (offset : ℕ) : Store × ℕ × Option Err :=
  match s.nextFault with
  | (some _, s) => (s, 0, some ioError)
  | (none, s) =>
    if offset < 2 ^ 63 then (s.movedTo offset, offset, none)
    else (s, 0, some (.new "negative position"))

/-- Without faults the cursor moves to any position in range. -/
theorem seek_eq {s : Store} (h : s.faults = []) {offset : ℕ} (hsmall : offset < 2 ^ 63) :
    s.seek offset = (s.movedTo offset, offset, none) := by
  simp only [seek, nextFault_of_nil h, if_pos hsmall]

/-- Read exactly `amount` bytes at the cursor. -/
def readFull (s : Store) (amount : ℕ) : Store × Bytes × Option Err :=
  match s.nextFault with
  | (some _, s) => (s, [], some ioError)
  | (none, s) =>
    let bytes := (s.data.drop s.cursor).take amount
    if bytes.length = amount then (s, bytes, none)
    else (s, bytes, some (if bytes = [] then .eof else .unexpectedEOF))

/-- Write bytes at the cursor; the store does not grow. -/
def write (s : Store) (bytes : Bytes) : Go (Store × ℕ × Option Err) :=
  match s.nextFault with
  | (some n, s) =>
    if s.cursor + (bytes.take n).length > s.data.length then panicText "exceeding buffer size"
    else .ok ({ s with data := overwrite s.data s.cursor (bytes.take n) }, min n bytes.length, some ioError)
  | (none, s) =>
    if s.cursor + bytes.length > s.data.length then panicText "exceeding buffer size"
    else .ok ({ s with data := overwrite s.data s.cursor bytes }, bytes.length, none)

/-- A failing seek returns an error of the store. -/
theorem seek_error {s s' : Store} {offset position : ℕ} {err : Err}
    (h : s.seek offset = (s', position, some err)) : isStoreError err := by
  rcases hf : s.nextFault with ⟨_ | n, after⟩
  · by_cases hs : offset < 2 ^ 63
    · simp only [seek, hf, if_pos hs, Prod.mk.injEq, reduceCtorEq, and_false] at h
    · simp only [seek, hf, if_neg hs, Prod.mk.injEq, Option.some.injEq] at h
      rw [← h.2.2]
      rfl
  · simp only [seek, hf, Prod.mk.injEq, Option.some.injEq] at h
    rw [← h.2.2]
    rfl

/-- A failing read returns an error of the store. -/
theorem readFull_error {s s' : Store} {amount : ℕ} {bytes : Bytes} {err : Err}
    (h : s.readFull amount = (s', bytes, some err)) : isStoreError err := by
  rcases hf : s.nextFault with ⟨_ | n, after⟩
  · simp only [readFull, hf] at h
    split at h
    · simp at h
    · simp only [Prod.mk.injEq, Option.some.injEq] at h
      rw [← h.2.2]
      split <;> rfl
  · simp only [readFull, hf, Prod.mk.injEq, Option.some.injEq] at h
    rw [← h.2.2]
    rfl

/-- What calls that only read leave of a store: its data, and a script that is used up further. -/
structure Used (s after : Store) : Prop where
  data : after.data = s.data
  faults : after.faults.length ≤ s.faults.length - 1

/-- Further calls use the script up further. -/
theorem Used.trans {s mid after : Store} (h : s.Used mid) (h' : mid.Used after) : s.Used after :=
  ⟨h'.data.trans h.data, h'.faults.trans ((Nat.sub_le _ _).trans h.faults)⟩

/-- Asking for the next outcome uses it up. -/
theorem nextFault_used (s : Store) : s.Used s.nextFault.2 := ⟨rfl, by simp [nextFault]⟩

/-- A seek uses up one outcome, and moves the cursor to the position asked for if it succeeds. -/
theorem seek_outcome {s after : Store} {offset position : ℕ} {err : Option Err}
    (h : s.seek offset = (after, position, err)) :
    s.Used after ∧ (err = none → position = offset ∧ offset < 2 ^ 63 ∧ after.cursor = offset) := by
  have hused := s.nextFault_used
  rcases hfault : s.nextFault with ⟨_ | n, next⟩
  · rw [hfault] at hused
    by_cases hsmall : offset < 2 ^ 63
    · simp only [seek, hfault, if_pos hsmall, Prod.mk.injEq] at h
      obtain ⟨rfl, rfl, rfl⟩ := h
      exact ⟨⟨hused.data, hused.faults⟩, fun _ => ⟨rfl, hsmall, rfl⟩⟩
    · simp only [seek, hfault, if_neg hsmall, Prod.mk.injEq] at h
      obtain ⟨rfl, rfl, rfl⟩ := h
      exact ⟨hused, by simp⟩
  · rw [hfault] at hused
    simp only [seek, hfault, Prod.mk.injEq] at h
    obtain ⟨rfl, rfl, rfl⟩ := h
    exact ⟨hused, by simp⟩

/-- A read uses up one outcome, and returns the data at the cursor if it succeeds. -/
theorem readFull_outcome {s after : Store} {amount : ℕ} {bytes : Bytes} {err : Option Err}
    (h : s.readFull amount = (after, bytes, err)) :
    s.Used after ∧
      (err = none → bytes = (s.data.drop s.cursor).take amount ∧ bytes.length = amount) := by
  have hused := s.nextFault_used
  have hcursor : s.nextFault.2.cursor = s.cursor := rfl
  rcases hfault : s.nextFault with ⟨_ | n, next⟩
  · rw [hfault] at hused hcursor
    have hdata : (next.data.drop next.cursor).take amount = (s.data.drop s.cursor).take amount := by
      rw [hused.data, hcursor]
    simp only [readFull, hfault, hdata] at h
    split at h
    · rename_i hlength
      simp only [Prod.mk.injEq] at h
      obtain ⟨rfl, rfl, rfl⟩ := h
      exact ⟨hused, fun _ => ⟨rfl, hlength⟩⟩
    · simp only [Prod.mk.injEq] at h
      obtain ⟨rfl, rfl, rfl⟩ := h
      exact ⟨hused, by simp⟩
  · rw [hfault] at hused
    simp only [readFull, hfault, Prod.mk.injEq] at h
    obtain ⟨rfl, rfl, rfl⟩ := h
    exact ⟨hused, by simp⟩

end Store

/-- Reads a store block by block. -/
structure Reader where
  reader : Store
  totalSize : ℕ
  blockSize : Size
  nextIndex : ℕ
  redoBlocks : List ℕ
deriving DecidableEq

/-- A reader at the start of a store. -/
def newBlockReader (reader : Store) (size : ℕ) (blockSize : Size) : Reader :=
  ⟨reader, size, blockSize, 0, []⟩

namespace Reader

/-- The number of blocks of the store. -/
def blockCount (r : Reader) : ℕ := r.blockSize.blockCount r.totalSize

/-- The index of the next new block. -/
def nextBlockIndex (r : Reader) : ℕ := r.nextIndex

/-- The offset of a block. -/
def offset (r : Reader) (index : ℕ) : ℕ := r.blockSize.offset index

/-- The bytes of the block at an offset. -/
def amount (r : Reader) (offset : ℕ) : ℕ := r.blockSize.amount offset r.totalSize

/-- Whether every block was read and none has to be read again. -/
def isDone (r : Reader) : Bool := r.redoBlocks.length = 0 && r.offset r.nextIndex ≥ r.totalSize

/-- Whether there is a block to read. -/
def hasData (r : Reader) : Bool := !r.isDone

/-- Seek to the start of a block. -/
def seek (r : Reader) (index : ℕ) : Go (Reader × ℕ × Option Err) :=
  let offset := r.offset index
  if offset ≥ r.totalSize then panicText "block index behind end of reader"
  else match r.reader.seek offset with
    | (store, _, some err) => .ok ({ r with reader := store }, offset, some err)
    | (store, position, none) =>
      if position ≠ offset then panicText "seek position does not equal requested offset"
      else .ok ({ r with reader := store }, offset, none)

/-- Read the block at an offset. -/
def read (r : Reader) (offset : ℕ) : Reader × Bytes × Option Err :=
  let (store, buffer, err) := r.reader.readFull (r.amount offset)
  ({ r with reader := store }, buffer, err)

/-- Read one block and compute its checksum. -/
def readBlock (sha256 : Bytes → Bytes) (r : Reader) (index : ℕ) :
    Go (Reader × Option Block × Option Err) := do
  match ← r.seek index with
  | (r, _, some err) => return (r, none, some err)
  | (r, offset, none) =>
    match r.read offset with
    | (r, _, some err) => return (r, none, some err)
    | (r, data, none) => return (r, some ⟨index, data, computeChecksum sha256 index data⟩, none)

/-- Read the next block; nothing is consumed when reading fails. -/
def nextBlock (sha256 : Bytes → Bytes) (r : Reader) : Go (Reader × Option Block × Option Err) := do
  if r.isDone then return (r, none, some .eof)
  else
    match ← r.readBlock sha256 (r.redoBlocks.headD r.nextIndex) with
    | (r, _, some err) => return (r, none, some err)
    | (r, block, none) =>
      match r.redoBlocks with
      | _ :: rest => return ({ r with redoBlocks := rest }, block, none)
      | [] => return ({ r with nextIndex := (r.nextIndex + 1) % 2 ^ 64 }, block, none)

/-- Request a block again; `queued` is false if it is already requested. -/
def redoBlock (r : Reader) (index : ℕ) : Reader × Bool × Option Err :=
  if r.offset index ≥ r.totalSize then (r, false, some .invalidIndex)
  else if index ≥ r.nextIndex then (r, false, some .indexNotYetRead)
  else if index ∈ r.redoBlocks then (r, false, none)
  else ({ r with redoBlocks := r.redoBlocks ++ [index] }, true, none)

/-- A block that cannot be read returns an error of the store. -/
theorem readBlock_error {sha256 : Bytes → Bytes} {r r' : Reader} {index : ℕ} {block : Option Block}
    {err : Err} (h : r.readBlock sha256 index = .ok (r', block, some err)) :
    Store.isStoreError err := by
  simp only [readBlock, Call.bind_eq_ok] at h
  obtain ⟨⟨moved, offset, seekErr⟩, hseek, h⟩ := h
  cases seekErr with
  | some e =>
    simp only [Call.pure_eq_ok, Except.ok.injEq, Prod.mk.injEq, Option.some.injEq] at h
    simp only [seek] at hseek
    split at hseek
    · simp [panicText] at hseek
    · split at hseek
      · rename_i hstore
        simp only [Except.ok.injEq, Prod.mk.injEq, Option.some.injEq] at hseek
        rw [← h.2.2, ← hseek.2.2]
        exact Store.seek_error hstore
      · split at hseek <;> simp [panicText] at hseek
  | none =>
    rcases hread : moved.read offset with ⟨after, data, _ | e⟩
    · simp [hread] at h
    · simp only [hread, Call.pure_eq_ok, Except.ok.injEq, Prod.mk.injEq, Option.some.injEq] at h
      simp only [read, Prod.mk.injEq] at hread
      rw [← h.2.2]
      exact Store.readFull_error (Prod.ext rfl (Prod.ext rfl hread.2.2))

/-- A reader that cannot read its next block returns an error of the store. -/
theorem nextBlock_error {sha256 : Bytes → Bytes} {r r' : Reader} {block : Option Block} {err : Err}
    (h : r.nextBlock sha256 = .ok (r', block, some err)) : Store.isStoreError err := by
  simp only [nextBlock] at h
  split at h
  · simp only [Call.pure_eq_ok, Except.ok.injEq, Prod.mk.injEq, Option.some.injEq] at h
    rw [← h.2.2]
    rfl
  · simp only [Call.bind_eq_ok] at h
    obtain ⟨⟨after, block', readErr⟩, hread, h⟩ := h
    cases readErr with
    | some e =>
      simp only [Call.pure_eq_ok, Except.ok.injEq, Prod.mk.injEq, Option.some.injEq] at h
      rw [← h.2.2]
      exact readBlock_error hread
    | none =>
      cases hredo : after.redoBlocks <;> simp [hredo] at h

/-- The index of the block that is read next. -/
def upcoming (r : Reader) : ℕ := r.redoBlocks.headD r.nextIndex

/-- The reader with its store left as calls left it. -/
def withStore (r : Reader) (store : Store) : Reader := { r with reader := store }

/-- The reader after the next block was read. -/
def advanced (r : Reader) : Reader :=
  match r.redoBlocks with
  | _ :: rest => { r with redoBlocks := rest }
  | [] => { r with nextIndex := (r.nextIndex + 1) % 2 ^ 64 }

/-- The block that the file has at an index, if it can be read at all. -/
def blockOf (sha256 : Bytes → Bytes) (r : Reader) (index : ℕ) : Option Block :=
  let data := (r.reader.data.drop (r.offset index)).take (r.amount (r.offset index))
  if r.offset index < 2 ^ 63 ∧ data.length = r.amount (r.offset index) then
    some ⟨index, data, computeChecksum sha256 index data⟩
  else none

/-- A block that a file has carries the index it was asked for. -/
theorem blockOf_index {sha256 : Bytes → Bytes} {r : Reader} {index : ℕ} {b : Block}
    (h : r.blockOf sha256 index = some b) : b.index = index := by
  simp only [blockOf, Option.ite_none_right_eq_some, Option.some.injEq] at h
  rw [← h.2]

/-- A block only depends on the data of the store. -/
theorem blockOf_withStore {sha256 : Bytes → Bytes} (r : Reader) {store : Store}
    (h : store.data = r.reader.data) (index : ℕ) :
    (r.withStore store).blockOf sha256 index = r.blockOf sha256 index := by
  have hoffset : (r.withStore store).offset index = r.offset index := rfl
  have hamount : (r.withStore store).amount (r.offset index) = r.amount (r.offset index) := rfl
  have hdata : (r.withStore store).reader.data = r.reader.data := h
  simp only [blockOf, hoffset, hamount, hdata]

/-- What reading a block of any store can lead to; `after` is the reader that a block leaves
behind. -/
inductive Outcome (sha256 : Bytes → Bytes) (r : Reader) (index : ℕ) (after : Reader) :
    Reader × Option Block × Option Err → Prop
  | failed {store : Store} (err : Err) (used : r.reader.Used store) :
      Outcome sha256 r index after (r.withStore store, none, some err)
  | read {store : Store} {b : Block} (inside : r.offset index < r.totalSize)
      (used : r.reader.Used store) (block : r.blockOf sha256 index = some b) :
      Outcome sha256 r index after (after.withStore store, some b, none)

/-- Seeking a block that starts inside the file returns what the store's seek returns. -/
theorem seek_eq (r : Reader) {index : ℕ} (h : r.offset index < r.totalSize) :
    r.seek index =
      .ok (r.withStore (r.reader.seek (r.offset index)).1, r.offset index, (r.reader.seek (r.offset index)).2.2) := by
  rcases hstore : r.reader.seek (r.offset index) with ⟨moved, position, _ | err⟩
  · obtain ⟨rfl, -, -⟩ := (Store.seek_outcome hstore).2 rfl
    simp only [seek, if_neg (Nat.not_le.mpr h), hstore, ne_eq, not_true_eq_false, if_false]
    rfl
  · simp only [seek, if_neg (Nat.not_le.mpr h), hstore]
    rfl

/-- Reading a block that starts inside the file returns, whatever the store does. -/
theorem readBlock_outcome (sha256 : Bytes → Bytes) (r : Reader) {index : ℕ}
    (h : r.offset index < r.totalSize) :
    ∃ result, r.readBlock sha256 index = .ok result ∧ Outcome sha256 r index r result := by
  have hseek := r.seek_eq h
  rcases hstore : r.reader.seek (r.offset index) with ⟨moved, position, _ | err⟩
  · rw [hstore] at hseek
    obtain ⟨hused, hmoved⟩ := Store.seek_outcome hstore
    obtain ⟨-, hsmall, hcursor⟩ := hmoved rfl
    have hread : (r.withStore moved).read (r.offset index) =
        (r.withStore (moved.readFull (r.amount (r.offset index))).1,
          (moved.readFull (r.amount (r.offset index))).2) := rfl
    rcases hfull : moved.readFull (r.amount (r.offset index)) with ⟨after, bytes, _ | err⟩
    · obtain ⟨hafter, hbytes⟩ := Store.readFull_outcome hfull
      obtain ⟨rfl, hlength⟩ := hbytes rfl
      rw [hused.data, hcursor] at hlength
      refine ⟨_, ?_, .read h (hused.trans hafter) (if_pos ⟨hsmall, hlength⟩)⟩
      simp only [readBlock, hseek, Call.ok_bind, hread, hfull, hused.data, hcursor]
      rfl
    · rw [hfull] at hread
      refine ⟨_, ?_, .failed err (hused.trans (Store.readFull_outcome hfull).1)⟩
      simp only [readBlock, hseek, Call.ok_bind, hread]
      rfl
  · rw [hstore] at hseek
    refine ⟨_, ?_, .failed err (Store.seek_outcome hstore).1⟩
    simp only [readBlock, hseek, Call.ok_bind]
    rfl

/-- Reading a block that does not start inside the file panics. -/
theorem readBlock_panics (sha256 : Bytes → Bytes) (r : Reader) {index : ℕ}
    (h : r.totalSize ≤ r.offset index) :
    r.readBlock sha256 index = panicText "block index behind end of reader" := by
  simp only [readBlock, seek, if_pos h]
  rfl

/-- Another store does not change how a reader advances. -/
theorem withStore_advanced (r : Reader) (store : Store) :
    (r.withStore store).advanced = r.advanced.withStore store := by
  cases hredo : r.redoBlocks <;> simp [advanced, withStore, hredo]

/-- A reader that is not done reads the upcoming block and advances unless that fails. -/
theorem nextBlock_eq (sha256 : Bytes → Bytes) {r : Reader} (hdone : r.isDone = false) :
    r.nextBlock sha256 = (do
      match ← r.readBlock sha256 r.upcoming with
      | (after, _, some err) => return (after, none, some err)
      | (after, block, none) => return (after.advanced, block, none)) := by
  simp only [nextBlock, hdone, Bool.false_eq_true, if_false]
  change (r.readBlock sha256 r.upcoming >>= _) = _
  rcases r.readBlock sha256 r.upcoming with value | ⟨after, block, _ | err⟩
  · rfl
  · cases hredo : after.redoBlocks <;> simp [advanced, hredo]
  · rfl

/-- What reading the next block leads to, if it returns. -/
theorem nextBlock_outcome {sha256 : Bytes → Bytes} {r : Reader}
    {result : Reader × Option Block × Option Err} (hdone : r.isDone = false)
    (h : r.nextBlock sha256 = .ok result) :
    Outcome sha256 r r.upcoming r.advanced result := by
  rw [nextBlock_eq sha256 hdone] at h
  by_cases hinside : r.offset r.upcoming < r.totalSize
  · obtain ⟨read, hread, houtcome⟩ := r.readBlock_outcome sha256 hinside
    rw [hread, Call.ok_bind] at h
    cases houtcome with
    | failed err hused =>
      obtain rfl := Except.ok.inj h
      exact .failed err hused
    | read hinside hused hblock =>
      obtain rfl := Except.ok.inj h
      rw [withStore_advanced]
      exact .read hinside hused hblock
  · rw [r.readBlock_panics sha256 (Nat.not_lt.mp hinside)] at h
    simp [panicText] at h

/-- The upcoming block of a reader that is not done starts inside the file if every requested block
does. -/
theorem upcoming_inside {r : Reader} (hdone : r.isDone = false)
    (hredo : ∀ i ∈ r.redoBlocks, r.offset i < r.totalSize) : r.offset r.upcoming < r.totalSize := by
  cases hqueue : r.redoBlocks with
  | nil =>
    simp only [isDone, hqueue, List.length_nil, decide_true, Bool.true_and, decide_eq_false_iff_not,
      ge_iff_le, Nat.not_le] at hdone
    simpa only [upcoming, hqueue, List.headD_nil] using hdone
  | cons i rest =>
    rw [upcoming, hqueue, List.headD_cons]
    exact hredo i (by rw [hqueue]; exact List.mem_cons_self)

/-- Reading the next block returns if there is one that starts inside the file. -/
theorem nextBlock_returns (sha256 : Bytes → Bytes) {r : Reader} (hdone : r.isDone = false)
    (hinside : r.offset r.upcoming < r.totalSize) : ∃ result, r.nextBlock sha256 = .ok result := by
  obtain ⟨⟨after, block, err⟩, hread, -⟩ := r.readBlock_outcome sha256 hinside
  rw [nextBlock_eq sha256 hdone, hread, Call.ok_bind]
  cases err with
  | some err => exact ⟨_, rfl⟩
  | none => exact ⟨_, rfl⟩

/-- Without faults a block that the file has is read. -/
theorem readBlock_of_calm {sha256 : Bytes → Bytes} {r : Reader} {index : ℕ} {b : Block}
    (hcalm : r.reader.faults = []) (hinside : r.offset index < r.totalSize)
    (hblock : r.blockOf sha256 index = some b) :
    ∃ store, r.reader.Used store ∧ r.readBlock sha256 index = .ok (r.withStore store, some b, none) := by
  have hfile := hblock
  simp only [blockOf, Option.ite_none_right_eq_some] at hfile
  obtain ⟨⟨hsmall, hlength⟩, -⟩ := hfile
  obtain ⟨result, hread, houtcome⟩ := r.readBlock_outcome sha256 hinside
  cases houtcome with
  | read _ hused hblock' =>
    obtain rfl := Option.some.inj (hblock.symm.trans hblock')
    exact ⟨_, hused, hread⟩
  | @failed store err hused =>
    -- The seek and the read of a store without faults only fail outside the file.
    have hmoved : (r.reader.movedTo (r.offset index)).nextFault = (none, r.reader.movedTo (r.offset index)) :=
      Store.nextFault_of_nil hcalm
    have hfull : (r.reader.movedTo (r.offset index)).readFull (r.amount (r.offset index)) =
        (r.reader.movedTo (r.offset index),
          (r.reader.data.drop (r.offset index)).take (r.amount (r.offset index)), none) := by
      simp only [Store.readFull, hmoved]
      exact if_pos hlength
    have hok : (r.withStore (r.reader.movedTo (r.offset index))).read (r.offset index) =
        (r.withStore ((r.reader.movedTo (r.offset index)).readFull (r.amount (r.offset index))).1,
          ((r.reader.movedTo (r.offset index)).readFull (r.amount (r.offset index))).2) := rfl
    simp only [readBlock, r.seek_eq hinside, Store.seek_eq hcalm hsmall, Call.ok_bind, hok,
      hfull] at hread
    simp at hread

/-- A reader over given data whose store does not fail, at some point of the transfer. -/
structure Over (data : Bytes) (s : Size) (r : Reader) : Prop where
  store : r.reader.data = data
  faults : r.reader.faults = []
  totalSize : r.totalSize = data.length
  blockSize : r.blockSize = s
  next_le : r.nextIndex ≤ s.blockCount data.length
  redo_lt : ∀ i ∈ r.redoBlocks, i < r.nextIndex

/-- A fresh reader is over its data. -/
theorem over_newBlockReader (data : Bytes) (s : Size) :
    Over data s (newBlockReader (.ofBytes data) data.length s) :=
  ⟨rfl, rfl, rfl, rfl, Nat.zero_le _, fun _ h => nomatch h⟩

variable {data : Bytes} {s : Size} {r : Reader}

/-- The blocks of a reader are those of its data. -/
theorem Over.blockCount_eq (h : Over data s r) : r.blockCount = s.blockCount data.length := by
  rw [Reader.blockCount, h.blockSize, h.totalSize]

/-- A reader is done exactly if it read all blocks and none is requested again. -/
theorem Over.isDone_iff (h : Over data s r) (hfits : s.Fits data.length) :
    r.isDone = true ↔ r.redoBlocks = [] ∧ r.nextIndex = s.blockCount data.length := by
  have hlt := s.lt_blockCount_iff data.length r.nextIndex
  have hle := h.next_le
  rw [isDone, offset, h.blockSize, h.totalSize, Size.offset_eq hfits h.next_le]
  simp only [Bool.and_eq_true, decide_eq_true_eq, List.length_eq_zero_iff]
  constructor
  · rintro ⟨hredo, hend⟩
    exact ⟨hredo, by omega⟩
  · rintro ⟨hredo, hend⟩
    exact ⟨hredo, by omega⟩

/-- Reading an existing block returns it and only moves the cursor. -/
theorem Over.readBlock_eq (sha256 : Bytes → Bytes) (h : Over data s r) (hfits : s.Fits data.length)
    {i : ℕ} (hi : i < s.blockCount data.length) :
    r.readBlock sha256 i =
      .ok ({ r with reader := r.reader.movedTo (i * s.bytes) }, some (blockAt sha256 data s i), none) := by
  have hlt := (s.lt_blockCount_iff data.length i).mp hi
  have hoffset : r.offset i = i * s.bytes := by
    rw [offset, h.blockSize, Size.offset_eq hfits hi.le]
  have hsmall : i * s.bytes < 2 ^ 63 := hlt.trans hfits.size_lt
  have hamount : r.amount (i * s.bytes) = (dataAt data s i).length := by
    rw [amount, h.blockSize, h.totalSize, dataAt_length data s hi]
  have hread : (data.drop (i * s.bytes)).take (dataAt data s i).length = dataAt data s i := by
    rw [dataAt, List.length_take, ← List.take_eq_take_min]
  have hseek : r.seek i =
      .ok ({ r with reader := r.reader.movedTo (i * s.bytes) }, i * s.bytes, none) := by
    simp only [seek, hoffset, h.totalSize, if_neg (by omega : ¬ i * s.bytes ≥ data.length),
      Store.seek_eq h.faults hsmall]
    simp
  have hfull : (r.reader.movedTo (i * s.bytes)).readFull (r.amount (i * s.bytes)) =
      (r.reader.movedTo (i * s.bytes), dataAt data s i, none) := by
    have hfault : (r.reader.movedTo (i * s.bytes)).nextFault = (none, r.reader.movedTo (i * s.bytes)) :=
      Store.nextFault_of_nil h.faults
    have hcontent : (r.reader.movedTo (i * s.bytes)).data = data := h.store
    have hcursor : (r.reader.movedTo (i * s.bytes)).cursor = i * s.bytes := rfl
    simp only [Store.readFull, hfault, hcontent, hcursor, hamount, hread, if_true]
  have hmoved (o : ℕ) : Reader.read { r with reader := r.reader.movedTo (i * s.bytes) } o =
      match (r.reader.movedTo (i * s.bytes)).readFull (r.amount o) with
      | (store, buffer, err) => ({ r with reader := store }, buffer, err) := rfl
  simp only [readBlock, hseek, Call.ok_bind, hmoved, hfull]
  rfl

/-- No index of an existing block is near the 64-bit limit. -/
theorem blockCount_lt (s : Size) {size : ℕ} (hfits : s.Fits size) : s.blockCount size < 2 ^ 63 := by
  by_contra hge
  have hlast : 2 ^ 63 - 1 < s.blockCount size := by omega
  have hstart := (s.lt_blockCount_iff size _).mp hlast
  have hsize := hfits.size_lt
  have hle : 2 ^ 63 - 1 ≤ (2 ^ 63 - 1) * s.bytes := Nat.le_mul_of_pos_right _ s.pos
  omega

/-- Without requested blocks the next new block is read. -/
theorem Over.nextBlock_new (sha256 : Bytes → Bytes) (h : Over data s r) (hfits : s.Fits data.length)
    (hredo : r.redoBlocks = []) (hnext : r.nextIndex < s.blockCount data.length) :
    r.nextBlock sha256 = .ok
      ({ r with reader := r.reader.movedTo (r.nextIndex * s.bytes), nextIndex := r.nextIndex + 1 },
        some (blockAt sha256 data s r.nextIndex), none) := by
  have hdone : r.isDone = false := by
    rw [Bool.eq_false_iff]
    intro hd
    have := ((h.isDone_iff hfits).mp hd).2
    omega
  have hcount := blockCount_lt s hfits
  have hmod : (r.nextIndex + 1) % 2 ^ 64 = r.nextIndex + 1 := Nat.mod_eq_of_lt (by omega)
  simp only [nextBlock, hdone, hredo, List.headD_nil, h.readBlock_eq sha256 hfits hnext,
    Call.ok_bind, Bool.false_eq_true, if_false, hmod]
  rfl

/-- A requested block is read again before any new one. -/
theorem Over.nextBlock_redo (sha256 : Bytes → Bytes) (h : Over data s r)
    (hfits : s.Fits data.length) {i : ℕ} {rest : List ℕ} (hredo : r.redoBlocks = i :: rest) :
    r.nextBlock sha256 = .ok
      ({ r with reader := r.reader.movedTo (i * s.bytes), redoBlocks := rest },
        some (blockAt sha256 data s i), none) := by
  have hi : i < s.blockCount data.length :=
    (h.redo_lt i (by rw [hredo]; exact List.mem_cons_self)).trans_le h.next_le
  have hdone : r.isDone = false := by
    rw [Bool.eq_false_iff]
    intro hd
    have := ((h.isDone_iff hfits).mp hd).1
    rw [hredo] at this
    cases this
  simp only [nextBlock, hdone, hredo, List.headD_cons, h.readBlock_eq sha256 hfits hi, Call.ok_bind,
    Bool.false_eq_true, if_false]
  rfl

/-- Whatever block a reader returns next is a block of its data, and the reader stays over the
data. -/
theorem Over.nextBlock {sha256 : Bytes → Bytes} (h : Over data s r) (hfits : s.Fits data.length)
    {r' : Reader} {block : Option Block} (hnext : r.nextBlock sha256 = .ok (r', block, none)) :
    Over data s r' ∧ ∃ i, i < s.blockCount data.length ∧ block = some (blockAt sha256 data s i) := by
  cases hredo : r.redoBlocks with
  | cons i rest =>
    rw [h.nextBlock_redo sha256 hfits hredo] at hnext
    obtain ⟨rfl, rfl, -⟩ := by simpa using hnext
    have hlt := h.redo_lt
    rw [hredo] at hlt
    have hi := hlt i List.mem_cons_self
    refine ⟨⟨h.store, h.faults, h.totalSize, h.blockSize, h.next_le, ?_⟩, i, hi.trans_le h.next_le, rfl⟩
    intro j hj
    exact hlt j (List.mem_cons_of_mem i hj)
  | nil =>
    have hmore : r.nextIndex < s.blockCount data.length := by
      refine lt_of_le_of_ne h.next_le ?_
      intro hend
      have hdone := (h.isDone_iff hfits).mpr ⟨hredo, hend⟩
      simp [Reader.nextBlock, hdone] at hnext
    rw [h.nextBlock_new sha256 hfits hredo hmore] at hnext
    obtain ⟨rfl, rfl, -⟩ := by simpa using hnext
    refine ⟨⟨h.store, h.faults, h.totalSize, h.blockSize, hmore, ?_⟩, r.nextIndex, hmore, rfl⟩
    intro j hj
    rw [hredo] at hj
    cases hj

/-- A requested block keeps the reader over its data. -/
theorem Over.redoBlock (h : Over data s r) (index : ℕ) : Over data s (r.redoBlock index).1 := by
  unfold Reader.redoBlock
  split
  · exact h
  · split
    · exact h
    · split
      · exact h
      · refine ⟨h.store, h.faults, h.totalSize, h.blockSize, h.next_le, ?_⟩
        intro j hj
        rcases List.mem_append.mp hj with hj | hj
        · exact h.redo_lt j hj
        · rw [List.mem_singleton] at hj
          change j < r.nextIndex
          omega

end Reader

end ProjektCore.Transfer
