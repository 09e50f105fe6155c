import Mathlib.Data.List.Basic
import Mathlib.Data.List.Induction
import Mathlib.Tactic.Ring

/-!
# Byte strings

Fixed-width big-endian numbers and overwriting a range of a byte string. The range operation is
described by the value at every position, so that facts about disjoint ranges are arithmetic.
-/

namespace ProjektCore.Foundation

/-- A byte string. -/
abbrev Bytes := List UInt8

/-- The big-endian encoding of a number in `width` bytes, dropping higher digits. -/
def bigEndian : (width : ℕ) → ℕ → Bytes
  | 0, _ => []
  | width + 1, n => bigEndian width (n / 256) ++ [UInt8.ofNat (n % 256)]

/-- The number that a big-endian byte string denotes. -/
def fromBigEndian (bytes : Bytes) : ℕ :=
  bytes.foldl (fun value byte => value * 256 + byte.toNat) 0

/-- The encoding has the requested width. -/
@[simp] theorem bigEndian_length (width n : ℕ) : (bigEndian width n).length = width := by
  induction width generalizing n with
  | zero => rfl
  | succ width ih => simp [bigEndian, ih]

/-- Decoding an encoded number that fits the width gives it back. -/
theorem fromBigEndian_bigEndian (width n : ℕ) (h : n < 256 ^ width) :
    fromBigEndian (bigEndian width n) = n := by
  induction width generalizing n with
  | zero =>
    have hn : n = 0 := by simpa using h
    simp [bigEndian, fromBigEndian, hn]
  | succ width ih =>
    have hq : n / 256 < 256 ^ width := by
      rw [Nat.div_lt_iff_lt_mul (by norm_num)]
      calc n < 256 ^ (width + 1) := h
        _ = 256 ^ width * 256 := pow_succ 256 width
    have hdigit : (UInt8.ofNat (n % 256)).toNat = n % 256 := by
      rw [UInt8.toNat_ofNat']
      exact Nat.mod_eq_of_lt (Nat.mod_lt n (by norm_num))
    have hprefix := ih (n / 256) hq
    unfold fromBigEndian at hprefix
    rw [fromBigEndian, bigEndian, List.foldl_append, hprefix]
    simp only [List.foldl_cons, List.foldl_nil, hdigit]
    omega

/-- The last byte of a big-endian byte string is its lowest digit. -/
theorem fromBigEndian_concat (front : Bytes) (last : UInt8) :
    fromBigEndian (front ++ [last]) = fromBigEndian front * 256 + last.toNat := by
  rw [fromBigEndian, List.foldl_append]
  rfl

/-- A byte string denotes a number that fits its width. -/
theorem fromBigEndian_lt (bytes : Bytes) : fromBigEndian bytes < 256 ^ bytes.length := by
  induction bytes using List.reverseRecOn with
  | nil => exact Nat.one_pos
  | append_singleton front last ih =>
    have hlast : last.toNat < 256 := last.toNat_lt
    rw [fromBigEndian_concat, List.length_append, List.length_singleton, pow_succ]
    omega

/-- Encoding the number that a byte string denotes gives the byte string back. -/
theorem bigEndian_fromBigEndian (bytes : Bytes) :
    bigEndian bytes.length (fromBigEndian bytes) = bytes := by
  induction bytes using List.reverseRecOn with
  | nil => rfl
  | append_singleton front last ih =>
    have hlast : last.toNat < 256 := last.toNat_lt
    have hfront : (fromBigEndian front * 256 + last.toNat) / 256 = fromBigEndian front := by omega
    have hdigit : (fromBigEndian front * 256 + last.toNat) % 256 = last.toNat := by omega
    rw [List.length_append, List.length_singleton, bigEndian, fromBigEndian_concat, hfront, hdigit,
      ih, UInt8.ofNat_toNat]

/-- Replace the values from position `offset` on by the given ones. -/
def overwrite {A : Type*} (xs : List A) (offset : ℕ) (ys : List A) : List A :=
  xs.take offset ++ ys ++ xs.drop (offset + ys.length)

/-- Overwriting inside a list keeps its length. -/
theorem overwrite_length {A : Type*} (xs : List A) (offset : ℕ) (ys : List A)
    (h : offset + ys.length ≤ xs.length) : (overwrite xs offset ys).length = xs.length := by
  simp only [overwrite, List.length_append, List.length_take, List.length_drop]
  omega

/-- Inside the overwritten range the new values are read. -/
theorem overwrite_getElem?_inside {A : Type*} (xs : List A) (offset : ℕ) (ys : List A)
    (h : offset + ys.length ≤ xs.length) (i : ℕ) (hi : offset ≤ i) (hi' : i < offset + ys.length) :
    (overwrite xs offset ys)[i]? = ys[i - offset]? := by
  have htake : (xs.take offset).length = offset := by
    rw [List.length_take]
    omega
  rw [overwrite, List.append_assoc, List.getElem?_append_right (by omega), htake,
    List.getElem?_append_left (by omega)]

/-- Outside the overwritten range nothing changes. -/
theorem overwrite_getElem?_outside {A : Type*} (xs : List A) (offset : ℕ) (ys : List A)
    (h : offset + ys.length ≤ xs.length) (i : ℕ) (hi : i < offset ∨ offset + ys.length ≤ i) :
    (overwrite xs offset ys)[i]? = xs[i]? := by
  have htake : (xs.take offset).length = offset := by
    rw [List.length_take]
    omega
  rw [overwrite, List.append_assoc]
  rcases hi with hi | hi
  · rw [List.getElem?_append_left (by omega), List.getElem?_take_of_lt hi]
  · rw [List.getElem?_append_right (by omega), htake, List.getElem?_append_right (by omega),
      List.getElem?_drop]
    congr 1
    omega

end ProjektCore.Foundation
