import Mathlib.Data.Fintype.Basic
import ProjektCore.Foundation.Bytes

/-!
# Hexadecimal encoding

Every byte is written as two digits, the higher half first. Byte strings that serve as the keys of
a table are encoded this way, so the encoding has to be injective.
-/

namespace ProjektCore.Foundation

/-- The digit of a number below sixteen. -/
def hexDigit (n : Fin 16) : Char :=
  ['0', '1', '2', '3', '4', '5', '6', '7', '8', '9', 'a', 'b', 'c', 'd', 'e', 'f'].get n

/-- The higher half of a byte. -/
def highHalf (byte : UInt8) : Fin 16 := Fin.ofNat 16 (byte.toNat / 16)

/-- The lower half of a byte. -/
def lowHalf (byte : UInt8) : Fin 16 := Fin.ofNat 16 (byte.toNat % 16)

/-- The hexadecimal encoding of a byte string. -/
def hexEncode : Bytes → List Char
  | [] => []
  | byte :: rest => hexDigit (highHalf byte) :: hexDigit (lowHalf byte) :: hexEncode rest

/-- An encoding has two digits for each byte. -/
theorem hexEncode_length (bytes : Bytes) : (hexEncode bytes).length = 2 * bytes.length := by
  induction bytes with
  | nil => rfl
  | cons byte rest ih =>
    simp only [hexEncode, List.length_cons, ih]
    omega

/-- Different numbers have different digits. -/
theorem hexDigit_injective : Function.Injective hexDigit := by
  unfold Function.Injective
  decide

/-- A byte is determined by its halves. -/
theorem byte_ext {a b : UInt8} (hhigh : highHalf a = highHalf b) (hlow : lowHalf a = lowHalf b) :
    a = b := by
  have hhigh' := congrArg Fin.val hhigh
  have hlow' := congrArg Fin.val hlow
  simp only [highHalf, lowHalf, Fin.ofNat] at hhigh' hlow'
  apply UInt8.toNat_inj.mp
  have ha := a.toNat_lt
  have hb := b.toNat_lt
  omega

/-- Different byte strings have different encodings. -/
theorem hexEncode_injective : Function.Injective hexEncode := by
  intro a
  induction a with
  | nil =>
    intro b h
    cases b with
    | nil => rfl
    | cons byte rest => simp [hexEncode] at h
  | cons byte rest ih =>
    intro b h
    cases b with
    | nil => simp [hexEncode] at h
    | cons byte' rest' =>
      simp only [hexEncode, List.cons.injEq] at h
      obtain ⟨hhigh, hlow, hrest⟩ := h
      rw [byte_ext (hexDigit_injective hhigh) (hexDigit_injective hlow), ih hrest]

end ProjektCore.Foundation
