import ProjektCore.Foundation.Bytes

/-!
# The Protobuf wire format

The encoders of the field types that occur in the repository's messages. A scalar or byte field with
its default value is left out; a present message field is always encoded.
-/

namespace ProjektCore.Foundation.Wire

/-- Seven bits a byte, the lowest first; all but the last byte have the continuation bit. -/
def varintLoop : (fuel : ℕ) → ℕ → Bytes
  | 0, _ => []
  | fuel + 1, n =>
    if n < 128 then [UInt8.ofNat n] else UInt8.ofNat (n % 128 + 128) :: varintLoop fuel (n / 128)

/-- The variable-length encoding of a 64-bit number, in at most ten bytes. -/
def varint (n : ℕ) : Bytes := varintLoop 10 n

/-- The tag of a field. -/
def tag (field wireType : ℕ) : Bytes := varint (field * 8 + wireType)

/-- A number field; zero is left out. -/
def varintField (field n : ℕ) : Bytes := if n = 0 then [] else tag field 0 ++ varint n

/-- A present message field. -/
def messageField (field : ℕ) (content : Bytes) :
    Bytes := tag field 2 ++ varint content.length ++ content

/-- A byte-string field; the empty string is left out. -/
def bytesField (field : ℕ) (content : Bytes) :
    Bytes := if content = [] then [] else messageField field content

/-- Whether a byte string is a text. -/
def isUtf8 (bytes : Bytes) : Bool := ByteArray.validateUTF8 ⟨⟨bytes⟩⟩

/-- The encoding of a number is not empty. -/
theorem varint_ne_nil (n : ℕ) : varint n ≠ [] := by
  rw [varint, varintLoop]
  split <;> exact List.cons_ne_nil _ _

/-- A number field that is not zero is encoded. -/
theorem varintField_ne_nil {field n : ℕ} (h : n ≠ 0) : varintField field n ≠ [] := by
  rw [varintField, if_neg h]
  exact List.append_ne_nil_of_left_ne_nil (varint_ne_nil _) _

/-- A number below a power of 128 takes at most as many bytes as the exponent. -/
theorem varintLoop_length_le (fuel count : ℕ) {n : ℕ} (h : n < 128 ^ (count + 1)) :
    (varintLoop fuel n).length ≤ count + 1 := by
  induction count generalizing fuel n with
  | zero =>
    cases fuel with
    | zero => exact Nat.zero_le _
    | succ fuel => rw [varintLoop, if_pos (by simpa using h), List.length_singleton]
  | succ count ih =>
    cases fuel with
    | zero => exact Nat.zero_le _
    | succ fuel =>
      rw [varintLoop]
      split
      · exact Nat.succ_le_succ (Nat.zero_le _)
      · have hquotient : n / 128 < 128 ^ (count + 1) := by
          rw [Nat.div_lt_iff_lt_mul (by norm_num)]
          exact h
        exact Nat.succ_le_succ (ih fuel hquotient)

/-- The length of the encoding of a number. -/
theorem varint_length_le (count : ℕ) {n : ℕ} (h : n < 128 ^ (count + 1)) :
    (varint n).length ≤ count + 1 :=
  varintLoop_length_le 10 count h

/-- The length of the encoding of a number field. -/
theorem varintField_length_le {field : ℕ} (hfield : field < 16) (count : ℕ) {n : ℕ}
    (h : n < 128 ^ (count + 1)) :
    (varintField field n).length ≤ count + 2 := by
  have htag : (tag field 0).length ≤ 1 := varint_length_le 0 (by omega)
  have hn := varint_length_le count h
  rw [varintField]
  split
  · exact Nat.zero_le _
  · rw [List.length_append]
    omega

/-- The length of the encoding of a message field. -/
theorem messageField_length_le {field : ℕ} (hfield : field < 16) (count : ℕ) {content : Bytes}
    (h : content.length < 128 ^ (count + 1)) :
    (messageField field content).length ≤ count + 2 + content.length := by
  have htag : (tag field 2).length ≤ 1 := varint_length_le 0 (by omega)
  have hlength := varint_length_le count h
  rw [messageField, List.length_append, List.length_append]
  omega

/-- The length of the encoding of a byte-string field. -/
theorem bytesField_length_le {field : ℕ} (hfield : field < 16) (count : ℕ) {content : Bytes}
    (h : content.length < 128 ^ (count + 1)) :
    (bytesField field content).length ≤ count + 2 + content.length := by
  rw [bytesField]
  split
  · exact Nat.zero_le _
  · exact messageField_length_le hfield count h

end ProjektCore.Foundation.Wire
