import ProjektCore.Foundation.Wire

/-!
# Reading the Protobuf wire format

A decoder for what the encoders write. An encoded message is a sequence of fields, each a tag with
the number of the field and the type of its value, followed by the value. Readers return what they
have read and the bytes behind it, or nothing.

The decoders of Protobuf libraries accept more than this one, such as fields that a message does not
know and types of values that the encoders do not write. Proofs about programs assume no more of a
library than that it decodes what its encoder writes; this decoder shows that the encoders allow for
it.
-/

namespace ProjektCore.Foundation

/-- Decoding that agrees with what byte strings stand for: it returns the value that a byte string
encodes, and reports a byte string that encodes none by an error. -/
structure Decodes {E A : Type} (encodes : Bytes → A → Prop) (decode : Bytes → Except E A) :
    Prop where
  eq_ok : ∀ {bytes a}, encodes bytes a → decode bytes = .ok a
  reports : ∀ {bytes}, (∀ a, ¬ encodes bytes a) → ∃ err, decode bytes = .error err

namespace Wire

/-- The value of a field. -/
inductive Value where
  | varint (n : ℕ)
  | bytes (content : Bytes)
deriving Repr, DecidableEq

/-- A field of a message. -/
structure Field where
  number : ℕ
  value : Value
deriving Repr, DecidableEq

/-- Read a number of at most so many bytes; the last of them may only hold its lowest bit. -/
def readVarintLoop : (fuel : ℕ) → Bytes → Option (ℕ × Bytes)
  | 0, _ => none
  | _ + 1, [] => none
  | fuel + 1, byte :: rest =>
    if byte.toNat < 128 then
      if fuel = 0 ∧ 2 ≤ byte.toNat then none else some (byte.toNat, rest)
    else (readVarintLoop fuel rest).map fun (n, rest) => (byte.toNat - 128 + 128 * n, rest)

/-- Read a 64-bit number. -/
def readVarint (bytes : Bytes) : Option (ℕ × Bytes) := readVarintLoop 10 bytes

/-- Read a number of bytes. -/
def readBytes (count : ℕ) (bytes : Bytes) : Option (Bytes × Bytes) :=
  if count ≤ bytes.length then some (bytes.take count, bytes.drop count) else none

/-- Read the number of a field and the type of its value. -/
def readTag (bytes : Bytes) : Option (ℕ × ℕ × Bytes) := do
  let (n, rest) ← readVarint bytes
  if n / 8 = 0 ∨ 2 ^ 29 ≤ n / 8 then none else some (n / 8, n % 8, rest)

/-- Read a byte string behind its length. -/
def readDelimited (bytes : Bytes) : Option (Bytes × Bytes) := do
  let (count, rest) ← readVarint bytes
  readBytes count rest

/-- Read the value of a field. -/
def readValue (type : ℕ) (bytes : Bytes) : Option (Value × Bytes) :=
  match type with
  | 0 => (readVarint bytes).map fun (n, rest) => (.varint n, rest)
  | 2 => (readDelimited bytes).map fun (content, rest) => (.bytes content, rest)
  | _ => none

/-- Read a field. -/
def readField (bytes : Bytes) : Option (Field × Bytes) := do
  let (number, type, rest) ← readTag bytes
  let (value, rest) ← readValue type rest
  return (⟨number, value⟩, rest)

/-- Read fields up to the end of the bytes. -/
def readFieldsLoop : (fuel : ℕ) → Bytes → Option (List Field)
  | _, [] => some []
  | 0, _ :: _ => none
  | fuel + 1, bytes => do
    let (field, rest) ← readField bytes
    return field :: (← readFieldsLoop fuel rest)

/-- Read the fields of a message; every field takes at least a byte. -/
def readFields (bytes : Bytes) : Option (List Field) := readFieldsLoop bytes.length bytes

/-- Decode a message from its fields. -/
def parse {E A : Type} (malformed : E) (build : List Field → Option A) (bytes : Bytes) :
    Except E A :=
  match (readFields bytes).bind build with
  | none => .error malformed
  | some a => .ok a

/-- The number at a field number after one more field. -/
def Field.intoNumber (number n : ℕ) : Field → ℕ
  | ⟨k, .varint m⟩ => if k = number then m else n
  | _ => n

/-- The byte string at a field number after one more field. -/
def Field.intoBytes (number : ℕ) (content : Bytes) : Field → Bytes
  | ⟨k, .bytes bytes⟩ => if k = number then bytes else content
  | _ => content

/-- The number at a field number behind given fields, if it was given before them. -/
def numberFrom (number n : ℕ) (fields : List Field) : ℕ := fields.foldl (Field.intoNumber number) n

/-- The byte string at a field number behind given fields, if it was given before them. -/
def bytesFrom (number : ℕ) (content : Bytes) (fields : List Field) : Bytes :=
  fields.foldl (Field.intoBytes number) content

/-- The number at a field number, by default zero. -/
def numberAt (number : ℕ) (fields : List Field) : ℕ := numberFrom number 0 fields

/-- The byte string at a field number, by default empty. -/
def bytesAt (number : ℕ) (fields : List Field) : Bytes := bytesFrom number [] fields

/-- The field of a number, left out if it is zero. -/
def numberFields (number n : ℕ) : List Field := if n = 0 then [] else [⟨number, .varint n⟩]

/-- The field of a byte string, left out if it is empty. -/
def bytesFields (number : ℕ) (content : Bytes) :
    List Field := if content = [] then [] else [⟨number, .bytes content⟩]

/-- Reading an encoded number gives it back, with the bytes behind it. -/
theorem readVarintLoop_append (fuel : ℕ) {n : ℕ} (h : n < 2 * 128 ^ fuel) (rest : Bytes) :
    readVarintLoop (fuel + 1) (varintLoop (fuel + 1) n ++ rest) = some (n, rest) := by
  induction fuel generalizing n with
  | zero =>
    have hbyte : (UInt8.ofNat n).toNat = n := by
      rw [UInt8.toNat_ofNat']
      omega
    rw [varintLoop, if_pos (by omega), List.cons_append, List.nil_append, readVarintLoop, hbyte,
      if_pos (by omega), if_neg (by omega)]
  | succ fuel ih =>
    rw [varintLoop]
    by_cases hlast : n < 128
    · have hbyte : (UInt8.ofNat n).toNat = n := by
        rw [UInt8.toNat_ofNat']
        omega
      rw [if_pos hlast, List.cons_append, List.nil_append, readVarintLoop, hbyte, if_pos hlast,
        if_neg (by omega)]
    · have hbyte : (UInt8.ofNat (n % 128 + 128)).toNat = n % 128 + 128 := by
        rw [UInt8.toNat_ofNat']
        omega
      have hquotient : n / 128 < 2 * 128 ^ fuel := by
        rw [Nat.div_lt_iff_lt_mul (by decide), Nat.mul_assoc, ← Nat.pow_succ]
        exact h
      have hvalue : n % 128 + 128 - 128 + 128 * (n / 128) = n := by omega
      rw [if_neg hlast, List.cons_append, readVarintLoop, if_neg (by omega), ih hquotient]
      simp only [Option.map_some, hbyte, hvalue]

/-- Reading an encoded 64-bit number gives it back. -/
theorem readVarint_append {n : ℕ} (h : n < 2 ^ 64) (rest : Bytes) :
    readVarint (varint n ++ rest) = some (n, rest) :=
  readVarintLoop_append 9 (by omega) rest

/-- Reading an encoded tag gives it back. -/
theorem readTag_append {number type : ℕ} (hpos : 0 < number) (hnumber : number < 2 ^ 29)
    (htype : type < 8) (rest : Bytes) :
    readTag (tag number type ++ rest) = some (number, type, rest) := by
  have hquotient : (number * 8 + type) / 8 = number := by omega
  have hremainder : (number * 8 + type) % 8 = type := by omega
  rw [readTag, tag, readVarint_append (by omega)]
  simp only [Option.bind_eq_bind, Option.bind_some, hquotient, hremainder]
  rw [if_neg (by omega)]

/-- Reading an encoded number field. -/
theorem readField_varint {number n : ℕ} (hpos : 0 < number) (hnumber : number < 2 ^ 29)
    (hn : n < 2 ^ 64) (rest : Bytes) :
    readField (tag number 0 ++ varint n ++ rest) = some (⟨number, .varint n⟩, rest) := by
  rw [readField, List.append_assoc, readTag_append hpos hnumber (by decide)]
  simp only [Option.bind_eq_bind, Option.bind_some, readValue, readVarint_append hn,
    Option.map_some]
  rfl

/-- Reading an encoded message or byte-string field. -/
theorem readField_messageField {number : ℕ} (hpos : 0 < number) (hnumber : number < 2 ^ 29)
    {content : Bytes} (hlength : content.length < 2 ^ 64) (rest : Bytes) :
    readField (messageField number content ++ rest) = some (⟨number, .bytes content⟩, rest) := by
  have hdelimited : readDelimited (varint content.length ++ (content ++ rest)) = some (content, rest) := by
    rw [readDelimited, readVarint_append hlength]
    simp only [Option.bind_eq_bind, Option.bind_some, readBytes]
    rw [if_pos (by simp), List.take_left, List.drop_left]
  rw [readField, messageField, List.append_assoc, List.append_assoc,
    readTag_append hpos hnumber (by decide)]
  simp only [Option.bind_eq_bind, Option.bind_some, readValue, hdelimited, Option.map_some]
  rfl

/-- Reading a first field and the fields behind it. -/
theorem readFieldsLoop_eq_some {fuel : ℕ} {bytes rest : Bytes} {field : Field} {fields : List Field}
    (hfield : readField bytes = some (field, rest))
    (hrest : readFieldsLoop fuel rest = some fields) :
    readFieldsLoop (fuel + 1) bytes = some (field :: fields) := by
  cases bytes with
  | nil => cases hfield
  | cons byte more =>
    rw [readFieldsLoop, hfield]
    · simp only [Option.bind_eq_bind, Option.bind_some, hrest]
      rfl
    · nofun

/-- More fuel reads the same fields. -/
theorem readFieldsLoop_mono {fuel : ℕ} (more : ℕ) {bytes : Bytes} {fields : List Field}
    (h : readFieldsLoop fuel bytes = some fields) :
    readFieldsLoop (fuel + more) bytes = some fields := by
  induction fuel generalizing bytes fields with
  | zero =>
    cases bytes with
    | nil =>
      rw [readFieldsLoop] at h ⊢
      exact h
    | cons byte rest => cases h
  | succ fuel ih =>
    cases bytes with
    | nil =>
      rw [readFieldsLoop] at h ⊢
      exact h
    | cons byte rest =>
      rw [readFieldsLoop] at h
      · simp only [Option.bind_eq_bind, Option.bind_eq_some_iff] at h
        obtain ⟨⟨field, behind⟩, hfield, others, hothers, heq⟩ := h
        obtain rfl := Option.some.inj heq
        rw [Nat.add_right_comm]
        exact readFieldsLoop_eq_some hfield (ih hothers)
      · nofun

/-- Bytes that consist of fields, each of at least a byte. -/
def Reads (bytes : Bytes) (fields : List Field) : Prop :=
  ∃ fuel ≤ bytes.length, readFieldsLoop fuel bytes = some fields

/-- The fields that bytes consist of are read. -/
theorem Reads.readFields {bytes : Bytes} {fields : List Field} (h : Reads bytes fields) :
    readFields bytes = some fields := by
  obtain ⟨fuel, hfuel, hread⟩ := h
  have hmore := readFieldsLoop_mono (bytes.length - fuel) hread
  rwa [Nat.add_sub_of_le hfuel] at hmore

/-- Decoding bytes that consist of fields. -/
theorem Reads.parse {E A : Type} {bytes : Bytes} {fields : List Field} (h : Reads bytes fields)
    {malformed : E} {build : List Field → Option A} {a : A} (hbuild : build fields = some a) :
    parse malformed build bytes = .ok a := by
  rw [Wire.parse, h.readFields, Option.bind_some, hbuild]

/-- No bytes have no fields. -/
theorem reads_nil : Reads [] [] := ⟨0, le_rfl, rfl⟩

/-- A field before others. -/
theorem Reads.cons {encoding rest : Bytes} {field : Field} {fields : List Field}
    (h : Reads rest fields) (hne : encoding ≠ [])
    (hfield : readField (encoding ++ rest) = some (field, rest)) :
    Reads (encoding ++ rest) (field :: fields) := by
  obtain ⟨fuel, hfuel, hread⟩ := h
  refine ⟨fuel + 1, ?_, readFieldsLoop_eq_some hfield hread⟩
  have hpos := List.length_pos_iff.mpr hne
  rw [List.length_append]
  omega

section Fields

variable {number : ℕ} (hpos : 0 < number) (hnumber : number < 2 ^ 29) {rest : Bytes} {fields : List Field}
  (h : Reads rest fields)
include hpos hnumber h

/-- A number field before others; zero leaves no field. -/
theorem reads_varintField {n : ℕ} (hn : n < 2 ^ 64) :
    Reads (varintField number n ++ rest) (numberFields number n ++ fields) := by
  by_cases hzero : n = 0
  · rw [varintField, numberFields, if_pos hzero, if_pos hzero]
    exact h
  · rw [varintField, numberFields, if_neg hzero, if_neg hzero]
    exact h.cons (List.append_ne_nil_of_left_ne_nil (varint_ne_nil _) _) (readField_varint hpos hnumber hn rest)

/-- A message field before others. -/
theorem reads_messageField {content : Bytes} (hlength : content.length < 2 ^ 64) :
    Reads (messageField number content ++ rest) (⟨number, .bytes content⟩ :: fields) := by
  have hne : messageField number content ≠ [] := by
    rw [messageField, List.append_assoc]
    exact List.append_ne_nil_of_left_ne_nil (varint_ne_nil _) _
  exact h.cons hne (readField_messageField hpos hnumber hlength rest)

/-- A byte-string field before others; the empty string leaves no field. -/
theorem reads_bytesField {content : Bytes} (hlength : content.length < 2 ^ 64) :
    Reads (bytesField number content ++ rest) (bytesFields number content ++ fields) := by
  by_cases hempty : content = []
  · rw [bytesField, bytesFields, if_pos hempty, if_pos hempty]
    exact h
  · rw [bytesField, bytesFields, if_neg hempty, if_neg hempty]
    exact reads_messageField hpos hnumber h hlength

end Fields

section Numbers

variable (number n k : ℕ) (rest : List Field)

/-- No field leaves the number as it was. -/
@[simp] theorem numberFrom_nil : numberFrom number n [] = n := rfl

/-- Fields are taken one after the other. -/
@[simp] theorem numberFrom_append (fields : List Field) :
    numberFrom number n (fields ++ rest) = numberFrom number (numberFrom number n fields) rest :=
  List.foldl_append

/-- An encoded byte string leaves all numbers as they were. -/
@[simp] theorem numberFrom_bytesFields (content : Bytes) :
    numberFrom number n (bytesFields k content) = n := by
  rw [bytesFields]
  split <;> rfl

/-- An encoded number is found under its field number. -/
@[simp] theorem numberFrom_numberFields (m : ℕ) :
    numberFrom number 0 (numberFields number m) = m := by
  rw [numberFields]
  split
  · next hm => rw [hm, numberFrom_nil]
  · simp [numberFrom, Field.intoNumber]

/-- An encoded number leaves those of other field numbers as they were. -/
theorem numberFrom_numberFields_of_ne {k number : ℕ} (h : k ≠ number) (n m : ℕ) :
    numberFrom number n (numberFields k m) = n := by
  rw [numberFields]
  split
  · rfl
  · simp [numberFrom, Field.intoNumber, h]

end Numbers

section ByteStrings

variable (number k : ℕ) (content : Bytes) (rest : List Field)

/-- No field leaves the byte string as it was. -/
@[simp] theorem bytesFrom_nil : bytesFrom number content [] = content := rfl

/-- Fields are taken one after the other. -/
@[simp] theorem bytesFrom_append (fields : List Field) :
    bytesFrom number content (fields ++ rest) = bytesFrom number (bytesFrom number content fields) rest :=
  List.foldl_append

/-- A number leaves all byte strings as they were. -/
@[simp] theorem bytesFrom_numberFields (m : ℕ) :
    bytesFrom number content (numberFields k m) = content := by
  rw [numberFields]
  split <;> rfl

/-- An encoded byte string is found under its field number. -/
@[simp] theorem bytesFrom_bytesFields (bytes : Bytes) :
    bytesFrom number [] (bytesFields number bytes) = bytes := by
  rw [bytesFields]
  split
  · next hbytes => rw [hbytes, bytesFrom_nil]
  · simp [bytesFrom, Field.intoBytes]

/-- A message leaves the byte strings of other field numbers as they were. -/
theorem bytesFrom_cons_of_ne {k number : ℕ} (h : k ≠ number) (content bytes : Bytes)
    (rest : List Field) :
    bytesFrom number content (⟨k, .bytes bytes⟩ :: rest) = bytesFrom number content rest := by
  simp [bytesFrom, Field.intoBytes, h]

/-- An encoded byte string leaves those of other field numbers as they were. -/
theorem bytesFrom_bytesFields_of_ne {k number : ℕ} (h : k ≠ number) (content bytes : Bytes) :
    bytesFrom number content (bytesFields k bytes) = content := by
  rw [bytesFields]
  split
  · rfl
  · rw [bytesFrom_cons_of_ne h, bytesFrom_nil]

end ByteStrings

/-- A message field is at least as long as its content. -/
theorem length_le_messageField (number : ℕ) (content : Bytes) :
    content.length ≤ (messageField number content).length := by
  rw [messageField, List.length_append]
  omega

/-- A byte-string field is at least as long as its content. -/
theorem length_le_bytesField (number : ℕ) (content : Bytes) :
    content.length ≤ (bytesField number content).length := by
  rw [bytesField]
  split
  · next hempty => rw [hempty]
  · exact length_le_messageField number content

end Wire

end ProjektCore.Foundation
