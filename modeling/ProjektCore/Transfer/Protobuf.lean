import ProjektCore.Transfer.Codec

/-!
# The encoding of transfer messages

Transfer messages are encoded in the Protobuf wire format. The name of a file has to be a UTF-8
text, or the message is not encoded at all. Of the Protobuf library it is assumed that it decodes
the encoding of a message, into an empty message of the same type, to the message; the decoder
`parser` does so.
-/

namespace ProjektCore.Transfer

open Foundation Session

/-- The encoding of metadata. -/
def Metadata.marshal (metadata : Metadata) : Bytes := Wire.bytesField 1 metadata.filename

/-- The encoding of a header; absent metadata leaves no field. -/
def Header.marshal (header : Header) : Bytes :=
  (match header.metadata with
    | none => []
    | some metadata => Wire.messageField 1 metadata.marshal) ++
    (Wire.varintField 2 header.totalSize ++ Wire.varintField 3 header.blockSize)

/-- The encoding of a block. -/
def Block.marshal (block : Block) : Bytes :=
  Wire.varintField 1 block.index ++ (Wire.bytesField 2 block.data ++ Wire.bytesField 3 block.checksum)

/-- The encoding of a message. A nil pointer is encoded as an empty message. -/
def Message.marshal : Message → Bytes
  | .header h => h.marshal
  | .block (some b) => b.marshal
  | .blockReceived index | .redoBlock index => Wire.varintField 1 index
  | .acknowledge | .block none | .dataSent | .dataReceived | .abort | .other => []

/-- Whether the texts of a message are texts. -/
def Message.hasTexts : Message → Bool
  | .header h => h.metadata.all fun metadata => Wire.isUtf8 metadata.filename
  | _ => true

/-- Encode a message, unless it has a text that is none. -/
def protoMarshal (message : Message) : Except Err Bytes :=
  if message.hasTexts then .ok message.marshal else .error invalidUtf8

/-- The values that the fields of a message can have; a byte string is limited by what can be
encoded. -/
def Message.Encodable : Message → Prop
  | .header h =>
    h.totalSize < 2 ^ 64 ∧ h.blockSize < 2 ^ 64 ∧
      ∀ metadata ∈ h.metadata, Wire.isUtf8 metadata.filename = true ∧ metadata.filename.length < 2 ^ 31
  | .block (some b) => b.index < 2 ^ 64 ∧ b.data.length < 2 ^ 31 ∧ b.checksum.length < 2 ^ 31
  | .blockReceived index | .redoBlock index => index < 2 ^ 64
  | .acknowledge | .dataSent | .dataReceived | .abort => True
  | .block none | .other => False

instance : DecidablePred Message.Encodable
  | .header h => inferInstanceAs (Decidable (h.totalSize < 2 ^ 64 ∧ h.blockSize < 2 ^ 64 ∧
      ∀ metadata ∈ h.metadata, Wire.isUtf8 metadata.filename = true ∧ metadata.filename.length < 2 ^ 31))
  | .block (some b) =>
    inferInstanceAs (Decidable (b.index < 2 ^ 64 ∧ b.data.length < 2 ^ 31 ∧ b.checksum.length < 2 ^ 31))
  | .blockReceived index | .redoBlock index => inferInstanceAs (Decidable (index < 2 ^ 64))
  | .acknowledge | .dataSent | .dataReceived | .abort => inferInstanceAs (Decidable True)
  | .block none | .other => inferInstanceAs (Decidable False)

/-- How Protobuf decodes into a message, and that it inverts the encoding. -/
structure Decoder where
  /-- An error comes with what was decoded so far. -/
  unmarshal : Bytes → Message → Message × Option Err
  unmarshal_marshal : ∀ message : Message, message.Encodable →
    unmarshal message.marshal (emptyOf message) = (message, none)

/-- The encoding of transfer messages with a decoder. -/
def Decoder.protobuf (decoder : Decoder) : Protobuf := ⟨protoMarshal, decoder.unmarshal⟩

/-- A message that can be encoded is encoded. -/
theorem Message.Encodable.protoMarshal {message : Message} (h : message.Encodable) :
    protoMarshal message = .ok message.marshal := by
  refine if_pos ?_
  cases message with
  | header header =>
    rw [Message.hasTexts, Option.all_eq_true]
    exact fun metadata hmetadata => (h.2.2 metadata hmetadata).1
  | _ => rfl

/-- Decoding inverts encoding at every message that can be encoded. -/
theorem Decoder.inverts (decoder : Decoder) {message : Message} (h : message.Encodable) :
    decoder.protobuf.Inverts message := by
  intro payload hpayload
  obtain rfl := Except.ok.inj (h.protoMarshal.symm.trans hpayload)
  exact decoder.unmarshal_marshal message h

/-- The message of the type of an empty message with given fields, as the encoding writes them. -/
def Message.parse : Message → List Wire.Field → Option Message
  | .header _, ⟨1, .bytes metadata⟩ :: fields =>
    (Wire.readFields metadata).map fun metadata =>
      .header ⟨some ⟨Wire.bytesAt 1 metadata⟩, Wire.numberAt 2 fields, Wire.numberAt 3 fields⟩
  | .header _, fields => some (.header ⟨none, Wire.numberAt 2 fields, Wire.numberAt 3 fields⟩)
  | .block _, fields =>
    some (.block (some ⟨Wire.numberAt 1 fields, Wire.bytesAt 2 fields, Wire.bytesAt 3 fields⟩))
  | .blockReceived _, fields => some (.blockReceived (Wire.numberAt 1 fields))
  | .redoBlock _, fields => some (.redoBlock (Wire.numberAt 1 fields))
  | message, _ => some message

/-- The fields of the sizes in a header. -/
def Header.sizeFields (header : Header) : List Wire.Field :=
  Wire.numberFields 2 header.totalSize ++ (Wire.numberFields 3 header.blockSize ++ [])

/-- The sizes in a header are read back. -/
theorem Header.reads_sizes {header : Header} (htotal : header.totalSize < 2 ^ 64)
    (hblock : header.blockSize < 2 ^ 64) :
    Wire.Reads (Wire.varintField 2 header.totalSize ++ Wire.varintField 3 header.blockSize) header.sizeFields := by
  rw [← List.append_nil (Wire.varintField 3 header.blockSize)]
  exact Wire.reads_varintField (by decide) (by decide)
    (Wire.reads_varintField (by decide) (by decide) Wire.reads_nil hblock) htotal

/-- The fields of the sizes in a header are found. -/
theorem Header.sizeFields_at (header : Header) :
    Wire.numberAt 2 header.sizeFields = header.totalSize ∧ Wire.numberAt 3 header.sizeFields = header.blockSize := by
  simp [sizeFields, Wire.numberAt, Wire.numberFrom_numberFields_of_ne]

/-- Metadata is read back. -/
theorem Metadata.reads {metadata : Metadata} (h : metadata.filename.length < 2 ^ 31) :
    Wire.Reads metadata.marshal (Wire.bytesFields 1 metadata.filename ++ []) := by
  rw [Metadata.marshal, ← List.append_nil (Wire.bytesField 1 _)]
  exact Wire.reads_bytesField (by decide) (by decide) Wire.reads_nil (by omega)

/-- The encoding of metadata. -/
theorem Metadata.marshal_length_le {metadata : Metadata} (h : metadata.filename.length < 2 ^ 31) :
    metadata.marshal.length ≤ metadata.filename.length + 6 := by
  have hle : (Wire.bytesField 1 metadata.filename).length ≤ 4 + 2 + metadata.filename.length :=
    Wire.bytesField_length_le (by decide) 4 (by omega)
  rw [Metadata.marshal]
  omega

/-- A header is read back. -/
theorem Header.parse_marshal {header : Header} (h : Message.Encodable (.header header))
    (start : Header) :
    Wire.parse malformed (Message.parse (.header start)) header.marshal = .ok (.header header) := by
  obtain ⟨htotal, hblock, hmetadata⟩ := h
  have hsizes := header.reads_sizes htotal hblock
  obtain ⟨hfirst, hsecond⟩ := header.sizeFields_at
  obtain ⟨metadata, totalSize, blockSize⟩ := header
  cases metadata with
  | none =>
    refine hsizes.parse ?_
    have hparse : Message.parse (.header start) (Header.sizeFields ⟨none, totalSize, blockSize⟩) =
        some (.header ⟨none, Wire.numberAt 2 (Header.sizeFields ⟨none, totalSize, blockSize⟩),
          Wire.numberAt 3 (Header.sizeFields ⟨none, totalSize, blockSize⟩)⟩) := by
      simp only [Header.sizeFields, Wire.numberFields]
      split <;> split <;> rfl
    rw [hparse, hfirst, hsecond]
  | some metadata =>
    obtain ⟨-, hname⟩ := hmetadata metadata rfl
    have hlength := Metadata.marshal_length_le hname
    have hreads : Wire.Reads (Header.marshal ⟨some metadata, totalSize, blockSize⟩)
        (⟨1, .bytes metadata.marshal⟩ :: Header.sizeFields ⟨some metadata, totalSize, blockSize⟩) :=
      Wire.reads_messageField (by decide) (by decide) hsizes (by omega)
    refine hreads.parse ?_
    rw [Message.parse, (Metadata.reads hname).readFields, Option.map_some, hfirst, hsecond]
    simp [Wire.bytesAt]

/-- A block is read back. -/
theorem Block.reads {block : Block} (h : Message.Encodable (.block (some block))) :
    Wire.Reads block.marshal (Wire.numberFields 1 block.index ++
      (Wire.bytesFields 2 block.data ++ (Wire.bytesFields 3 block.checksum ++ []))) := by
  obtain ⟨hindex, hdata, hchecksum⟩ := h
  rw [Block.marshal, ← List.append_nil (Wire.bytesField 3 block.checksum)]
  exact Wire.reads_varintField (by decide) (by decide) (Wire.reads_bytesField (by decide) (by decide)
    (Wire.reads_bytesField (by decide) (by decide) Wire.reads_nil (hchecksum.trans (by decide)))
    (hdata.trans (by decide))) hindex

/-- An index is read back. -/
theorem reads_index {index : ℕ} (h : index < 2 ^ 64) :
    Wire.Reads (Wire.varintField 1 index) (Wire.numberFields 1 index ++ []) := by
  rw [← List.append_nil (Wire.varintField 1 index)]
  exact Wire.reads_varintField (by decide) (by decide) Wire.reads_nil h

/-- The encoding of a message gives it back. -/
theorem Message.parse_marshal {message : Message} (h : message.Encodable) :
    Wire.parse malformed (Message.parse (emptyOf message)) message.marshal = .ok message := by
  cases message with
  | header header => exact Header.parse_marshal h _
  | block block =>
    cases block with
    | none => exact h.elim
    | some block =>
      refine (Block.reads h).parse ?_
      simp [emptyOf, Message.parse, Wire.numberAt, Wire.bytesAt, Wire.bytesFrom_bytesFields_of_ne]
  | blockReceived index | redoBlock index =>
    refine (reads_index h).parse ?_
    simp [emptyOf, Message.parse, Wire.numberAt]
  | acknowledge | dataSent | dataReceived | abort => rfl
  | other => exact h.elim

/-- A decoder for what the encoding writes; an error leaves the message as it was. -/
def parser : Decoder where
  unmarshal bytes message :=
    match Wire.parse malformed message.parse bytes with
    | .error err => (message, some err)
    | .ok decoded => (decoded, none)
  unmarshal_marshal message h := by rw [Message.parse_marshal h]

end ProjektCore.Transfer
