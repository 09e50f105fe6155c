import ProjektCore.Foundation.WireReader
import ProjektCore.Session.Message

/-!
# The encoding of session messages

Messages are encoded in the Protobuf wire format. How bytes are decoded is up to the Protobuf
library, of which only this is assumed: it decodes an encoded message to the message, and reports
bytes that are no message by an error. The decoder `Message.parse` meets this assumption.
-/

namespace ProjektCore.Session

open Foundation

/-- The encoding of a number of type `int32`, which is extended to 64 bits. -/
def int32Field (field : ℕ) (n : ℤ) : Bytes := Wire.varintField field (n % 2 ^ 64).toNat

/-- The encoding of data. -/
def Data.marshal (data : Data) : Bytes :=
  Wire.varintField 1 data.channelId ++ int32Field 2 data.messageType ++ Wire.bytesField 3 data.payload

/-- The encoding of the content of a message, under the field of its case. -/
def Content.marshal : Content → Bytes
  | .openChannel id type => Wire.messageField 1 (Wire.varintField 1 id ++ int32Field 2 type)
  | .acceptChannel id => Wire.messageField 2 (Wire.varintField 1 id)
  | .closeChannel id => Wire.messageField 3 (Wire.varintField 1 id)
  | .data d => Wire.messageField 4 d.marshal

/-- The encoding of a message; one without content is empty. -/
def Message.marshal (message : Message) : Bytes := (message.content.map Content.marshal).getD []

/-- The encoding of a message, which never fails: no field is a text. -/
def protoMarshal (message : Message) : Except Err Bytes := .ok message.marshal

/-- A data message. -/
def dataMessage (data : Data) : Message := ⟨some (.data data)⟩

/-- The number of type `int32` in the lowest bits of a number. -/
def toInt32 (n : ℕ) :
    ℤ := if n % 2 ^ 32 < 2 ^ 31 then (n % 2 ^ 32 : ℕ) else (n % 2 ^ 32 : ℕ) - 2 ^ 32

/-- The content of a message with given fields: a single field, under the number of its case. -/
def Content.parse : List Wire.Field → Option Content
  | [⟨1, .bytes bytes⟩] =>
    (Wire.readFields bytes).map fun fields => .openChannel (Wire.numberAt 1 fields) (toInt32 (Wire.numberAt 2 fields))
  | [⟨2, .bytes bytes⟩] => (Wire.readFields bytes).map fun fields => .acceptChannel (Wire.numberAt 1 fields)
  | [⟨3, .bytes bytes⟩] => (Wire.readFields bytes).map fun fields => .closeChannel (Wire.numberAt 1 fields)
  | [⟨4, .bytes bytes⟩] =>
    (Wire.readFields bytes).map fun fields =>
      .data ⟨Wire.numberAt 1 fields, toInt32 (Wire.numberAt 2 fields), Wire.bytesAt 3 fields⟩
  | _ => none

/-- Decode what the encoding writes. -/
def Message.parse (bytes : Bytes) : Except Err Message :=
  Wire.parse malformed (fun fields => (Content.parse fields).map fun content => ⟨some content⟩) bytes

/-- Whether a number of a channel and a type can be those of a message. -/
def InRange (id : ℕ) (type : ℤ) : Prop := id < 2 ^ 64 ∧ -2 ^ 31 ≤ type ∧ type < 2 ^ 31

/-- The values that the fields of a content can have; a payload is limited by what can be
encoded. -/
def Content.InRange : Content → Prop
  | .openChannel id type => Session.InRange id type
  | .acceptChannel id | .closeChannel id => id < 2 ^ 64
  | .data d => Session.InRange d.channelId d.messageType ∧ d.payload.length < 2 ^ 31

/-- The lowest bits of an extended number give it back. -/
theorem toInt32_extended {type : ℤ} (hlow : -2 ^ 31 ≤ type) (hhigh : type < 2 ^ 31) :
    toInt32 (type % 2 ^ 64).toNat = type := by
  rw [toInt32]
  split <;> omega

/-- Decoding a message of one field decodes its content. -/
theorem Message.parse_messageField {number : ℕ} (hpos : 0 < number) (hnumber : number < 2 ^ 29)
    {bytes : Bytes} (hlength : bytes.length < 2 ^ 64) {content : Content}
    (hcontent : Content.parse [⟨number, .bytes bytes⟩] = some content) :
    Message.parse (Wire.messageField number bytes) = .ok ⟨some content⟩ := by
  have hreads := Wire.reads_messageField hpos hnumber Wire.reads_nil hlength
  rw [List.append_nil] at hreads
  exact hreads.parse (by rw [hcontent, Option.map_some])

/-- A field with the number of a channel is read back, and is short. -/
theorem reads_id {id : ℕ} (h : id < 2 ^ 64) :
    Wire.Reads (Wire.varintField 1 id) (Wire.numberFields 1 id ++ []) ∧ (Wire.varintField 1 id).length ≤ 11 := by
  have hreads := Wire.reads_varintField (by decide : 0 < 1) (by decide) Wire.reads_nil h
  rw [List.append_nil] at hreads
  exact ⟨hreads, Wire.varintField_length_le (by decide) 9 (by omega)⟩

/-- The fields of a message that opens a channel are read back, and are short. -/
theorem reads_open {id : ℕ} {type : ℤ} (h : InRange id type) :
    Wire.Reads (Wire.varintField 1 id ++ int32Field 2 type)
        (Wire.numberFields 1 id ++ (Wire.numberFields 2 (type % 2 ^ 64).toNat ++ [])) ∧
      (Wire.varintField 1 id ++ int32Field 2 type).length ≤ 22 := by
  obtain ⟨hid, hlow, hhigh⟩ := h
  have hnumber : (type % 2 ^ 64).toNat < 2 ^ 64 := by omega
  have hlength : (int32Field 2 type).length ≤ 9 + 2 := Wire.varintField_length_le (by decide) 9 (by omega)
  constructor
  · rw [← List.append_nil (int32Field 2 type)]
    exact Wire.reads_varintField (by decide) (by decide)
      (Wire.reads_varintField (by decide) (by decide) Wire.reads_nil hnumber) hid
  · have hfirst := (reads_id hid).2
    rw [List.length_append]
    omega

/-- The fields of data are read back, and are short beside the payload. -/
theorem reads_data {d : Data} (h : InRange d.channelId d.messageType)
    (hpayload : d.payload.length < 2 ^ 31) :
    Wire.Reads d.marshal (Wire.numberFields 1 d.channelId ++ (Wire.numberFields 2 (d.messageType % 2 ^ 64).toNat ++
        (Wire.bytesFields 3 d.payload ++ []))) ∧
      d.marshal.length ≤ d.payload.length + 33 := by
  have hshort := (reads_open h).2
  obtain ⟨hid, hlow, hhigh⟩ := h
  have hnumber : (d.messageType % 2 ^ 64).toNat < 2 ^ 64 := by omega
  have hlength : (Wire.bytesField 3 d.payload).length ≤ 9 + 2 + d.payload.length :=
    Wire.bytesField_length_le (by decide) 9 (by omega)
  constructor
  · rw [Data.marshal, List.append_assoc, ← List.append_nil (Wire.bytesField 3 d.payload)]
    exact Wire.reads_varintField (by decide) (by decide) (Wire.reads_varintField (by decide) (by decide)
      (Wire.reads_bytesField (by decide) (by decide) Wire.reads_nil (by omega)) hnumber) hid
  · rw [Data.marshal, List.length_append]
    omega

/-- What is assumed of the decoding of messages, for a relation that says which bytes encode which
message. -/
structure DecodesMessages (encodes : Bytes → Message → Prop)
    (unmarshal : Bytes → Except Err Message) : Prop where
  decodes : Decodes encodes unmarshal
  marshal : ∀ content : Content, content.InRange → encodes (Message.marshal ⟨some content⟩) ⟨some content⟩

/-- An encoded message is decoded to the message. -/
theorem DecodesMessages.unmarshal_marshal {encodes : Bytes → Message → Prop}
    {unmarshal : Bytes → Except Err Message} (h : DecodesMessages encodes unmarshal)
    (content : Content) (hrange : content.InRange) :
    unmarshal (Message.marshal ⟨some content⟩) = .ok ⟨some content⟩ :=
  h.decodes.eq_ok (h.marshal content hrange)

/-- Decoding an encoded message gives it back. -/
theorem Message.parse_marshal (content : Content) (h : content.InRange) :
    Message.parse (Message.marshal ⟨some content⟩) = .ok ⟨some content⟩ := by
  have hmarshal : Message.marshal ⟨some content⟩ = content.marshal := rfl
  rw [hmarshal]
  cases content with
  | openChannel id type =>
    obtain ⟨hreads, hlength⟩ := reads_open h
    refine parse_messageField (by decide) (by decide) (by omega) ?_
    have hnumber := toInt32_extended h.2.1 h.2.2
    norm_num at hnumber
    simp [Content.parse, hreads.readFields, Wire.numberAt, Wire.numberFrom_numberFields_of_ne,
      hnumber]
  | acceptChannel id =>
    obtain ⟨hreads, hlength⟩ := reads_id h
    refine parse_messageField (by decide) (by decide) (by omega) ?_
    simp [Content.parse, hreads.readFields, Wire.numberAt]
  | closeChannel id =>
    obtain ⟨hreads, hlength⟩ := reads_id h
    refine parse_messageField (by decide) (by decide) (by omega) ?_
    simp [Content.parse, hreads.readFields, Wire.numberAt]
  | data d =>
    obtain ⟨hrange, hpayload⟩ := h
    obtain ⟨hreads, hlength⟩ := reads_data hrange hpayload
    refine parse_messageField (by decide) (by decide) (by omega) ?_
    have hnumber := toInt32_extended hrange.2.1 hrange.2.2
    norm_num at hnumber
    simp [Content.parse, hreads.readFields, Wire.numberAt, Wire.bytesAt,
      Wire.numberFrom_numberFields_of_ne, hnumber]

/-- The decoder meets the assumption, for what it decodes. -/
theorem parse_decodesMessages :
    DecodesMessages (fun bytes m => Message.parse bytes = .ok m) Message.parse where
  decodes := ⟨fun h => h, fun {bytes} h => by
    cases hparse : Message.parse bytes with
    | error err => exact ⟨err, rfl⟩
    | ok m => exact absurd hparse (h m)⟩
  marshal := Message.parse_marshal

end ProjektCore.Session
