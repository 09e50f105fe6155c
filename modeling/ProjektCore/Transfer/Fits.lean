import ProjektCore.Transfer.Protobuf
import ProjektCore.Transfer.Unreliable

/-!
# Transfer messages fit into channel messages

A channel refuses a message whose encoding is larger than the limit for payloads. A block of the
data is encoded with its index and its checksum, so the size of the blocks decides whether a
transfer can take place: blocks of up to 65445 bytes always fit, and blocks of more than 65456 bytes
never do. All other messages of a transfer fit, as long as the name of the file does and is a text.
What fits is read back on the other side of the channel.
-/

namespace ProjektCore.Transfer

open Foundation Protocol Session

/-- The number of bytes of data that a block can have in every message. -/
def blockDataLimit : ℕ := 65445

/-- The number of bytes that the name of a file can have in every message. -/
def filenameLimit : ℕ := 65464

/-- The encoding of a block. -/
theorem Block.marshal_length_le {b : Block} (hindex : b.index < 2 ^ 64)
    (hdata : b.data.length < 2 ^ 21) (hchecksum : b.checksum.length = 32) :
    b.marshal.length ≤ b.data.length + 49 := by
  have h₁ : (Wire.varintField 1 b.index).length ≤ 9 + 2 := Wire.varintField_length_le (by decide) 9 (by omega)
  have h₂ : (Wire.bytesField 2 b.data).length ≤ 2 + 2 + b.data.length :=
    Wire.bytesField_length_le (by decide) 2 (by omega)
  have h₃ : (Wire.bytesField 3 b.checksum).length ≤ 0 + 2 + b.checksum.length :=
    Wire.bytesField_length_le (by decide) 0 (by omega)
  rw [Block.marshal, List.length_append, List.length_append]
  omega

/-- Data of many bytes makes a block too large. -/
theorem Block.lt_marshal_length {b : Block} (hdata : 65456 < b.data.length)
    (hsize : b.data.length < 2 ^ 64) (hchecksum : b.checksum.length = 32) :
    65494 < b.marshal.length := by
  have hcount : 3 ≤ (Wire.varint b.data.length).length := by
    rw [Wire.varint, Wire.varintLoop, if_neg (by omega), Wire.varintLoop, if_neg (by omega),
      Wire.varintLoop]
    split <;> simp
  have h₂ : 4 + b.data.length ≤ (Wire.bytesField 2 b.data).length := by
    have htag : (Wire.tag 2 2).length = 1 := rfl
    rw [Wire.bytesField, if_neg (List.ne_nil_of_length_pos (by omega)), Wire.messageField,
      List.length_append, List.length_append, htag]
    omega
  have h₃ : (Wire.bytesField 3 b.checksum).length = 34 := by
    have htag : (Wire.tag 3 2).length = 1 := rfl
    have hvarint : (Wire.varint 32).length = 1 := rfl
    rw [Wire.bytesField, if_neg (List.ne_nil_of_length_pos (by omega)), Wire.messageField,
      List.length_append, List.length_append, htag, hchecksum, hvarint]
  rw [Block.marshal, List.length_append, List.length_append]
  omega

/-- The encoding of a header. -/
theorem Header.marshal_length_le {h : Header} {metadata : Metadata}
    (hmetadata : h.metadata = some metadata) (hname : metadata.filename.length < 2 ^ 16)
    (htotal : h.totalSize < 2 ^ 64) (hblock : h.blockSize < 2 ^ 64) :
    h.marshal.length ≤ metadata.filename.length + 30 := by
  have hinner : metadata.marshal.length ≤ 2 + 2 + metadata.filename.length :=
    Wire.bytesField_length_le (by decide) 2 (by omega)
  have h₁ : (Wire.messageField 1 metadata.marshal).length ≤ 2 + 2 + metadata.marshal.length :=
    Wire.messageField_length_le (by decide) 2 (by omega)
  have h₂ : (Wire.varintField 2 h.totalSize).length ≤ 9 + 2 := Wire.varintField_length_le (by decide) 9 (by omega)
  have h₃ : (Wire.varintField 3 h.blockSize).length ≤ 9 + 2 := Wire.varintField_length_le (by decide) 9 (by omega)
  rw [Header.marshal, hmetadata]
  simp only [List.length_append]
  omega

/-- A message is written to a channel as a message of the secure connection, and is read from it. -/
def Travels (unmarshal : Bytes → Except Err Session.Message) (decoder : Decoder) (id : ℕ)
    (message : Message) : Prop :=
  ∃ bytes m type, (channelProtocol decoder.protobuf).marshalMessage id message = .ok (.ok bytes) ∧
    bytes.length ≤ Secure.PayloadMaxSize ∧ unmarshalMessage unmarshal bytes = .ok m ∧ m.channelId = id ∧
    (channelProtocol decoder.protobuf).readMessage m = .ok (.ok (message, type)) ∧
    (channelProtocol decoder.protobuf).decode type message.marshal = .ok message

/-- A message has a type unless it is one of another protocol. -/
theorem Message.Encodable.rawTypeOf {message : Message} (h : message.Encodable) :
    ∃ type, Transfer.rawTypeOf message = .ok type := by
  cases message with
  | other => exact h.elim
  | _ => exact ⟨_, rfl⟩

/-- A message that can be encoded within the limit for payloads. -/
def Message.Fits (message : Message) : Prop := message.Encodable ∧ message.marshal.length ≤ 65494

/-- A message that fits is read back. -/
theorem Message.Fits.travels {message : Message} (hmessage : message.Fits)
    {encodes : Bytes → Session.Message → Prop} {unmarshal : Bytes → Except Err Session.Message}
    (hunmarshal : DecodesMessages encodes unmarshal) (decoder : Decoder) {id : ℕ}
    (hid : id < 2 ^ 64) :
    Travels unmarshal decoder id message := by
  obtain ⟨h, hsize⟩ := hmessage
  obtain ⟨type, htype⟩ := h.rawTypeOf
  obtain ⟨-, hlow, hhigh⟩ := newMessage_rawTypeOf htype
  have hinverts := channelProtocol_inverts (decoder.inverts h)
  have hpayload : (channelProtocol decoder.protobuf).marshal message = .ok message.marshal := h.protoMarshal
  have hlimit : (message.marshal.length : ℤ) ≤ computePayloadMaxSize := by
    rw [computePayloadMaxSize_eq]
    omega
  obtain ⟨bytes, m, hmarshal, hbytes, hchannel, hread⟩ := MessageProtocol.readMessage_marshalMessage hunmarshal
    ⟨hid, by omega, hhigh⟩ htype hpayload hlimit hinverts
  refine ⟨bytes, m, type, hmarshal, ?_, hbytes, hchannel, hread, hinverts type _ htype hpayload⟩
  have hencoded : (channelProtocol decoder.protobuf).marshalMessage id message =
      .ok (.ok (dataMessage ⟨id, type, message.marshal⟩).marshal) := by
    have hwrap : (channelProtocol decoder.protobuf).wrapMessage id message =
        .ok (.ok (dataMessage ⟨id, type, message.marshal⟩)) := by
      have hraw : (channelProtocol decoder.protobuf).rawTypeOf message = .ok type := htype
      simp only [MessageProtocol.wrapMessage, hpayload, hraw, if_neg (not_lt.mpr hlimit)]
      rfl
    rw [MessageProtocol.marshalMessage, hwrap]
    rfl
  obtain rfl := Except.ok.inj (Except.ok.inj (hmarshal.symm.trans hencoded))
  have hlength : (dataMessage ⟨id, type, message.marshal⟩).marshal.length ≤ message.marshal.length + 25 :=
    marshal_length_le hid hlow hhigh (lt_of_le_of_lt hsize (by decide))
  rw [show Secure.PayloadMaxSize = 65519 from rfl]
  omega

/-- A name that fits into every message: a text of a limited size. -/
def Metadata.NameFits (metadata : Metadata) : Prop :=
  Wire.isUtf8 metadata.filename = true ∧ metadata.filename.length ≤ filenameLimit

section Messages

variable {sha256 : Bytes → Bytes} (hsha256 : ∀ bytes, (sha256 bytes).length = 32) {data : Bytes} {s : Size}
  (hfits : s.Fits data.length) {metadata : Metadata} (hname : metadata.NameFits) {message : Message}

/-- The number of a block can be encoded. -/
theorem index_lt (hfits : s.Fits data.length) {i : ℕ} (hi : i < s.blockCount data.length) :
    i < 2 ^ 64 := by
  have hcount := Reader.blockCount_lt s hfits
  omega

include hfits hname in
/-- The header of a sender fits. -/
theorem header_fits : (Message.header (headerOf data s (some metadata))).Fits := by
  have hbytes := hfits.bytes_le
  have htotal := hfits.size_lt
  obtain ⟨htext, hlength⟩ := hname
  rw [filenameLimit] at hlength
  have hencodable : Message.Encodable (.header (headerOf data s (some metadata))) := by
    refine ⟨htotal.trans (by decide), lt_of_le_of_lt hbytes (by decide), ?_⟩
    intro other hother
    obtain rfl := Option.some.inj hother
    exact ⟨htext, by omega⟩
  refine ⟨hencodable, ?_⟩
  have hheader := Header.marshal_length_le (h := headerOf data s (some metadata)) rfl (by omega) hencodable.1
    hencodable.2.1
  exact hheader.trans (by omega)

include hsha256 hfits hname in
/-- The messages of a sender fit if its blocks do. -/
theorem Original.fits (h : Original data s (some metadata) sha256 message)
    (hsize : s.bytes ≤ blockDataLimit) :
    message.Fits := by
  rw [blockDataLimit] at hsize
  cases message with
  | header header =>
    obtain rfl : header = headerOf data s (some metadata) := h
    exact header_fits hfits hname
  | block block =>
    obtain ⟨i, hi, rfl⟩ := h
    have hindex : i < 2 ^ 64 := index_lt hfits hi
    have hdata : (dataAt data s i).length ≤ s.bytes := by
      rw [dataAt, List.length_take]
      exact min_le_left ..
    have hchecksum : (blockAt sha256 data s i).checksum.length = 32 := hsha256 _
    have hencodable : Message.Encodable (.block (some (blockAt sha256 data s i))) := by
      refine ⟨hindex, ?_, ?_⟩
      · change (dataAt data s i).length < 2 ^ 31
        omega
      · rw [hchecksum]
        decide
    have hlength := Block.marshal_length_le (b := blockAt sha256 data s i) hindex
      (by change (dataAt data s i).length < 2 ^ 21; omega) hchecksum
    change (blockAt sha256 data s i).marshal.length ≤ (dataAt data s i).length + 49 at hlength
    refine ⟨hencodable, ?_⟩
    change (blockAt sha256 data s i).marshal.length ≤ 65494
    omega
  | dataSent | abort => exact ⟨trivial, by decide⟩
  | _ => exact h.elim

include hfits in
/-- The messages of a receiver fit. -/
theorem Answers.fits (h : Answers data s message) : message.Fits := by
  have hindex {i : ℕ} (hi : i < s.blockCount data.length) : (Wire.varintField 1 i).length ≤ 65494 := by
    have hlength : (Wire.varintField 1 i).length ≤ 9 + 2 :=
      Wire.varintField_length_le (by decide) 9 ((index_lt hfits hi).trans (by decide))
    omega
  cases message with
  | blockReceived i | redoBlock i => exact ⟨index_lt hfits h, hindex h⟩
  | acknowledge | dataReceived | abort => exact ⟨trivial, by decide⟩
  | _ => exact h.elim

include hsha256 hfits in
/-- A block of too much data is refused. -/
theorem Original.refused {b : Block} (h : Original data s (some metadata) sha256 (.block (some b)))
    (hdata : 65456 < b.data.length) (decoder : Decoder) (id : ℕ) :
    (channelProtocol decoder.protobuf).marshalMessage id (.block (some b)) = .ok (.error .payloadTooLarge) := by
  obtain ⟨i, hi, heq⟩ := h
  obtain rfl := Option.some.inj heq
  have hlength : (blockAt sha256 data s i).data.length ≤ s.bytes := by
    change (dataAt data s i).length ≤ s.bytes
    rw [dataAt, List.length_take]
    exact min_le_left ..
  have hlarge := Block.lt_marshal_length hdata (lt_of_le_of_lt (hlength.trans hfits.bytes_le) (by decide)) (hsha256 _)
  have hover : ((Message.block (some (blockAt sha256 data s i))).marshal.length : ℤ) > computePayloadMaxSize := by
    rw [computePayloadMaxSize_eq]
    change (blockAt sha256 data s i).marshal.length > (65494 : ℤ)
    omega
  have hpayload : (channelProtocol decoder.protobuf).marshal (.block (some (blockAt sha256 data s i))) =
      .ok (Message.block (some (blockAt sha256 data s i))).marshal := rfl
  simp only [MessageProtocol.marshalMessage, MessageProtocol.wrapMessage, hpayload, if_pos hover]
  rfl

/-- A header with a name that is no text is refused. -/
theorem Original.refused_name {header : Header}
    (h : Original data s (some metadata) sha256 (.header header))
    (hname : Wire.isUtf8 metadata.filename = false) (decoder : Decoder) (id : ℕ) :
    (channelProtocol decoder.protobuf).marshalMessage id (.header header) = .ok (.error invalidUtf8) := by
  obtain rfl : header = headerOf data s (some metadata) := h
  have hpayload : (channelProtocol decoder.protobuf).marshal (.header (headerOf data s (some metadata))) =
      .error invalidUtf8 := by
    refine if_neg ?_
    change ¬ (Wire.isUtf8 metadata.filename) = true
    rw [hname]
    decide
  simp only [MessageProtocol.marshalMessage, MessageProtocol.wrapMessage, hpayload]
  rfl

end Messages

/-- The messages of a transfer on a channel, whatever the network between the two sides does and
however Protobuf decodes what it encodes. If the blocks have at most 65445 bytes and the name of the
file is a text of at most 65464 bytes, every message that a side writes is marshalled by the channel
without an error, fits into a message of the secure connection, and is read back unchanged by the
channel of the peer. A block of more than 65456 bytes is always refused, and so is the header of a
file with a name that is no text. -/
theorem transfer_messages_fit (sha256 : Bytes → Bytes)
    (hsha256 : ∀ bytes, (sha256 bytes).length = 32) (data : Bytes) (s : Size)
    (hfits : s.Fits data.length) (metadata : Metadata) (factory : WriterFactory)
    (hfresh : Fresh factory) (encodes : Bytes → Session.Message → Prop)
    (unmarshal : Bytes → Except Err Session.Message)
    (hunmarshal : DecodesMessages encodes unmarshal) (decoder : Decoder) :
    ∃ sender receiver,
      newSender sha256 (some metadata) (newBlockReader (.ofBytes data) data.length s) = .ok sender ∧
      newReceiver sha256 factory = .ok receiver ∧
      ∀ p, Reached (unreliableStep sha256 Peer.side Peer.side) anyStep ⟨sender, receiver, [], []⟩ p →
        ∀ message,
          ((∃ left, Peer.side.write p.left = .ok (left, message, none)) ∨
            ∃ right, Peer.side.write p.right = .ok (right, message, none)) →
          ∃ m, message = some m ∧
            (s.bytes ≤ blockDataLimit → metadata.NameFits → ∀ id < 2 ^ 64, Travels unmarshal decoder id m) ∧
            (∀ b, m = .block (some b) → 65456 < b.data.length → ∀ id,
              (channelProtocol decoder.protobuf).marshalMessage id m = .ok (.error .payloadTooLarge)) ∧
            ∀ h, m = .header h → Wire.isUtf8 metadata.filename = false → ∀ id,
              (channelProtocol decoder.protobuf).marshalMessage id m = .ok (.error invalidUtf8) := by
  obtain ⟨client, client', hsender, hreceiver, ha, hb⟩ := transferStart_embeds sha256 (some metadata) factory data s
  refine ⟨_, _, hsender, hreceiver, ?_⟩
  intro q hq
  obtain ⟨p, rfl, hreliable⟩ := reliable_of_reached hfits hfresh ha hb hq
  intro message hmessage
  rcases hmessage with ⟨left, hwrite⟩ | ⟨right, hwrite⟩
  · obtain ⟨left, hwrite, -⟩ := ha.write_eq_ok.mp hwrite
    obtain ⟨-, m, rfl, horiginal⟩ := SenderPhase.write_original hfits hreliable.agrees.reader hreliable.announced
      (Machine.side_write_eq_ok.mp hwrite)
    refine ⟨m, rfl, ?_, ?_, ?_⟩
    · intro hsize hname id hid
      exact (horiginal.fits hsha256 hfits hname hsize).travels hunmarshal decoder hid
    · rintro b rfl hlarge id
      exact horiginal.refused hsha256 hfits hlarge decoder id
    · rintro h rfl hname id
      exact horiginal.refused_name hname decoder id
  · obtain ⟨right, hwrite, -⟩ := hb.write_eq_ok.mp hwrite
    obtain ⟨-, -, m, rfl, hanswers⟩ :=
      ReceiverPhase.write_answers hreliable.answerable (Machine.side_write_eq_ok.mp hwrite)
    refine ⟨m, rfl, fun _ _ id hid => (hanswers.fits hfits).travels hunmarshal decoder hid, ?_, ?_⟩
    · rintro b rfl
      exact hanswers.elim
    · rintro h rfl
      exact hanswers.elim

/-- The header of a transfer of three bytes is written on the channel with number one and read
back. -/
theorem transfer_messages_fit_header :
    ∃ sender receiver,
      newSender (fun _ => List.replicate 32 0) (some ⟨[100]⟩)
        (newBlockReader (.ofBytes [1, 2, 3]) 3 ⟨2, by decide⟩) = .ok sender ∧
      newReceiver (fun _ => List.replicate 32 0) (fun _ size => .ok (.make size)) = .ok receiver ∧
      ∃ left m, Peer.side.write sender = .ok (left, some m, none) ∧ Travels Session.Message.parse parser 1 m := by
  obtain ⟨sender, receiver, hsender, hreceiver, hall⟩ :=
    transfer_messages_fit (fun _ => List.replicate 32 0) (fun _ => List.length_replicate) [1, 2, 3] ⟨2, by decide⟩
      ⟨by decide, by decide⟩ ⟨[100]⟩ (fun _ size => .ok (.make size))
      (fun _ size => ⟨.make size, rfl, by simp [Store.make, Store.ofBytes], rfl⟩) _ _ parse_decodesMessages parser
  refine ⟨sender, receiver, hsender, hreceiver, ?_⟩
  have hrun : (do
      let sender ← newSender (fun _ => List.replicate 32 0) (some ⟨[100]⟩)
        (newBlockReader (.ofBytes [1, 2, 3]) 3 ⟨2, by decide⟩)
      let result ← Peer.side.write sender
      return result.2) = (.ok (some (.header ⟨some ⟨[100]⟩, 3, 2⟩), none) : Go _) := rfl
  change newSender (fun _ => List.replicate 32 0) (some ⟨[100]⟩)
    (newBlockReader (.ofBytes [1, 2, 3]) 3 ⟨2, by decide⟩) = .ok sender at hsender
  rw [hsender] at hrun
  simp only [Call.ok_bind, Call.bind_eq_ok, Call.pure_eq_ok, Except.ok.injEq] at hrun
  obtain ⟨⟨left, message, err⟩, hwrite, hresult⟩ := hrun
  obtain ⟨rfl, rfl⟩ := Prod.mk.inj hresult
  obtain ⟨m, hm, htravels, -⟩ := hall _ .start _ (.inl ⟨left, hwrite⟩)
  obtain rfl := Option.some.inj hm
  exact ⟨left, _, hwrite, htravels (by decide) ⟨by decide, by decide⟩ 1 (by decide)⟩

end ProjektCore.Transfer
