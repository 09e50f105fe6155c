import ProjektCore.Secure
import ProjektCore.Session.Marshal

/-!
# The largest payload of a data message

The payload of a data message must leave room for the rest of the message in a message of the secure
connection. The limit is computed from the encoding of a message with the largest number of a
channel and the largest type: what its payload makes it too large is taken off the payload.
-/

namespace ProjektCore.Session

open Foundation Secure

/-- The largest size of a payload, from a message whose other fields take the most bytes. -/
def computePayloadMaxSize : ℤ :=
  let payload := List.replicate PayloadMaxSize 0
  match protoMarshal (dataMessage ⟨2 ^ 64 - 1, 2 ^ 31 - 1, payload⟩) with
  | .error _ => PayloadMaxSize - 256
  | .ok encoded =>
    let tooMuch : ℤ := encoded.length - PayloadMaxSize
    PayloadMaxSize - tooMuch

/-- The encoding of a data message whose number, type and lengths take given numbers of bytes at
most. -/
theorem marshal_length_le {data : Data} (hid : data.channelId < 2 ^ 64)
    (hnonneg : 0 ≤ data.messageType) (htype : data.messageType < 2 ^ 31)
    (hpayload : data.payload.length < 2 ^ 16) :
    (dataMessage data).marshal.length ≤ data.payload.length + 25 := by
  have hnumber : (data.messageType % 2 ^ 64).toNat < 128 ^ (4 + 1) := by omega
  have h₁ : (Wire.varintField 1 data.channelId).length ≤ 9 + 2 :=
    Wire.varintField_length_le (by decide) 9 (by omega)
  have h₂ : (int32Field 2 data.messageType).length ≤ 4 + 2 := Wire.varintField_length_le (by decide) 4 hnumber
  have h₃ : (Wire.bytesField 3 data.payload).length ≤ 2 + 2 + data.payload.length :=
    Wire.bytesField_length_le (by decide) 2 (by omega)
  have hdata : data.marshal.length ≤ data.payload.length + 21 := by
    rw [Data.marshal, List.length_append, List.length_append]
    omega
  have houter : (Wire.messageField 4 data.marshal).length ≤ 2 + 2 + data.marshal.length :=
    Wire.messageField_length_le (by decide) 2 (by omega)
  have hmarshal : (dataMessage data).marshal = Wire.messageField 4 data.marshal := rfl
  rw [hmarshal]
  omega

/-- The encoding of a message with the largest number and type and a payload whose length takes
three bytes. -/
theorem largest_marshal_length (payload : Bytes) (hpayload : payload ≠ [])
    (hlength : (Wire.varint payload.length).length = 3)
    (houter : (Wire.varint (payload.length + 21)).length = 3) :
    (dataMessage ⟨2 ^ 64 - 1, 2 ^ 31 - 1, payload⟩).marshal.length = payload.length + 25 := by
  have hid : (Wire.varintField 1 (2 ^ 64 - 1)).length = 11 := by decide
  have htype : (int32Field 2 (2 ^ 31 - 1)).length = 6 := by decide
  have hbytes : (Wire.bytesField 3 payload).length = payload.length + 4 := by
    rw [Wire.bytesField, if_neg hpayload, Wire.messageField, List.length_append, List.length_append,
      hlength, show (Wire.tag 3 2).length = 1 from rfl]
    omega
  have hdata : (Data.marshal ⟨2 ^ 64 - 1, 2 ^ 31 - 1, payload⟩).length = payload.length + 21 := by
    simp only [Data.marshal, List.length_append, hid, htype, hbytes]
    omega
  have hmarshal : (dataMessage ⟨2 ^ 64 - 1, 2 ^ 31 - 1, payload⟩).marshal =
      Wire.messageField 4 (Data.marshal ⟨2 ^ 64 - 1, 2 ^ 31 - 1, payload⟩) := rfl
  rw [hmarshal, Wire.messageField, List.length_append, List.length_append, hdata, houter,
    show (Wire.tag 4 2).length = 1 from rfl]
  omega

/-- The largest size of a payload. -/
theorem computePayloadMaxSize_eq : computePayloadMaxSize = 65494 := by
  have hpayload : (List.replicate PayloadMaxSize (0 : UInt8)).length = 65519 := List.length_replicate
  have hsample := largest_marshal_length (List.replicate PayloadMaxSize 0)
    (List.ne_nil_of_length_pos (by rw [hpayload]; decide)) (by rw [hpayload]; decide) (by rw [hpayload]; decide)
  simp only [computePayloadMaxSize, protoMarshal, hsample, hpayload]
  decide

/-- The payload limit is safe and tight. A data message whose payload keeps the limit fits into a
message of the secure connection for every number of a channel and every type that is not negative,
in particular if it was wrapped with this limit, so writing it does not refuse it. Every message
whose encoding keeps the limit is wrapped; with the largest number and type a payload that is one
byte longer is refused. -/
theorem payload_limit :
    (∀ data : Data, data.channelId < 2 ^ 64 → 0 ≤ data.messageType → data.messageType < 2 ^ 31 →
      (data.payload.length : ℤ) ≤ computePayloadMaxSize →
      (dataMessage data).marshal.length ≤ PayloadMaxSize ∧
      ∀ (cipher : Cipher) (conn : NoiseConn),
        ∃ conn' sent, conn.write cipher (fun message => (message.length, none)) (dataMessage data).marshal =
          .ok (conn', sent, (dataMessage data).marshal.length, none)) ∧
    (∀ (M : Type) (protocols : Protocols M) (c : ChannelHandle) (message : M) (data : Data),
      (protocols.payloadMaxSize : ℤ) = computePayloadMaxSize → c.wrapMessage protocols message = .ok data →
      data.channelId = c.id ∧ data.messageType = (protocols.codec c.protocolId).rawTypeOf message ∧
        (data.payload.length : ℤ) ≤ computePayloadMaxSize) ∧
    (∀ (M : Type) (protocols : Protocols M) (c : ChannelHandle) (message : M) (payload : Bytes),
      (protocols.payloadMaxSize : ℤ) = computePayloadMaxSize →
      (protocols.codec c.protocolId).marshal message = .ok payload →
      (payload.length : ℤ) ≤ computePayloadMaxSize →
      c.wrapMessage protocols message = .ok ⟨c.id, (protocols.codec c.protocolId).rawTypeOf message, payload⟩) ∧
    ∀ payload : Bytes, (payload.length : ℤ) = computePayloadMaxSize + 1 →
      PayloadMaxSize < (dataMessage ⟨2 ^ 64 - 1, 2 ^ 31 - 1, payload⟩).marshal.length ∧
      ∀ (cipher : Cipher) (conn : NoiseConn) (accept : Bytes → ℕ × Option Err),
        conn.write cipher accept (dataMessage ⟨2 ^ 64 - 1, 2 ^ 31 - 1, payload⟩).marshal =
          .ok (conn, [], 0, some (.new "noise message is too long")) := by
  refine ⟨?_, ?_, ?_, ?_⟩
  · intro data hid hnonneg htype hpayload
    rw [computePayloadMaxSize_eq] at hpayload
    have hlength := marshal_length_le hid hnonneg htype (by omega)
    have hfits : (dataMessage data).marshal.length ≤ PayloadMaxSize := hlength.trans (by
      rw [show PayloadMaxSize = 65519 from rfl]
      omega)
    exact ⟨hfits, fun cipher conn => ⟨_, _, conn.write_eq hfits⟩⟩
  · intro M protocols c message data hlimit hwrap
    obtain ⟨payload, -, hpayload, rfl⟩ := ChannelHandle.wrapMessage_eq_ok hwrap
    exact ⟨rfl, rfl, hlimit ▸ Int.ofNat_le.mpr hpayload⟩
  · intro M protocols c message payload hlimit hpayload hsize
    exact ChannelHandle.wrapMessage_of_marshal hpayload (Int.ofNat_le.mp (hlimit ▸ hsize))
  · intro payload hpayload
    have hlength : payload.length = 65495 := by
      rw [computePayloadMaxSize_eq] at hpayload
      omega
    have hmarshal := largest_marshal_length payload (List.ne_nil_of_length_pos (by rw [hlength]; decide))
      (by rw [hlength]; decide) (by rw [hlength]; decide)
    rw [hlength] at hmarshal
    refine ⟨by rw [hmarshal]; decide, ?_⟩
    intro cipher conn accept
    rw [NoiseConn.write, if_pos (by rw [hmarshal]; decide)]

/-- A payload of the largest size on the channel with the largest number is wrapped, and the message
fits into one of the secure connection. -/
theorem payload_limit_largest :
    ChannelHandle.wrapMessage ⟨fun _ => plainCodec, 65494⟩ ⟨1, 2 ^ 64 - 1⟩ (List.replicate 65494 7) =
      .ok ⟨2 ^ 64 - 1, 0, List.replicate 65494 7⟩ ∧
    (dataMessage ⟨2 ^ 64 - 1, 2 ^ 31 - 1, List.replicate 65494 7⟩).marshal.length ≤ PayloadMaxSize := by
  have hsize : ((List.replicate 65494 (7 : UInt8)).length : ℤ) ≤ computePayloadMaxSize := by
    rw [List.length_replicate, computePayloadMaxSize_eq]
    rfl
  have hlimit : ((65494 : ℕ) : ℤ) = computePayloadMaxSize := by
    rw [computePayloadMaxSize_eq]
    rfl
  have htype : (0 : ℤ) ≤ 2 ^ 31 - 1 ∧ (2 ^ 31 - 1 : ℤ) < 2 ^ 31 := by omega
  obtain ⟨hfits, -, hwrap, -⟩ := payload_limit
  exact ⟨hwrap Bytes ⟨fun _ => plainCodec, 65494⟩ ⟨1, 2 ^ 64 - 1⟩ _ _ hlimit rfl hsize,
    (hfits ⟨2 ^ 64 - 1, 2 ^ 31 - 1, _⟩ (by decide) htype.1 htype.2 hsize).1⟩

end ProjektCore.Session
