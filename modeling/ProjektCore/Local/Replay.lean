import ProjektCore.Foundation.WireReader
import ProjektCore.Local.Broadcast

/-!
# How long a request can be replayed

A request carries the time at which it was made, and a device refuses a request that is too old. A
request from the future has a negative age and is accepted until its time has come and the largest
age has passed. So the time during which a message is accepted is bounded only for messages that are
not from the future.
-/

namespace ProjektCore.Local

open Foundation

/-- Decode what the encoding of contents writes. -/
def RequestPayload.parse (bytes : Bytes) : Except Err RequestPayload :=
  Wire.parse malformed (fun fields => some ⟨Wire.numberAt 1 fields, Wire.numberAt 2 fields, Wire.bytesAt 3 fields⟩)
    bytes

/-- The values that the fields of a content can have. -/
def RequestPayload.InRange (payload : RequestPayload) : Prop :=
  payload.requestId < 2 ^ 64 ∧ payload.epochSeconds < 2 ^ 64 ∧ payload.handshakeMessage.length < 2 ^ 63

/-- A decoder that inverts the encoding of contents. -/
def InvertsPayloads (unmarshal : Bytes → Except Err RequestPayload) : Prop :=
  ∀ payload : RequestPayload, payload.InRange → unmarshal payload.marshal = .ok payload

/-- There is a decoder that inverts the encoding of contents. -/
theorem parse_invertsPayloads : InvertsPayloads RequestPayload.parse := by
  rintro payload ⟨hid, hepoch, hhandshake⟩
  have hreads : Wire.Reads payload.marshal (Wire.numberFields 1 payload.requestId ++
      (Wire.numberFields 2 payload.epochSeconds ++ (Wire.bytesFields 3 payload.handshakeMessage ++ []))) := by
    rw [RequestPayload.marshal, List.append_assoc,
      ← List.append_nil (Wire.bytesField 3 payload.handshakeMessage)]
    exact Wire.reads_varintField (by decide) (by decide) (Wire.reads_varintField (by decide) (by decide)
      (Wire.reads_bytesField (by decide) (by decide) Wire.reads_nil (by omega)) hepoch) hid
  refine hreads.parse ?_
  simp [Wire.numberAt, Wire.bytesAt, Wire.numberFrom_numberFields_of_ne]

/-- The time that a content says, in nanoseconds since the Unix epoch. -/
def RequestPayload.timestamp (payload : RequestPayload) : ℤ :=
  (timeUnix (int64 payload.epochSeconds) - unixToInternal) * 10 ^ 9

/-- A time that a `Time` holds: its seconds since the year one are a signed number of 64 bits. -/
def IsTime (now : ℤ) : Prop :=
  -2 ^ 63 ≤ now / 10 ^ 9 + unixToInternal ∧ now / 10 ^ 9 + unixToInternal < 2 ^ 63

/-- A duration that ends at its limits exceeds the largest age exactly if the exact one does. -/
theorem timeSince_le_iff (now time : ℤ) :
    timeSince now time ≤ RequestMaxAge ↔ now ≤ (time - unixToInternal) * 10 ^ 9 + RequestMaxAge := by
  rw [timeSince, RequestMaxAge]
  omega

section Verify

variable {hmac : KeyedFunction UInt8} {unmarshal : Bytes → Except Err RequestPayload} {deviceKey : Bytes}
  {m : RequestMessage} {r : Request} {now : ℤ}

/-- A message is accepted exactly if it has the tag of the key, its payload decodes, and its time is
not older than the largest age. -/
theorem verifyRequestMessage_eq_ok_iff :
    verifyRequestMessage hmac unmarshal now deviceKey m = .ok r ↔
      requestTag hmac deviceKey m.payload = m.mac ∧ ∃ payload, unmarshal m.payload = .ok payload ∧
        now ≤ payload.timestamp + RequestMaxAge ∧ r = ⟨payload.requestId, payload.handshakeMessage⟩ := by
  rw [verifyRequestMessage]
  by_cases hmac : requestTag hmac deviceKey m.payload = m.mac
  · simp only [hmac, ne_eq, not_true_eq_false, if_false, true_and]
    cases unmarshal m.payload with
    | error err => simp
    | ok payload =>
      have hage := timeSince_le_iff now (timeUnix (int64 payload.epochSeconds))
      simp only [Except.ok.injEq, exists_eq_left', RequestPayload.timestamp, ← hage]
      split
      · next hold => simp [not_le.mpr hold]
      · next hyoung => simp [not_lt.mp hyoung, eq_comm]
  · simp [hmac]

/-- The time of a request is that of the second in which it was made. -/
theorem payloadAt_timestamp (hnow : IsTime now) (request : Request) :
    (payloadAt now request).timestamp = now / 10 ^ 9 * 10 ^ 9 := by
  obtain ⟨hlow, hhigh⟩ := hnow
  have hepoch : (((now / 10 ^ 9) % 2 ^ 64).toNat : ℤ) = (now / 10 ^ 9) % 2 ^ 64 :=
    Int.toNat_of_nonneg (Int.emod_nonneg _ (by decide))
  -- the wrapped seconds and those since the year one differ by a multiple of the modulus
  have hseconds : timeUnix (int64 ((now / 10 ^ 9) % 2 ^ 64)) = now / 10 ^ 9 + unixToInternal := by
    rw [timeUnix, int64, int64, Int.bmod_def, Int.bmod_def]
    rw [unixToInternal] at hlow hhigh ⊢
    omega
  rw [RequestPayload.timestamp, payloadAt, hepoch, hseconds, Int.add_sub_cancel]

/-- The content of a request has values that can be encoded. -/
theorem payloadAt_inRange (hid : r.id < 2 ^ 64) (hhandshake : r.handshakeMessage.length < 2 ^ 63) :
    (payloadAt now r).InRange := by
  have hepoch : ((now / 10 ^ 9) % 2 ^ 64).toNat < 2 ^ 64 := by omega
  exact ⟨hid, hepoch, hhandshake⟩

/-- A request is accepted from the time at which it was made until it is too old, less the second in
which it was made. -/
theorem verifyRequestMessage_request (hinverts : InvertsPayloads unmarshal) (hnow : IsTime now)
    (hid : r.id < 2 ^ 64) (hhandshake : r.handshakeMessage.length < 2 ^ 63) {later : ℤ}
    (hlater : later ≤ now + RequestMaxAge - 10 ^ 9) :
    verifyRequestMessage hmac unmarshal later deviceKey (request hmac deviceKey now r) = .ok r := by
  refine verifyRequestMessage_eq_ok_iff.mpr
    ⟨rfl, payloadAt now r, hinverts _ (payloadAt_inRange hid hhandshake), ?_, rfl⟩
  rw [payloadAt_timestamp hnow]
  omega

end Verify

/-- The replay window of requests. A message is accepted at a time exactly up to the largest age
behind its timestamp. So two times at which it is accepted are no further apart than the largest age
and a second if its timestamp is at most a second ahead of the first, and only then for all times. A
request is accepted from the time at which it is made up to a second less than the largest age, as
the request that was made. -/
theorem replay_window (hmac : KeyedFunction UInt8) (unmarshal : Bytes → Except Err RequestPayload)
    (deviceKey : Bytes) :
    (∀ (m : RequestMessage) (payload : RequestPayload) (t₁ : ℤ) (r₁ : Request),
      unmarshal m.payload = .ok payload → verifyRequestMessage hmac unmarshal t₁ deviceKey m = .ok r₁ →
      ((∀ t₂ r₂, t₁ ≤ t₂ → verifyRequestMessage hmac unmarshal t₂ deviceKey m = .ok r₂ →
          t₂ - t₁ ≤ RequestMaxAge + 10 ^ 9) ↔
        payload.timestamp ≤ t₁ + 10 ^ 9)) ∧
    (InvertsPayloads unmarshal → ∀ (t : ℤ) (r : Request), IsTime t → r.id < 2 ^ 64 →
      r.handshakeMessage.length < 2 ^ 63 → ∀ t', t ≤ t' → t' ≤ t + RequestMaxAge - 10 ^ 9 →
      verifyRequestMessage hmac unmarshal t' deviceKey (request hmac deviceKey t r) = .ok r) := by
  constructor
  · intro m payload t₁ r₁ hpayload haccepted
    obtain ⟨htag, payload', hpayload', -, rfl⟩ := verifyRequestMessage_eq_ok_iff.mp haccepted
    obtain rfl := Except.ok.inj (hpayload.symm.trans hpayload')
    constructor
    · intro hwindow
      by_contra hahead
      -- the first moment behind the window is not yet too old
      have hlate := hwindow (t₁ + RequestMaxAge + 10 ^ 9 + 1) ⟨payload.requestId, payload.handshakeMessage⟩
        (by rw [RequestMaxAge]; omega)
        (verifyRequestMessage_eq_ok_iff.mpr ⟨htag, payload, hpayload, by omega, rfl⟩)
      omega
    · intro hahead t₂ r₂ _ haccepted₂
      obtain ⟨-, payload₂, hpayload₂, hage, -⟩ := verifyRequestMessage_eq_ok_iff.mp haccepted₂
      obtain rfl := Except.ok.inj (hpayload.symm.trans hpayload₂)
      omega
  · intro hinverts t r ht hid hhandshake t' _ hlate
    exact verifyRequestMessage_request hinverts ht hid hhandshake hlate

/-- A keyed function that appends its argument to the key. -/
def appending : KeyedFunction UInt8 := fun key data => key ++ data

/-- A request made at the epoch is accepted nineteen seconds later, and no later than twenty-one
seconds. -/
theorem replay_window_epoch :
    verifyRequestMessage appending RequestPayload.parse (19 * 10 ^ 9) [1] (request appending [1] 0 ⟨5, [6]⟩) =
        .ok ⟨5, [6]⟩ ∧
      ∀ t₂ r₂, 0 ≤ t₂ → verifyRequestMessage appending RequestPayload.parse t₂ [1]
        (request appending [1] 0 ⟨5, [6]⟩) = .ok r₂ → t₂ - 0 ≤ RequestMaxAge + 10 ^ 9 := by
  obtain ⟨hwindow, hmade⟩ := replay_window appending RequestPayload.parse [1]
  have haccepted := hmade parse_invertsPayloads 0 ⟨5, [6]⟩ (by rw [IsTime]; decide) (by decide) (by decide)
  have hpayload := parse_invertsPayloads (payloadAt 0 ⟨5, [6]⟩) ⟨by decide, by decide, by decide⟩
  exact ⟨haccepted _ (by decide) (by decide),
    (hwindow _ _ 0 _ hpayload (haccepted 0 (by decide) (by decide))).mpr (by decide)⟩

/-- A request that is a day ahead is accepted now and in a day. -/
theorem future_request_replayed :
    verifyRequestMessage appending RequestPayload.parse 0 [1] (request appending [1] (86400 * 10 ^ 9) ⟨5, [6]⟩) =
        .ok ⟨5, [6]⟩ ∧
      verifyRequestMessage appending RequestPayload.parse (86400 * 10 ^ 9) [1]
        (request appending [1] (86400 * 10 ^ 9) ⟨5, [6]⟩) = .ok ⟨5, [6]⟩ ∧
      ¬ 86400 * 10 ^ 9 - 0 ≤ RequestMaxAge + 10 ^ 9 := by
  have hday : IsTime (86400 * 10 ^ 9) := by
    rw [IsTime]
    decide
  have haccepted (t : ℤ) (ht : t ≤ 86400 * 10 ^ 9 + RequestMaxAge - 10 ^ 9) :
      verifyRequestMessage appending RequestPayload.parse t [1]
        (request appending [1] (86400 * 10 ^ 9) ⟨5, [6]⟩) = .ok ⟨5, [6]⟩ :=
    verifyRequestMessage_request parse_invertsPayloads hday (by decide) (by decide) ht
  exact ⟨haccepted 0 (by decide), haccepted _ (by decide), by decide⟩

end ProjektCore.Local
