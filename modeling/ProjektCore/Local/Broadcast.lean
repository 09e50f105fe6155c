import Mathlib.Data.Int.Order.Lemmas
import ProjektCore.Foundation.Forgery
import ProjektCore.Local.Handshake

/-!
# Requests that are broadcast

A client that looks for a device broadcasts a `Request`: a payload and a tag under the key of the
device. The device verifies the tag and the age of the payload. The tag is documented as the HMAC of
the payload. Both sides compute it with `Sum` of a hash to which nothing was written: this appends
the HMAC of the empty string to the payload, so the key does not bind the payload, and who has seen
one request of a key can give any payload a tag.
-/

namespace ProjektCore.Local

open Foundation

/-- The age at which a request is refused, in nanoseconds. -/
def RequestMaxAge : ℤ := 20 * 10 ^ 9

/-- The content of a request. -/
structure RequestPayload where
  requestId : ℕ
  epochSeconds : ℕ
  handshakeMessage : Bytes
deriving Repr, DecidableEq

/-- The encoding of the content of a request. -/
def RequestPayload.marshal (payload : RequestPayload) : Bytes :=
  Wire.varintField 1 payload.requestId ++ Wire.varintField 2 payload.epochSeconds ++
    Wire.bytesField 3 payload.handshakeMessage

/-- A request message. -/
structure RequestMessage where
  payload : Bytes
  mac : Bytes
deriving Repr, DecidableEq

/-- A hash of Go: the data that was written to it, under a key. -/
structure Hash where
  key : Bytes
  written : Bytes
deriving Repr, DecidableEq

/-- A new HMAC. -/
def Hash.new (key : Bytes) : Hash := ⟨key, []⟩

/-- `Sum` appends the hash of what was written to its argument. -/
def Hash.sum (hmac : KeyedFunction UInt8) (hash : Hash) (b : Bytes) :
    Bytes := b ++ hmac hash.key hash.written

/-- The value of an integer as a signed number of 64 bits. -/
def int64 (n : ℤ) : ℤ := n.bmod (2 ^ 64)

/-- The seconds from the first day of the year one to the Unix epoch. -/
def unixToInternal : ℤ := 62135596800

/-- The time of a number of seconds since the Unix epoch, in seconds since the year one. -/
def timeUnix (sec : ℤ) : ℤ := int64 (sec + unixToInternal)

/-- The nanoseconds since a time, which end at the limits of a duration. The present time is given
in nanoseconds since the Unix epoch. -/
def timeSince (now time : ℤ) : ℤ :=
  max (-2 ^ 63) (min (2 ^ 63 - 1) (now + unixToInternal * 10 ^ 9 - time * 10 ^ 9))

/-- Why a request message is refused. -/
inductive VerifyError where
  /-- "the device key was not used for this request message" -/
  | wrongKey
  /-- "failed to parse payload: " and the error of the decoder -/
  | badPayload (err : Err)
  /-- "request message is too old" -/
  | tooOld
deriving Repr, DecidableEq

/-- The payload that a request has at a time. -/
def payloadAt (now : ℤ) (request : Request) : RequestPayload :=
  ⟨request.id, ((now / 10 ^ 9) % 2 ^ 64).toNat, request.handshakeMessage⟩

section Functions

variable (hmac : KeyedFunction UInt8)

/-- The tag that both sides compute for a payload. -/
def requestTag (deviceKey payload : Bytes) : Bytes := (Hash.new deviceKey).sum hmac payload

/-- The message that `request` broadcasts. -/
def request (deviceKey : Bytes) (now : ℤ) (request : Request) : RequestMessage :=
  let p := (payloadAt now request).marshal
  ⟨p, requestTag hmac deviceKey p⟩

/-- Verify a request message and take the request out of it. -/
def verifyRequestMessage (unmarshal : Bytes → Except Err RequestPayload) (now : ℤ)
    (deviceKey : Bytes) (requestMessage : RequestMessage) : Except VerifyError Request :=
  let mac := requestTag hmac deviceKey requestMessage.payload
  if mac ≠ requestMessage.mac then .error .wrongKey
  else
    match unmarshal requestMessage.payload with
    | .error err => .error (.badPayload err)
    | .ok payload =>
      let age := timeSince now (timeUnix (int64 payload.epochSeconds))
      if age > RequestMaxAge then .error .tooOld else .ok ⟨payload.requestId, payload.handshakeMessage⟩

/-- The check of the tag succeeds. -/
def PassesMac (deviceKey : Bytes) (requestMessage : RequestMessage) : Prop :=
  ∀ unmarshal now, verifyRequestMessage hmac unmarshal now deviceKey requestMessage ≠ .error .wrongKey

end Functions

variable {I : Type} {hmac : KeyedFunction UInt8} {deviceKey : Bytes}

/-- The tag is checked against the one that the sender computes. -/
theorem passesMac_iff {requestMessage : RequestMessage} :
    PassesMac hmac deviceKey requestMessage ↔
      requestMessage.mac = requestTag hmac deviceKey requestMessage.payload := by
  constructor
  · intro hpasses
    by_contra hne
    apply hpasses (fun _ => .error .eof) 0
    rw [verifyRequestMessage]
    exact if_pos (Ne.symm hne)
  · intro heq unmarshal now
    rw [verifyRequestMessage]
    simp only [heq, ne_eq, not_true_eq_false, if_false]
    split
    · simp
    · split <;> simp

/-- A payload that is encoded does not begin with a zero. -/
theorem RequestPayload.marshal_ne (payload : RequestPayload) : payload.marshal ≠ [0] := by
  intro h
  have hid : Wire.tag 1 0 = [8] := rfl
  have hepoch : Wire.tag 2 0 = [16] := rfl
  have hhandshake : Wire.tag 3 2 = [26] := rfl
  simp only [marshal, Wire.varintField, Wire.bytesField, Wire.messageField, hid, hepoch,
    hhandshake] at h
  split_ifs at h <;> simp at h

/-- What is seen of requests. -/
def seenRequests (hmac : KeyedFunction UInt8) (deviceKey : Bytes) (honest : I → ℤ × Request) :
    I × AuthenticatedPart → Bytes
  | (i, .payload) => (request hmac deviceKey (honest i).1 (honest i).2).payload
  | (i, .mac) => (request hmac deviceKey (honest i).1 (honest i).2).mac

/-- The message that an adversary builds from what it has seen. -/
def forgedMessage (hmac : KeyedFunction UInt8) (deviceKey : Bytes) (honest : I → ℤ × Request)
    (f : Forgery I UInt8) : RequestMessage :=
  ⟨f.payload.eval (seenRequests hmac deviceKey honest), f.mac.eval (seenRequests hmac deviceKey honest)⟩

/-- Whatever the keyed function is, the message has a payload that is not honest and passes the
check. -/
def Forges (deviceKey : Bytes) (honest : I → ℤ × Request) (f : Forgery I UInt8) : Prop :=
  ∀ hmac, CollisionFree hmac →
    (∀ i, (forgedMessage hmac deviceKey honest f).payload ≠
      (request hmac deviceKey (honest i).1 (honest i).2).payload) ∧
    PassesMac hmac deviceKey (forgedMessage hmac deviceKey honest f)

/-- Requests are authenticated by the rule of `requestTag`. -/
theorem seenRequests_eq (hmac : KeyedFunction UInt8) (deviceKey : Bytes)
    (honest : I → ℤ × Request) :
    seenRequests hmac deviceKey honest =
      observed requestTag hmac deviceKey fun i => (payloadAt (honest i).1 (honest i).2).marshal := by
  funext x
  obtain ⟨i, part⟩ := x
  cases part with
  | payload => rfl
  | mac => rfl

/-- Forging a request is forging under the rule of `requestTag`. -/
theorem forges_iff_succeeds {honest : I → ℤ × Request} {f : Forgery I UInt8} :
    Forges deviceKey honest f ↔
      f.Succeeds requestTag deviceKey fun i => (payloadAt (honest i).1 (honest i).2).marshal := by
  constructor
  · intro hforges hmac hfree
    obtain ⟨hnew, hmac'⟩ := hforges hmac hfree
    rw [← seenRequests_eq]
    exact ⟨hnew, passesMac_iff.mp hmac'⟩
  · intro hsucceeds hmac hfree
    obtain ⟨hnew, hmac'⟩ := hsucceeds hmac hfree
    rw [← seenRequests_eq] at hnew hmac'
    exact ⟨hnew, passesMac_iff.mpr hmac'⟩

/-- The tag as it is documented: the HMAC of the payload. -/
def documentedTag : TagRule UInt8 := fun hmac => hmac

/-- With the documented tag no request could be forged. -/
theorem documentedTag_unforgeable (deviceKey : Bytes) (honest : I → Bytes) (f : Forgery I UInt8) :
    ¬ f.Succeeds documentedTag deviceKey honest :=
  have : Nontrivial UInt8 := ⟨0, 1, by decide⟩
  f.not_succeeds_of_keyed deviceKey honest

/-- With the tag that is computed, requests cannot be forged exactly as long as none has been
seen. -/
theorem requests_unforgeable_iff (I : Type) (deviceKey : Bytes) (honest : I → ℤ × Request) :
    (¬ ∃ f, Forges deviceKey honest f) ↔ IsEmpty I := by
  constructor
  · intro hnone
    rw [← not_nonempty_iff]
    rintro ⟨i⟩
    apply hnone
    have hnew : ∀ j, [0] ≠ (payloadAt (honest j).1 (honest j).2).marshal := fun j => (RequestPayload.marshal_ne _).symm
    exact ⟨_, forges_iff_succeeds.mpr (Forgery.transplant_succeeds (fun _ _ => rfl) i hnew)⟩
  · intro hempty
    rintro ⟨f, hforges⟩
    refine f.not_succeeds_of_isEmpty (collisionFree_cons fun _ => 0) (collisionFree_cons fun _ => 1) ?_
      (forges_iff_succeeds.mp hforges)
    intro payload heq
    have hend := List.append_cancel_left heq
    simp at hend

/-- Whoever has seen a request can build the message of any other request at any time. -/
theorem transplant_eq_request (hmac : KeyedFunction UInt8) (deviceKey : Bytes)
    (honest : I → ℤ × Request) (i : I) (now : ℤ) (other : Request) :
    forgedMessage hmac deviceKey honest (.transplant i (payloadAt (honest i).1 (honest i).2).marshal.length
      (payloadAt now other).marshal) = request hmac deviceKey now other := by
  simp [forgedMessage, Forgery.transplant, Recipe.eval, seenRequests, request, requestTag, Hash.sum]

/-- One request is enough to forge another one for every key. -/
theorem one_request_forges :
    ∃ f : Forgery Unit UInt8, (∀ deviceKey, Forges deviceKey (fun _ => (0, ⟨1, [5]⟩)) f) ∧
      ∀ hmac deviceKey, forgedMessage hmac deviceKey (fun _ => (0, ⟨1, [5]⟩)) f =
        request hmac deviceKey 0 ⟨2, [6]⟩ := by
  refine ⟨_, ?_, fun hmac deviceKey => transplant_eq_request hmac deviceKey _ () 0 ⟨2, [6]⟩⟩
  intro deviceKey
  refine forges_iff_succeeds.mpr (Forgery.transplant_succeeds (fun _ _ => rfl) () ?_)
  intro i
  decide

end ProjektCore.Local
