import ProjektCore.Transfer.SenderRun
import ProjektCore.Transfer.Unreliable

/-!
# A transfer over an unreliable network does not panic

A peer that is free to choose its messages can make a sender panic. The peer of a sender is a
receiver, whose answers name blocks that the sender has, and the blocks that a receiver gets have
offsets that do not wrap around. So no call of either side panics while the network loses, repeats
and reorders their messages, provided that there is any data to send.
-/

namespace ProjektCore.Transfer

open Foundation Protocol

/-- What holds in every state of a transfer over an unreliable network: the sender is ready to
write, and the receiver's store does what it is told. -/
structure Sturdy (data : Bytes) (s : Size) (metadata : Option Metadata) (sha256 : Bytes → Bytes)
    (factory : WriterFactory) (p : MachinePair) : Prop where
  reliable : Reliable data s metadata sha256 factory p
  written : Written data s metadata sha256 p
  kept : Kept data.length s p.left.2
  ready : Ready data.length ⟨p.left, []⟩
  steady : Steady factory p.right.1 p.right.2

variable {sha256 : Bytes → Bytes} {data : Bytes} {s : Size} {metadata : Option Metadata} {factory : WriterFactory}

/-- The stores of a fresh factory do what they are told and have room. -/
theorem Fresh.stores (h : Fresh factory) (metadata : Metadata) (size : ℕ) (store : Store)
    (hstore : factory metadata size = .ok store) :
    store.faults = [] ∧ size ≤ store.data.length := by
  obtain ⟨store', hstore', hlength, hfaults⟩ := h metadata size
  obtain rfl := Except.ok.inj (hstore.symm.trans hstore')
  exact ⟨hfaults, hlength.ge⟩

namespace Sturdy

variable {p q : MachinePair}

/-- A message of the sender is within the limits of the receiver. -/
theorem withinLimits (h : Sturdy data s metadata sha256 factory p) (hfits : s.Fits data.length)
    {message : Message} (hmessage : Original data s metadata sha256 message) :
    decoded message = true ∧ Transfer.withinLimits p.right.2 (.read message) = true := by
  cases message with
  | header header =>
    obtain rfl : header = headerOf data s metadata := hmessage
    have hsize : totalSizeBelow (2 ^ 63) (.read (.header (headerOf data s metadata))) = true :=
      decide_eq_true hfits.size_lt
    exact ⟨rfl, Bool.and_eq_true_iff.mpr ⟨hsize, rfl⟩⟩
  | block block =>
    obtain ⟨i, hi, rfl⟩ := hmessage
    refine ⟨rfl, ?_⟩
    cases hwriter : p.right.2.writer with
    | none => simp [Transfer.withinLimits, totalSizeBelow, hwriter]
    | some w =>
      have hsize : w.blockSize = s := (h.reliable.agrees.writer w hwriter).blockSize
      have hinside := (s.lt_blockCount_iff data.length i).mp hi
      have hsmall : i * s.bytes < 2 ^ 64 := (hinside.trans hfits.1).trans (by decide)
      simpa [Transfer.withinLimits, totalSizeBelow, hwriter, hsize, blockAt] using hsmall
  | dataSent | abort => exact ⟨rfl, by simp [Transfer.withinLimits, totalSizeBelow]⟩
  | _ => exact hmessage.elim

/-- A message of the receiver does not make the sender panic. -/
theorem leftReads (h : Sturdy data s metadata sha256 factory p) {message : Message}
    (hmem : message ∈ p.toLeft) (value : Panic Err) :
    (senderMachine sha256).side.read p.left message ≠ .error value := by
  intro hpanic
  have hanswers := h.written.toLeft message hmem
  have hother : message ≠ .other := by
    rintro rfl
    exact hanswers.elim
  have hread : p.left.1.read p.left.2 message = .error value := Machine.side_read_panics.mp hpanic
  rw [SenderPhase.read_panics_iff hother h.kept.room, h.kept.bitmap] at hread
  obtain ⟨⟨-, hbehind⟩, -⟩ := hread
  cases message with
  | blockReceived i | redoBlock i =>
    have hlt : i < s.blockCount data.length := hanswers
    have hle : s.blockCount data.length ≤ i := of_decide_eq_true hbehind
    omega
  | _ => cases hbehind

/-- The sender writes without a panic if there is any data. -/
theorem leftWrites (h : Sturdy data s metadata sha256 factory p) (hdata : data ≠ [])
    (value : Panic Err) :
    (senderMachine sha256).side.write p.left ≠ .error value := by
  have hpos : 0 < data.length := List.length_pos_iff.mpr hdata
  have hreturns : ∃ result, (senderMachine sha256).write p.left.1 p.left.2 = .ok result :=
    SenderPhase.write_returns sha256 (h.ready.hasData hpos)
      fun hsends => Reader.upcoming_inside (h.ready.hasData hpos hsends) h.ready.inside
  obtain ⟨result, hresult⟩ := Machine.side_write_returns.mpr hreturns
  intro hpanic
  cases hpanic.symm.trans hresult

/-- A message of the sender does not make the receiver panic. -/
theorem rightReads (h : Sturdy data s metadata sha256 factory p) (hfits : s.Fits data.length)
    {message : Message} (hmem : message ∈ p.toRight) (value : Panic Err) :
    (receiverMachine sha256).side.read p.right message ≠ .error value := by
  obtain ⟨hdecoded, hlimits⟩ := h.withinLimits hfits (h.written.toRight message hmem)
  obtain ⟨result, hresult⟩ := h.steady.read_returns sha256 hdecoded hlimits
  intro hpanic
  cases (Machine.side_read_panics.mp hpanic).symm.trans hresult

/-- The receiver writes without a panic. -/
theorem rightWrites (h : Sturdy data s metadata sha256 factory p) (value : Panic Err) :
    (receiverMachine sha256).side.write p.right ≠ .error value := by
  have hreturns : ∃ result, (receiverMachine sha256).write p.right.1 p.right.2 = .ok result :=
    h.steady.orderly.write_returns
  obtain ⟨result, hresult⟩ := Machine.side_write_returns.mpr hreturns
  intro hpanic
  cases hpanic.symm.trans hresult

/-- The state at the start. -/
theorem start : Sturdy data s metadata sha256 factory (transferStart metadata factory data s) where
  reliable := .start
  written := ⟨by simp [transferStart], by simp [transferStart]⟩
  kept := kept_new metadata (.ofBytes data) data.length s
  ready := ready_start metadata (.ofBytes data) data.length s
  steady := ⟨orderly_new factory, rfl, by simp [transferStart, ReceiverFields.new]⟩

/-- Every step of the network keeps this. -/
theorem step (hfits : s.Fits data.length) (hfresh : Fresh factory)
    (h : Sturdy data s metadata sha256 factory p) {event : NetworkEvent Message}
    (hstep : p.networkStep (senderMachine sha256).side (receiverMachine sha256).side event = some q) :
    Sturdy data s metadata sha256 factory q := by
  have hreliable := @Reliable.step _ _ _ _ _ _ _ hfits hfresh h.reliable (.network event) hstep
  have hwritten := h.written.step hfits h.reliable hstep
  cases event with
  | disturb toRight toLeft =>
    obtain ⟨-, -, rfl⟩ :=
      (Pair.networkStep_disturb (a := (senderMachine sha256).side) (b := (receiverMachine sha256).side)).mp hstep
    exact ⟨hreliable, hwritten, h.kept, h.ready, h.steady⟩
  | turn turn =>
    cases turn with
    | leftWrites =>
      obtain ⟨left, message, hwrite, rfl⟩ := Pair.step_leftWrites.mp hstep
      have heffect := SenderPhase.write_cases (Machine.side_write_eq_ok.mp hwrite)
      exact ⟨hreliable, hwritten, h.kept.write heffect, Ready.write h.kept h.ready heffect, h.steady⟩
    | leftReads =>
      obtain ⟨message, rest, left, -, hread, rfl⟩ := Pair.step_leftReads.mp hstep
      have heffect := SenderPhase.read_cases (Machine.side_read_eq_ok.mp hread)
      exact ⟨hreliable, hwritten, h.kept.read heffect, Ready.read h.ready heffect, h.steady⟩
    | rightWrites =>
      obtain ⟨right, message, hwrite, rfl⟩ := Pair.step_rightWrites.mp hstep
      have heffect := ReceiverPhase.write_cases (Machine.side_write_eq_ok.mp hwrite)
      obtain ⟨hwriter, hfactory⟩ := heffect.writer
      refine ⟨hreliable, hwritten, h.kept, h.ready, h.steady.orderly.write heffect, ?_, ?_⟩
      · exact hfactory.trans h.steady.factory
      · intro w hw
        exact h.steady.honoured w (hwriter.symm.trans hw)
    | rightReads =>
      obtain ⟨message, rest, right, hqueue, hread, rfl⟩ := Pair.step_rightReads.mp hstep
      have heffect := (ReceiverPhase.read_cases (Machine.side_read_eq_ok.mp hread)).accept rfl
      have hmem : message ∈ p.toRight := hqueue ▸ List.mem_cons_self
      obtain ⟨-, hlimits⟩ := h.withinLimits hfits (h.written.toRight message hmem)
      exact ⟨hreliable, hwritten, h.kept, h.ready, h.steady.read hfresh.stores hlimits heffect⟩

end Sturdy

/-- This holds in every state that two clients of the machines reach while no block is altered. -/
theorem sturdy_of_reached (hfits : s.Fits data.length) (hfresh : Fresh factory) {S T : Type}
    {a : Side S Message} {b : Side T Message} {f : SenderPhase × SenderFields → S}
    {g : ReceiverPhase × ReceiverFields → T} (ha : (senderMachine sha256).side.Embeds a f)
    (hb : (receiverMachine sha256).side.Embeds b g) {q : Pair S T Message}
    (h : Reached (Pair.networkStep a b) anyStep ((transferStart metadata factory data s).map f g) q) :
    ∃ p : MachinePair, q = p.map f g ∧ Sturdy data s metadata sha256 factory p := by
  obtain ⟨p, hmap, hp⟩ := Reached.of_map _ (Pair.networkStep_map ha hb) (fun _ _ _ => trivial)
    (transferStart metadata factory data s) h
  refine ⟨p, hmap, ?_⟩
  exact hp.invariant (Sturdy data s metadata sha256 factory) .start fun _ _ _ hp _ hstep => hp.step hfits hfresh hstep

end ProjektCore.Transfer
