import ProjektCore.Protocol.Pair

/-!
# Two sides joined by an unreliable network

The network between two sides may lose, repeat and reorder the messages on their way, but it does
not invent any. What holds for two sides in every run over such a network holds however the layers
below them deliver the messages.
-/

namespace ProjektCore.Protocol

open Foundation

/-- What happens between two sides that an unreliable network joins. -/
inductive NetworkEvent (M : Type) where
  | turn (turn : Turn)
  /-- The network loses, repeats and reorders messages. -/
  | disturb (toRight toLeft : List M)
deriving Repr, DecidableEq

namespace Pair

variable {M S T S' T' : Type} [DecidableEq M]

/-- A call of one side that returns no error, or a disturbance, which leaves only messages that were
there. -/
def networkStep (a : Side S M) (b : Side T M) (p : Pair S T M) :
    NetworkEvent M → Option (Pair S T M)
  | .turn turn => p.step a b turn
  | .disturb toRight toLeft =>
    if toRight ⊆ p.toRight ∧ toLeft ⊆ p.toLeft then some { p with toRight := toRight, toLeft := toLeft } else none

variable {a : Side S M} {b : Side T M} {a' : Side S' M} {b' : Side T' M} {f : S → S'} {g : T → T'}

/-- What a disturbance does. -/
theorem networkStep_disturb {p q : Pair S T M} {toRight toLeft : List M} :
    p.networkStep a b (.disturb toRight toLeft) = some q ↔
      toRight ⊆ p.toRight ∧ toLeft ⊆ p.toLeft ∧ { p with toRight := toRight, toLeft := toLeft } = q := by
  rw [networkStep, Option.ite_none_right_eq_some, Option.some.injEq, and_assoc]

/-- The steps of the mapped sides are the mapped steps. -/
theorem networkStep_map (ha : a.Embeds a' f) (hb : b.Embeds b' g) (p : Pair S T M)
    (event : NetworkEvent M) :
    (p.map f g).networkStep a' b' event = (p.networkStep a b event).map (Pair.map f g) := by
  cases event with
  | turn turn => exact step_map ha hb p turn
  | disturb toRight toLeft =>
    by_cases hsub : toRight ⊆ p.toRight ∧ toLeft ⊆ p.toLeft
    · have hmapped : toRight ⊆ (p.map f g).toRight ∧ toLeft ⊆ (p.map f g).toLeft := hsub
      rw [networkStep, networkStep, if_pos hsub, if_pos hmapped]
      rfl
    · have hmapped : ¬ (toRight ⊆ (p.map f g).toRight ∧ toLeft ⊆ (p.map f g).toLeft) := hsub
      rw [networkStep, networkStep, if_neg hsub, if_neg hmapped]
      rfl

/-- A run over an ordered network is a run over an unreliable one. -/
theorem reached_network {guard : Pair S T M → Turn → Prop} {start p : Pair S T M}
    (h : Reached (step a b) guard start p) : Reached (networkStep a b) anyStep start p := by
  induction h with
  | start => exact .start
  | @next _ _ turn _ _ hstep ih =>
    have hturn : networkStep a b _ (.turn turn) = some _ := hstep
    exact ih.next trivial hturn

section Reads

variable {start p : Pair S T M} {message : M} (h : Reached (networkStep a b) anyStep start p)
include h

/-- The left side may read every message that is on its way, and the message stays there: the
network repeats it. -/
theorem reached_leftReads (hmem : message ∈ p.toLeft) {left : S}
    (hread : a.read p.left message = .ok (left, none)) :
    Reached (networkStep a b) anyStep start { p with left := left } := by
  have hrepeated : p.networkStep a b (.disturb p.toRight (message :: p.toLeft)) =
      some { p with toLeft := message :: p.toLeft } :=
    networkStep_disturb.mpr ⟨List.Subset.refl _, List.cons_subset.mpr ⟨hmem, List.Subset.refl _⟩, rfl⟩
  have hturn : networkStep a b { p with toLeft := message :: p.toLeft } (.turn .leftReads) =
      some { p with left := left } := step_leftReads.mpr ⟨message, p.toLeft, left, rfl, hread, rfl⟩
  exact (h.next trivial hrepeated).next trivial hturn

/-- The right side may read every message that is on its way, and the message stays there. -/
theorem reached_rightReads (hmem : message ∈ p.toRight) {right : T}
    (hread : b.read p.right message = .ok (right, none)) :
    Reached (networkStep a b) anyStep start { p with right := right } := by
  have hrepeated : p.networkStep a b (.disturb (message :: p.toRight) p.toLeft) =
      some { p with toRight := message :: p.toRight } :=
    networkStep_disturb.mpr ⟨List.cons_subset.mpr ⟨hmem, List.Subset.refl _⟩, List.Subset.refl _, rfl⟩
  have hturn : networkStep a b { p with toRight := message :: p.toRight } (.turn .rightReads) =
      some { p with right := right } := step_rightReads.mpr ⟨message, p.toRight, right, rfl, hread, rfl⟩
  exact (h.next trivial hrepeated).next trivial hturn

end Reads

end Pair

end ProjektCore.Protocol
