import Mathlib.Data.List.Basic
import Mathlib.Data.List.Range

/-!
# Positions in lists

A queue of consecutive elements grows at its end and is taken from at its front. A list with an
element at a position is split there, and replacing the element leaves both parts as they are.
-/

namespace ProjektCore.Foundation

variable {A : Type*}

/-- An entry of a longer list is one of the list, unless it is the new one. -/
theorem getElem?_concat_eq_some {l : List A} {last a : A} {i : ℕ} (h : (l ++ [last])[i]? = some a) :
    l[i]? = some a ∨ a = last := by
  rcases Nat.lt_or_ge i l.length with hlt | hge
  · rw [List.getElem?_append_left hlt] at h
    exact .inl h
  · rw [List.getElem?_append_right hge] at h
    exact .inr (List.mem_singleton.mp (List.mem_of_getElem? h))

section Consecutive

variable (f : ℕ → A) {first next : ℕ}

/-- One more element at the end of a queue of consecutive elements. -/
theorem range'_map_concat (h : first ≤ next) :
    (List.range' first (next + 1 - first)).map f = (List.range' first (next - first)).map f ++ [f next] := by
  obtain ⟨n, rfl⟩ := Nat.exists_eq_add_of_le h
  have hn : first + n + 1 - first = n + 1 := by omega
  rw [hn, Nat.add_sub_cancel_left, List.range'_concat, List.map_append]
  simp

/-- A queue of consecutive elements that is not empty. -/
theorem range'_map_cons (h : first < next) :
    (List.range' first (next - first)).map f =
      f first :: (List.range' (first + 1) (next - (first + 1))).map f := by
  obtain ⟨n, hn⟩ : ∃ n, next - first = n + 1 := ⟨next - first - 1, by omega⟩
  have hn' : next - (first + 1) = n := by omega
  rw [hn, hn', List.range'_succ, List.map_cons]

end Consecutive

section Position

variable {l : List A} {position : ℕ} {a : A}

/-- The elements before and behind a position, which stay when the one at the position is
replaced. -/
theorem split_at_position (h : l[position]? = some a) :
    ∃ before behind, l = before ++ a :: behind ∧ before.length = position ∧
      ∀ b, l.set position b = before ++ b :: behind := by
  obtain ⟨hlt, rfl⟩ := List.getElem?_eq_some_iff.mp h
  refine ⟨l.take position, l.drop (position + 1), ?_, ?_, ?_⟩
  · rw [← List.drop_eq_getElem_cons hlt, List.take_append_drop]
  · rw [List.length_take]
    omega
  · intro b
    exact List.set_eq_take_append_cons_drop.trans (if_pos hlt)

/-- Putting the element at a position in its place. -/
theorem set_at_position (h : l[position]? = some a) : l.set position a = l := by
  obtain ⟨hlt, rfl⟩ := List.getElem?_eq_some_iff.mp h
  exact List.set_getElem_self hlt

end Position

end ProjektCore.Foundation
