import Mathlib.Data.List.Induction

/-!
# Justified histories

A history is a list that grows at its end. It is justified if each of its entries has a reason in
the entries before it. An entry that excludes entries of its own kind before it occurs at most once.
What the latest entry of a kind says is the state that a history stands for.
-/

namespace ProjektCore.Foundation

variable {E A : Type*} {P : List E → E → Prop} {p : E → Prop} {history : List E}

/-- Each entry has a reason in the entries before it. -/
def Justified (P : List E → E → Prop) (history : List E) : Prop :=
  ∀ before entry after, history = before ++ entry :: after → P before entry

/-- A history that has not begun. -/
theorem justified_nil : Justified P [] := by
  intro before entry after h
  simp at h

/-- A history grows by an entry with a reason. -/
theorem justified_concat {entry : E} :
    Justified P (history ++ [entry]) ↔ Justified P history ∧ P history entry := by
  constructor
  · intro h
    refine ⟨?_, h history entry [] rfl⟩
    intro before other after heq
    exact h before other (after ++ [entry]) (by simp [heq])
  · rintro ⟨h, hentry⟩ before other after heq
    -- the entry in question is the last one, or it stands in the history already
    rcases List.eq_nil_or_concat after with rfl | ⟨rest, last, rfl⟩
    · obtain ⟨rfl, hlast⟩ := List.append_inj' heq rfl
      obtain rfl := List.singleton_inj.mp hlast
      exact hentry
    · rw [List.concat_eq_append, ← List.cons_append, ← List.append_assoc] at heq
      exact h before other rest (List.append_inj' heq rfl).1

/-- The reason of an entry of a history, together with the entries before it. -/
theorem Justified.exists_of_mem (h : Justified P history) {entry : E} (hmem : entry ∈ history) :
    ∃ before after, history = before ++ entry :: after ∧ P before entry := by
  obtain ⟨before, after, heq⟩ := List.append_of_mem hmem
  exact ⟨before, after, heq, h before entry after heq⟩

/-- There is one entry of a kind that each entry of this kind excludes before it. -/
theorem Justified.eq_of_mem (h : Justified P history)
    (hfirst : ∀ before entry, P before entry → p entry → ∀ other ∈ before, ¬ p other) {a b : E}
    (ha : a ∈ history) (hb : b ∈ history) (hpa : p a) (hpb : p b) : a = b := by
  obtain ⟨before, after, rfl, hreason⟩ := h.exists_of_mem ha
  rw [List.mem_append, List.mem_cons] at hb
  rcases hb with hb | rfl | hb
  · exact absurd hpb (hfirst before a hreason hpa b hb)
  · rfl
  · obtain ⟨middle, rest, rfl⟩ := List.append_of_mem hb
    have hreason := h (before ++ a :: middle) b rest (by simp)
    exact absurd hpa (hfirst _ b hreason hpb a (by simp))

/-- The number of entries of such a kind. -/
theorem Justified.countP_le_one [DecidablePred p] (h : Justified P history)
    (hfirst : ∀ before entry, P before entry → p entry → ∀ other ∈ before, ¬ p other) :
    history.countP (fun entry => p entry) ≤ 1 := by
  induction history using List.reverseRecOn with
  | nil => exact Nat.zero_le 1
  | append_singleton history entry ih =>
    obtain ⟨hhistory, hentry⟩ := justified_concat.mp h
    rw [List.countP_append, List.countP_singleton]
    by_cases hp : p entry
    · have hnone : history.countP (fun other => p other) = 0 := by
        rw [List.countP_eq_zero]
        intro other hother
        simpa using hfirst history entry hentry hp other hother
      simp [hnone, hp]
    · simpa [hp] using ih hhistory

/-- No entry before has the key of an entry. -/
def IsFirst {K : Type*} (key : E → Option K) (before : List E) (entry : E) : Prop :=
  ∀ k, key entry = some k → ∀ other ∈ before, key other ≠ some k

/-- If each entry is the first one with its key, a key has one entry. -/
theorem Justified.eq_of_key {K : Type*} {key : E → Option K} (h : Justified P history)
    (hfirst : ∀ before entry, P before entry → IsFirst key before entry) {a b : E}
    (ha : a ∈ history) (hb : b ∈ history) {k : K} (hka : key a = some k) (hkb : key b = some k) :
    a = b := by
  refine h.eq_of_mem (p := fun entry => key entry = some k) ?_ ha hb hka hkb
  intro before entry hreason hk
  exact hfirst before entry hreason k hk

/-- What the latest entry of a kind says. -/
def latest (f : E → Option A) (history : List E) : Option A := (history.filterMap f).getLast?

/-- An entry says something new, or the earlier ones stand. -/
@[simp]
theorem latest_concat (f : E → Option A) (history : List E) (entry : E) :
    latest f (history ++ [entry]) = (f entry).or (latest f history) := by
  cases hentry : f entry with
  | none => simp [latest, hentry]
  | some value => simp [latest, hentry]

/-- Entries that say nothing leave the earlier ones standing. -/
theorem latest_append_of_forall_eq_none {f : E → Option A} {more : List E}
    (h : ∀ entry ∈ more, f entry = none) :
    latest f (history ++ more) = latest f history := by
  rw [latest, List.filterMap_append, List.filterMap_eq_nil_iff.mpr h, List.append_nil, latest]

end ProjektCore.Foundation
