import Mathlib.Data.Nat.Notation
import Mathlib.Data.Option.Basic

/-!
# Guarded runs of a labelled transition system

A step function takes a state and a label and is undefined where the label is not enabled.
A guard restricts the labels further, on the state before the step. This file supplies the
states reached by guarded runs, the invariant rule for them, and the connection with the
execution of an explicit list of labels.
-/

namespace ProjektCore.Foundation

variable {S L : Type*}

/-- The states reached from `start` by steps that all meet the guard on the state before them. -/
inductive Reached (step : S → L → Option S) (guard : S → L → Prop) (start : S) : S → Prop
  | start : Reached step guard start start
  | next {s t : S} {label : L} : Reached step guard start s → guard s label →
      step s label = some t → Reached step guard start t

/-- The guard of a run that is not restricted. -/
def anyStep (_ : S) (_ : L) : Prop := True

/-- A property that holds at the start and is kept by every guarded step holds in every state
reached. -/
theorem Reached.invariant {step : S → L → Option S} {guard : S → L → Prop} {start : S}
    (P : S → Prop) (hstart : P start)
    (hstep : ∀ s label t, P s → guard s label → step s label = some t → P t) {s : S}
    (h : Reached step guard start s) : P s := by
  induction h with
  | start => exact hstart
  | next _ hguard hs ih => exact hstep _ _ _ ih hguard hs

/-- Extending a run by a given label. -/
theorem Reached.extend {step : S → L → Option S} {guard : S → L → Prop} {start s t : S}
    (h : Reached step guard start s) (label : L) (hguard : guard s label)
    (hstep : step s label = some t) :
    Reached step guard start t :=
  .next h hguard hstep

/-- A map that commutes with the steps carries every state reached back to one it is the image
of. -/
theorem Reached.of_map {S' : Type*} {step : S → L → Option S} {step' : S' → L → Option S'}
    {guard : S → L → Prop} {guard' : S' → L → Prop} (f : S → S')
    (hstep : ∀ s label, step' (f s) label = (step s label).map f)
    (hguard : ∀ s label, guard' (f s) label → guard s label) (start : S) {t : S'}
    (h : Reached step' guard' (f start) t) : ∃ s, t = f s ∧ Reached step guard start s := by
  induction h with
  | start => exact ⟨start, rfl, .start⟩
  | next _ hg hs ih =>
    obtain ⟨s, rfl, hreached⟩ := ih
    rw [hstep, Option.map_eq_some_iff] at hs
    obtain ⟨next, hnext, rfl⟩ := hs
    exact ⟨next, rfl, .next hreached (hguard _ _ hg) hnext⟩

instance (s : S) (label : L) : Decidable (anyStep s label) := .isTrue trivial

/-- Execute a list of labels in order, stopping at the first one that the guard does not allow or
that is not enabled. -/
def execute (step : S → L → Option S) (guard : S → L → Prop)
    [∀ s label, Decidable (guard s label)] :
    List L → S → Option S
  | [], s => some s
  | label :: rest, s => if guard s label then (step s label).bind (execute step guard rest) else none

section Execute

variable {step : S → L → Option S} {guard : S → L → Prop} [∀ s label, Decidable (guard s label)] {start s t : S}

/-- Executing two lists in order. -/
theorem execute_append (labels more : List L) (s : S) :
    Foundation.execute step guard (labels ++ more) s =
      (Foundation.execute step guard labels s).bind (Foundation.execute step guard more) := by
  induction labels generalizing s with
  | nil => rfl
  | cons label rest ih =>
    simp only [List.cons_append, Foundation.execute]
    split
    · cases step s label with
      | none => rfl
      | some t => exact ih t
    · rfl

/-- A map that commutes with the steps and keeps the guard commutes with executions. -/
theorem execute_map {S' : Type*} {step' : S' → L → Option S'} {guard' : S' → L → Prop}
    [∀ s label, Decidable (guard' s label)] (f : S → S')
    (hstep : ∀ s label, step' (f s) label = (step s label).map f)
    (hguard : ∀ s label, guard' (f s) label ↔ guard s label) (labels : List L) (s : S) :
    Foundation.execute step' guard' labels (f s) = (Foundation.execute step guard labels s).map f := by
  induction labels generalizing s with
  | nil => rfl
  | cons label rest ih =>
    simp only [Foundation.execute, hstep, hguard]
    split
    · cases step s label with
      | none => rfl
      | some t => exact ih t
    · rfl

/-- Executing one more label. -/
theorem execute_concat {labels : List L} {label : L}
    (hrun : Foundation.execute step guard labels start = some s) (hguard : guard s label)
    (hstep : step s label = some t) :
    Foundation.execute step guard (labels ++ [label]) start = some t := by
  rw [execute_append, hrun]
  simp [Foundation.execute, hguard, hstep]

/-- A property of the executed labels and of the state that they lead to holds after every execution
if each label keeps it. -/
theorem execute_invariant (P : List L → S → Prop) (hstart : P [] start)
    (hnext : ∀ labels s label t, Foundation.execute step guard labels start = some s → P labels s → guard s label →
      step s label = some t → P (labels ++ [label]) t) {labels : List L}
    (hrun : Foundation.execute step guard labels start = some t) : P labels t := by
  -- the labels executed so far are a parameter of the induction on those that remain
  have hrest (labels done : List L) (s : S) (hdone : Foundation.execute step guard done start = some s)
      (hs : P done s) (hrun : Foundation.execute step guard labels s = some t) : P (done ++ labels) t := by
    induction labels generalizing done s with
    | nil =>
      obtain rfl := Option.some.inj hrun
      rw [List.append_nil]
      exact hs
    | cons label rest ih =>
      simp only [Foundation.execute, Option.ite_none_right_eq_some, Option.bind_eq_some_iff] at hrun
      obtain ⟨hguard, mid, hmid, hrun⟩ := hrun
      have hmore := ih (done ++ [label]) mid (execute_concat hdone hguard hmid)
        (hnext done s label mid hdone hs hguard hmid) hrun
      rwa [List.append_assoc, List.singleton_append] at hmore
  exact hrest labels [] start rfl hstart hrun

/-- If the number of labels that can be executed is bounded, every execution can be continued until
no label is left. -/
theorem execute_maximal {bound : ℕ}
    (hbound : ∀ labels s, Foundation.execute step guard labels start = some s → labels.length ≤ bound)
    {labels : List L} (hrun : Foundation.execute step guard labels start = some s) :
    ∃ more t, Foundation.execute step guard (labels ++ more) start = some t ∧
      ∀ label, guard t label → step t label = none := by
  induction hrest : bound - labels.length generalizing labels s with
  | zero =>
    refine ⟨[], s, by rw [List.append_nil, hrun], fun label hguard => ?_⟩
    by_contra hsome
    obtain ⟨t, ht⟩ := Option.ne_none_iff_exists'.mp hsome
    have hlonger := hbound _ t (execute_concat hrun hguard ht)
    rw [List.length_append, List.length_singleton] at hlonger
    omega
  | succ rest ih =>
    by_cases hended : ∀ label, guard s label → step s label = none
    · exact ⟨[], s, by rw [List.append_nil, hrun], hended⟩
    · simp only [not_forall] at hended
      obtain ⟨label, hguard, hsome⟩ := hended
      obtain ⟨t, ht⟩ := Option.ne_none_iff_exists'.mp hsome
      obtain ⟨more, last, hmore, hlast⟩ := ih (execute_concat hrun hguard ht)
        (by rw [List.length_append, List.length_singleton]; omega)
      rw [List.append_assoc] at hmore
      exact ⟨[label] ++ more, last, hmore, hlast⟩

/-- Extending a run by executed labels whose guard implies that of the run. -/
theorem Reached.executeImp {guard' : S → L → Prop} (labels : List L)
    (hguard : ∀ label ∈ labels, ∀ s, guard s label → guard' s label)
    (h : Reached step guard' start s) (hrun : execute step guard labels s = some t) :
    Reached step guard' start t := by
  induction labels generalizing s with
  | nil =>
    simp only [Foundation.execute, Option.some.injEq] at hrun
    exact hrun ▸ h
  | cons label rest ih =>
    simp only [Foundation.execute, Option.ite_none_right_eq_some, Option.bind_eq_some_iff] at hrun
    obtain ⟨hallowed, mid, hmid, hrest⟩ := hrun
    apply ih
    · intro l hl
      exact hguard l (List.mem_cons_of_mem label hl)
    · exact .next h (hguard label List.mem_cons_self s hallowed) hmid
    · exact hrest

/-- Extending a run by an executed list of labels gives a run. -/
theorem Reached.execute (labels : List L) (h : Reached step guard start s)
    (hrun : execute step guard labels s = some t) : Reached step guard start t :=
  h.executeImp labels (fun _ _ _ hallowed => hallowed) hrun

/-- The final state of an executed list of labels is reached. -/
theorem reached_of_execute (labels : List L) (hrun : execute step guard labels start = some t) :
    Reached step guard start t :=
  Reached.start.execute labels hrun

end Execute

/-- Extending a run by executed labels that meet the guard in every state. -/
theorem Reached.executeLabels {step : S → L → Option S} {guard : S → L → Prop} {start s t : S}
    (labels : List L) (hlabels : ∀ label ∈ labels, ∀ s, guard s label)
    (h : Reached step guard start s) (hrun : Foundation.execute step anyStep labels s = some t) :
    Reached step guard start t :=
  h.executeImp labels (fun label hlabel s _ => hlabels label hlabel s) hrun

/-- An executed list of labels that all meet a condition gives a run of such labels. -/
theorem reached_of_labels {step : S → L → Option S} {start t : S} {allowed : L → Prop}
    (labels : List L) (hlabels : ∀ label ∈ labels, allowed label)
    (hrun : Foundation.execute step anyStep labels start = some t) :
    Reached step (fun _ => allowed) start t :=
  Reached.start.executeLabels labels (fun label hlabel _ => hlabels label hlabel) hrun

end ProjektCore.Foundation
