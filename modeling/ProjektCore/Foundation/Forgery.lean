import Mathlib.Data.Set.Function
import Mathlib.Logic.Function.Basic
import Mathlib.Logic.Nontrivial.Defs

/-!
# Forging authenticated strings

Payloads are authenticated with a tag that is computed from a keyed function. An adversary that only
copies, splits and concatenates follows a recipe over the strings that it has seen and those that it
chooses itself. The keyed function is opaque to it: a recipe succeeds only if it gives a new payload
with its tag for every keyed function without collisions.
-/

namespace ProjektCore.Foundation

variable {I J A : Type*}

/-- How a string is built from seen ones. -/
inductive Recipe (J A : Type*) where
  | seen (j : J)
  | chosen (string : List A)
  | concat (first second : Recipe J A)
  | take (n : ℕ) (whole : Recipe J A)
  | drop (n : ℕ) (whole : Recipe J A)

/-- The string that a recipe gives. -/
def Recipe.eval (seen : J → List A) : Recipe J A → List A
  | .seen j => seen j
  | .chosen string => string
  | .concat first second => first.eval seen ++ second.eval seen
  | .take n whole => (whole.eval seen).take n
  | .drop n whole => (whole.eval seen).drop n

/-- The key and the data give a string. -/
abbrev KeyedFunction (A : Type*) := List A → List A → List A

/-- Different data have different strings under every key. -/
def CollisionFree (hmac : KeyedFunction A) : Prop := ∀ key, Function.Injective (hmac key)

/-- How the tag of a payload is computed with a keyed function and a key. -/
abbrev TagRule (A : Type*) := KeyedFunction A → List A → List A → List A

/-- The two parts of an authenticated string. -/
inductive AuthenticatedPart where
  | payload
  | mac
deriving Repr, DecidableEq

/-- What is seen of the honest payloads. -/
def observed (tag : TagRule A) (hmac : KeyedFunction A) (key : List A) (honest : I → List A) :
    I × AuthenticatedPart → List A
  | (i, .payload) => honest i
  | (i, .mac) => tag hmac key (honest i)

/-- How an adversary builds a payload and its tag. -/
structure Forgery (I A : Type*) where
  payload : Recipe (I × AuthenticatedPart) A
  mac : Recipe (I × AuthenticatedPart) A

/-- The recipes give a payload that is not honest, with its tag. -/
def Forgery.Succeeds (tag : TagRule A) (key : List A) (honest : I → List A) (f : Forgery I A) :
    Prop :=
  ∀ hmac, CollisionFree hmac →
    (∀ i, f.payload.eval (observed tag hmac key honest) ≠ honest i) ∧
      f.mac.eval (observed tag hmac key honest) =
        tag hmac key (f.payload.eval (observed tag hmac key honest))

/-- Putting a symbol in front of the data, which may depend on it, has no collisions. -/
theorem collisionFree_cons (mark : List A → A) : CollisionFree fun _ data => mark data :: data := by
  intro key data data' h
  exact (List.cons.inj h).2

/-- If the tag is the keyed function of the payload, no recipe succeeds: whatever it gives for one
keyed function is wrong for one that differs at the new payload only. -/
theorem Forgery.not_succeeds_of_keyed [Nontrivial A] (key : List A) (honest : I → List A)
    (f : Forgery I A) :
    ¬ f.Succeeds (fun hmac => hmac) key honest := by
  classical
  intro hsucceeds
  obtain ⟨a, b, hab⟩ := exists_pair_ne A
  obtain ⟨hnew, htag⟩ := hsucceeds _ (collisionFree_cons fun _ => a)
  obtain ⟨seen, hseen⟩ : ∃ seen, observed (fun hmac => hmac) (fun _ data => a :: data) key honest = seen := ⟨_, rfl⟩
  rw [hseen] at hnew htag
  -- this keyed function differs from the first one at the forged payload only
  have htag' := (hsucceeds _ (collisionFree_cons fun data => if data = f.payload.eval seen then b else a)).2
  have hsame : observed (fun hmac => hmac)
      (fun _ data => (if data = f.payload.eval seen then b else a) :: data) key honest = seen := by
    refine Eq.trans ?_ hseen
    funext x
    obtain ⟨i, part⟩ := x
    cases part with
    | payload => rfl
    | mac =>
      change (if honest i = f.payload.eval seen then b else a) :: honest i = a :: honest i
      rw [if_neg (hnew i).symm]
  rw [hsame, htag] at htag'
  obtain ⟨hhead, -⟩ := List.cons.inj htag'
  rw [if_pos rfl] at hhead
  exact hab hhead

/-- If nothing has been seen, no recipe succeeds against tags that depend on the keyed function. -/
theorem Forgery.not_succeeds_of_isEmpty [IsEmpty I] {tag : TagRule A} {key : List A}
    {honest : I → List A} (f : Forgery I A) {hmac hmac' : KeyedFunction A} (h : CollisionFree hmac)
    (h' : CollisionFree hmac') (hdiffer : ∀ payload, tag hmac key payload ≠ tag hmac' key payload) :
    ¬ f.Succeeds tag key honest := by
  intro hsucceeds
  have hsame : observed tag hmac' key honest = observed tag hmac key honest := by
    funext x
    exact isEmptyElim x.1
  have htag := (hsucceeds hmac h).2
  have htag' := (hsucceeds hmac' h').2
  rw [hsame] at htag'
  exact hdiffer _ (htag.symm.trans htag')

/-- Cut the tag behind its payload and put the rest behind another payload. -/
def Forgery.transplant (i : I) (length : ℕ) (payload : List A) : Forgery I A where
  payload := .chosen payload
  mac := .concat (.chosen payload) (.drop length (.seen (i, .mac)))

/-- If the tag is the payload followed by something that does not depend on it, one honest payload
is enough to forge any other. -/
theorem Forgery.transplant_succeeds {tag : TagRule A} {suffix : KeyedFunction A → List A}
    {key : List A} (htag : ∀ hmac payload, tag hmac key payload = payload ++ suffix hmac)
    {honest : I → List A} (i : I) {payload : List A} (hnew : ∀ i, payload ≠ honest i) :
    (Forgery.transplant i (honest i).length payload).Succeeds tag key honest := by
  intro hmac _
  refine ⟨hnew, ?_⟩
  simp only [transplant, Recipe.eval, observed, htag, List.drop_left]

end ProjektCore.Foundation
