import Mathlib.Tactic.Common

/-!
# Two computations that fail alike

A relation between two computations that may fail, for statements about two runs of one program.

* `Alike E R x y`: both computations fail, with errors related by `E`, or both return, with values
  related by `R`;
* `Alike.bind` and `Alike.foldlM`: the relation is carried through a sequence of steps.
-/

variable {ε ε' α α' β β' ι : Type}

theorem ite_related {R : α → α' → Prop} {c : Prop} [Decidable c] {a b : α} {a' b' : α'}
    (h : R a a') (h' : R b b') : R (if c then a else b) (if c then a' else b') := by
  split
  · exact h
  · exact h'

/-- Both computations fail, with related errors, or both return, with related values. -/
def Alike (E : ε → ε' → Prop) (R : α → α' → Prop) : Except ε α → Except ε' α' → Prop
  | .ok a, .ok a' => R a a'
  | .error e, .error e' => E e e'
  | _, _ => False

namespace Alike

variable {E : ε → ε' → Prop} {R : α → α' → Prop} {x : Except ε α} {y : Except ε' α'}

theorem bind {S : β → β' → Prop} {f : α → Except ε β} {g : α' → Except ε' β'} (h : Alike E R x y)
    (hfg : ∀ a a', R a a' → Alike E S (f a) (g a')) : Alike E S (x >>= f) (y >>= g) := by
  cases x <;> cases y <;> first | exact h | exact hfg _ _ h | exact h.elim

theorem ite {c : Prop} [Decidable c] {x' : Except ε α} {y' : Except ε' α'} (h : Alike E R x y)
    (h' : Alike E R x' y') : Alike E R (if c then x else x') (if c then y else y') :=
  ite_related h h'

/-- Two loops over one list, whose rounds are alike. -/
theorem foldlM {f : α → ι → Except ε α} {g : α' → ι → Except ε' α'} {xs : List ι}
    (hround : ∀ i ∈ xs, ∀ a a', R a a' → Alike E R (f a i) (g a' i)) {a : α} {a' : α'}
    (h : R a a') : Alike E R (xs.foldlM f a) (xs.foldlM g a') := by
  induction xs generalizing a a' with
  | nil => exact h
  | cons i xs ih =>
    rw [List.foldlM_cons, List.foldlM_cons]
    refine (hround i (List.mem_cons_self ..) a a' h).bind fun b b' hb => ?_
    exact ih (fun j hj => hround j (List.mem_cons_of_mem _ hj)) hb

theorem ok_right (h : Alike E R x y) {a : α} (hx : x = .ok a) : ∃ a', y = .ok a' ∧ R a a' := by
  subst hx
  cases y with
  | error e => exact h.elim
  | ok a' => exact ⟨a', rfl, h⟩

end Alike
