import Mathlib.Data.List.Basic
import Mathlib.Tactic.Common

/-!
# Exchanging two segments of a list

Two neighbouring segments of a list change places, when single elements can be swapped only.

* `swap` and `swapSegments`, for segments of one length;
* `exchange`: the shorter segment is swapped with the far end of the longer one, and the rest is
  exchanged in the same way;
* `exchange_append`: both segments are then where they belong, and nothing else has moved.
-/

namespace Exchange

variable {α : Type}

/-- Swap two elements. -/
def swap (i j : ℕ) (xs : List α) : List α :=
  match xs[i]?, xs[j]? with
  | some x, some y => (xs.set i y).set j x
  | _, _ => xs

/-- Swap the segments of the given length from `i` on and from `j` on. -/
def swapSegments (i j : ℕ) : ℕ → List α → List α
  | 0, xs => xs
  | len + 1, xs => swapSegments (i + 1) (j + 1) len (swap i j xs)

/-- Exchange the segments `[bottom, middle)` and `[middle, top)`. -/
def exchange (bottom middle top : ℕ) (xs : List α) : List α :=
  if middle < top ∧ bottom < middle then
    if middle - bottom < top - middle then
      exchange bottom middle (top - (middle - bottom))
        (swapSegments bottom (top - (middle - bottom)) (middle - bottom) xs)
    else exchange (bottom + (top - middle)) middle top (swapSegments bottom middle (top - middle) xs)
  else xs
termination_by top - bottom

/-! ### Segments of one length -/

theorem swap_append (a m r : List α) (x y : α) :
    swap a.length (a.length + 1 + m.length) (a ++ x :: (m ++ y :: r)) = a ++ y :: (m ++ x :: r) := by
  have hy : (a ++ x :: (m ++ y :: r))[a.length + 1 + m.length]? = some y := by
    rw [List.getElem?_append_right (by omega)]
    simp [show a.length + 1 + m.length - a.length = m.length + 1 by omega]
  unfold swap
  rw [hy]
  simp [List.set_append, show a.length + 1 + m.length - a.length = m.length + 1 by omega,
    show ¬ a.length + 1 + m.length < a.length by omega]

theorem swapSegments_append (a b m c r : List α) (hlen : c.length = b.length) :
    swapSegments a.length (a.length + b.length + m.length) b.length (a ++ b ++ m ++ c ++ r) =
      a ++ c ++ m ++ b ++ r := by
  induction b generalizing a m c with
  | nil =>
    rw [List.length_eq_zero_iff.mp hlen]
    rfl
  | cons x b ih =>
    cases c with
    | nil => simp at hlen
    | cons y c =>
      have hswap := swap_append a (b ++ m) (c ++ r) x y
      have hrest := ih (a ++ [y]) (m ++ [x]) c (by simpa using hlen)
      simp only [List.length_append, List.length_cons, List.length_nil, List.append_assoc,
        List.cons_append, List.nil_append, swapSegments] at hswap hrest ⊢
      rw [show a.length + (b.length + 1) + m.length = a.length + 1 + (b.length + m.length) by omega,
        hswap, ← hrest]
      congr 1
      omega

/-! ### Segments of any length -/

theorem exists_split (xs : List α) {k : ℕ} (hk : k ≤ xs.length) :
    ∃ ys zs, xs = ys ++ zs ∧ ys.length = k :=
  ⟨xs.take k, xs.drop k, (List.take_append_drop k xs).symm, by simp [hk]⟩

/-- **Exchange.** -/
theorem exchange_append (a b c r : List α) :
    exchange a.length (a.length + b.length) (a.length + b.length + c.length) (a ++ b ++ c ++ r) =
      a ++ c ++ b ++ r := by
  induction hn : b.length + c.length using Nat.strongRecOn generalizing a b c r with
  | ind n ih =>
    rw [exchange]
    by_cases hboth : 0 < c.length ∧ 0 < b.length
    · rw [if_pos (by omega)]
      split_ifs with hshort
      · -- the lower segment is the short one, and goes to the far end of the upper one
        obtain ⟨c₁, c₂, rfl, hc₁⟩ := exists_split c (k := c.length - b.length) (by omega)
        have hc₂ : c₂.length = b.length := by
          rw [List.length_append] at hc₁ hshort
          omega
        have hswap := swapSegments_append a b c₁ c₂ r hc₂
        have hrest := ih (c₂.length + c₁.length) (by rw [← hn, List.length_append]; omega)
          a c₂ c₁ (b ++ r) rfl
        rw [List.length_append] at hn ⊢
        rw [show a.length + b.length - a.length = b.length by omega,
          show a.length + b.length + (c₁.length + c₂.length) - b.length =
            a.length + b.length + c₁.length by omega]
        simp only [List.append_assoc] at hswap hrest ⊢
        rw [hswap, ← hrest, hc₂]
      · -- the upper segment is the short one, or both have the same length
        obtain ⟨b₁, b₂, rfl, hb₁⟩ := exists_split b (k := c.length) (by omega)
        have hswap := swapSegments_append a b₁ b₂ c r hb₁.symm
        have hrest := ih (b₂.length + b₁.length) (by rw [← hn, List.length_append]; omega)
          (a ++ c) b₂ b₁ r rfl
        rw [List.length_append] at hn hrest ⊢
        rw [show a.length + (b₁.length + b₂.length) + c.length - (a.length + (b₁.length + b₂.length)) =
            b₁.length by omega,
          show a.length + (b₁.length + b₂.length) = a.length + b₁.length + b₂.length by omega, hb₁]
        rw [hb₁] at hswap hrest
        simp only [List.append_assoc] at hswap hrest ⊢
        rw [hswap, ← hrest]
    · rw [if_neg (by omega)]
      have hempty : b = [] ∨ c = [] := by
        rcases Nat.eq_zero_or_pos c.length with hc | hc
        · exact Or.inr (List.length_eq_zero_iff.mp hc)
        · exact Or.inl (List.length_eq_zero_iff.mp (by omega))
      rcases hempty with rfl | rfl <;> simp

end Exchange
