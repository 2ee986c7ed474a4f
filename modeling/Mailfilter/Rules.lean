import Mathlib.Algebra.BigOperators.Group.List.Basic
import Mathlib.Tactic.Common

/-!
# Signed rules over a list of lines

A rule base over arbitrary types: rules `ρ`, lines `ℓ`, a sign for each rule and a relation `hit`
between rules and lines.  A positive rule applies when it hits some line, a negative rule when it
hits none.

* `Applies`, `AnyApplies` and the `total` of the scores of the rules that apply, which counts a
  positive rule once for every line it hits;
* the loops in which programs compute these: a nested search with early return (`findSome?`),
  `lastUnmatched`, which knows that nothing was hit when it comes to the last line, and a fold;
* `nested_eq_none`, `nested_eq_some`, `lastUnmatched_eq` and `foldl_represents` connect the two;
* `total_perm`: the order of rules and lines does not matter.
-/

namespace Rules

variable {ρ ℓ β : Type}

/-- A rule applies to the lines. -/
def Applies (negative : ρ → Bool) (hit : ρ → ℓ → Bool) (lines : List ℓ) (r : ρ) : Prop :=
  if negative r then ∀ l ∈ lines, hit r l = false else ∃ l ∈ lines, hit r l = true

/-- Some rule applies to the lines. -/
def AnyApplies (negative : ρ → Bool) (hit : ρ → ℓ → Bool) (rules : List ρ) (lines : List ℓ) : Prop :=
  ∃ r ∈ rules, Applies negative hit lines r

/-- The scores of the rules that apply, with a positive rule counted for every line it hits. -/
def total {M : Type} [AddMonoid M] (negative : ρ → Bool) (hit : ρ → ℓ → Bool) (score : ρ → M)
    (rules : List ρ) (lines : List ℓ) : M :=
  (lines.map fun l =>
      (rules.map fun r => if !negative r && hit r l then score r else 0).sum).sum +
    (rules.map fun r => if negative r && lines.all fun l => !hit r l then score r else 0).sum

instance (negative : ρ → Bool) (hit : ρ → ℓ → Bool) (lines : List ℓ) (r : ρ) :
    Decidable (Applies negative hit lines r) :=
  inferInstanceAs (Decidable (if negative r then ∀ l ∈ lines, hit r l = false
    else ∃ l ∈ lines, hit r l = true))

instance (negative : ρ → Bool) (hit : ρ → ℓ → Bool) (rules : List ρ) (lines : List ℓ) :
    Decidable (AnyApplies negative hit rules lines) :=
  inferInstanceAs (Decidable (∃ r ∈ rules, Applies negative hit lines r))

/-- The loop over the lines for one negative rule: a hit breaks it, and `out` is the result at the
last line, when that is reached without a hit. -/
def lastUnmatched (hit : ℓ → Bool) (out : β) : List ℓ → Option β
  | [] => none
  | l :: lines =>
    if hit l then none else if lines.isEmpty then some out else lastUnmatched hit out lines

/-! ### Positive and negative rules -/

variable {negative : ρ → Bool} {hit : ρ → ℓ → Bool}

theorem applies_of_positive {r : ρ} {lines : List ℓ} (h : negative r = false) :
    Applies negative hit lines r ↔ ∃ l ∈ lines, hit r l = true := by
  rw [Applies, h]; simp

theorem applies_of_negative {r : ρ} {lines : List ℓ} (h : negative r = true) :
    Applies negative hit lines r ↔ ∀ l ∈ lines, hit r l = false := by
  rw [Applies, h]; simp

/-- Some rule applies: a positive one that hits a line, or a negative one that hits none. -/
theorem anyApplies_iff {rules : List ρ} {lines : List ℓ} :
    AnyApplies negative hit rules lines ↔
      (∃ r ∈ rules, negative r = false ∧ ∃ l ∈ lines, hit r l = true) ∨
      (∃ r ∈ rules, negative r = true ∧ ∀ l ∈ lines, hit r l = false) := by
  constructor
  · rintro ⟨r, hr, happ⟩
    cases hn : negative r with
    | false => exact Or.inl ⟨r, hr, hn, (applies_of_positive hn).1 happ⟩
    | true => exact Or.inr ⟨r, hr, hn, (applies_of_negative hn).1 happ⟩
  · rintro (⟨r, hr, hn, h⟩ | ⟨r, hr, hn, h⟩)
    · exact ⟨r, hr, (applies_of_positive hn).2 h⟩
    · exact ⟨r, hr, (applies_of_negative hn).2 h⟩

/-! ### Loops -/

/-- A nested search finds nothing when no pair yields anything. -/
theorem nested_eq_none {lines : List ℓ} {rules : List ρ} {g : ℓ → ρ → Option β} :
    (lines.findSome? fun l => rules.findSome? (g l)) = none ↔
      ∀ l ∈ lines, ∀ r ∈ rules, g l r = none := by
  simp only [List.findSome?_eq_none_iff]

/-- What a nested search finds is what some pair yields. -/
theorem nested_eq_some {lines : List ℓ} {rules : List ρ} {g : ℓ → ρ → Option β} {b : β}
    (h : (lines.findSome? fun l => rules.findSome? (g l)) = some b) :
    ∃ l ∈ lines, ∃ r ∈ rules, g l r = some b := by
  obtain ⟨l, hl, hb⟩ := List.exists_of_findSome?_eq_some h
  obtain ⟨r, hr, hg⟩ := List.exists_of_findSome?_eq_some hb
  exact ⟨l, hl, r, hr, hg⟩

theorem lastUnmatched_eq {hit : ℓ → Bool} {out : β} {lines : List ℓ} (hne : lines ≠ []) :
    lastUnmatched hit out lines = if lines.all fun l => !hit l then some out else none := by
  induction lines with
  | nil => exact absurd rfl hne
  | cons l lines ih =>
    rw [lastUnmatched]
    cases hl : hit l with
    | true => simp [hl]
    | false =>
      cases lines with
      | nil => simp [hl]
      | cons l' lines => simpa [hl] using ih (List.cons_ne_nil _ _)

/-- What the loop finds: nothing was hit, and there was a line. -/
theorem lastUnmatched_eq_some {hit : ℓ → Bool} {out b : β} {lines : List ℓ}
    (h : lastUnmatched hit out lines = some b) :
    b = out ∧ lines ≠ [] ∧ ∀ l ∈ lines, hit l = false := by
  have hne : lines ≠ [] := by
    rintro rfl
    cases h
  rw [lastUnmatched_eq hne, Option.ite_none_right_eq_some] at h
  exact ⟨(Option.some.inj h.2).symm, hne, by simpa using h.1⟩

/-- What is done with the result can be done before. -/
theorem map_lastUnmatched {γ : Type} (f : β → γ) (hit : ℓ → Bool) (out : β) (lines : List ℓ) :
    (lastUnmatched hit out lines).map f = lastUnmatched hit (f out) lines := by
  induction lines with
  | nil => rfl
  | cons l lines ih =>
    rw [lastUnmatched, lastUnmatched]
    split_ifs
    · rfl
    · rfl
    · exact ih

/-- If each round of a fold adds `f x` to what the accumulator represents, the whole fold adds the
sum. -/
theorem foldl_represents {σ α M : Type} [AddMonoid M] {R : σ → M → Prop} {step : σ → α → σ}
    {f : α → M} {xs : List α} (hstep : ∀ t m, ∀ x ∈ xs, R t m → R (step t x) (m + f x)) {t : σ} {m : M}
    (h : R t m) : R (xs.foldl step t) (m + (xs.map f).sum) := by
  induction xs generalizing t m with
  | nil => simpa using h
  | cons x xs ih =>
    rw [List.foldl_cons, List.map_cons, List.sum_cons, ← add_assoc]
    exact ih (fun t m y hy => hstep t m y (List.mem_cons_of_mem _ hy))
      (hstep t m x (List.mem_cons_self ..) h)

/-! ### Order -/

/-- The total does not depend on the order of the rules, nor on that of the lines. -/
theorem total_perm {M : Type} [AddCommMonoid M] {score : ρ → M} {rules rules' : List ρ}
    {lines lines' : List ℓ} (hrules : rules'.Perm rules) (hlines : lines'.Perm lines) :
    total negative hit score rules' lines' = total negative hit score rules lines := by
  have hall : ∀ r, (lines'.all fun l => !hit r l) = lines.all fun l => !hit r l :=
    fun r => hlines.all_eq
  have hrow : ∀ l, (rules'.map fun r => if !negative r && hit r l then score r else 0).sum =
      (rules.map fun r => if !negative r && hit r l then score r else 0).sum :=
    fun l => (hrules.map _).sum_eq
  unfold total
  simp only [hall, hrow, (hlines.map _).sum_eq, (hrules.map _).sum_eq]

end Rules
