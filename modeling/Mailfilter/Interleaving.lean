import Mathlib.Data.List.Basic
import Mailfilter.Alike

/-!
# Interleavings

Sequences of steps of several kinds, where steps of different kinds do not see each other.

* `SameOrder kind xs ys`: `ys` is a permutation of `xs` in which the steps of every kind keep their
  order;
* `SameOrder.exists_cons`: the first step of one sequence occurs in the other, behind steps of other
  kinds only;
* `foldlM_sameOrder`: if steps of different kinds commute, both sequences fail, or both end in the
  same state.
-/

variable {ε σ ι κ : Type}

/-- Both computations fail, or both return the same value. -/
abbrev SameResult (x y : Except ε σ) : Prop := Alike (fun _ _ => True) Eq x y

theorem SameResult.refl (x : Except ε σ) : SameResult x x := by
  cases x
  · exact trivial
  · exact rfl

theorem SameResult.symm {x y : Except ε σ} (h : SameResult x y) : SameResult y x := by
  cases x <;> cases y
  · exact trivial
  · exact h.elim
  · exact h.elim
  · exact Eq.symm (show _ = _ from h)

theorem SameResult.trans {x y z : Except ε σ} (h : SameResult x y) (h' : SameResult y z) :
    SameResult x z := by
  cases x <;> cases y <;> cases z
  all_goals first
    | exact trivial
    | exact h.elim
    | exact h'.elim
    | exact Eq.trans (show _ = _ from h) h'

theorem SameResult.bind {τ : Type} {x y : Except ε σ} {f g : σ → Except ε τ} (h : SameResult x y)
    (hfg : ∀ a, SameResult (f a) (g a)) : SameResult (x >>= f) (y >>= g) :=
  Alike.bind h fun a a' ha => by
    subst ha
    exact hfg a

section Order

variable [DecidableEq κ] {kind : ι → κ}

/-- The steps of every kind occur in the same order. -/
def SameOrder (kind : ι → κ) (xs ys : List ι) : Prop :=
  ∀ k, xs.filter (kind · = k) = ys.filter (kind · = k)

theorem SameOrder.mem_iff {xs ys : List ι} (h : SameOrder kind xs ys) {x : ι} :
    x ∈ xs ↔ x ∈ ys := by
  have := congrArg (x ∈ ·) (h (kind x))
  simpa using this

theorem SameOrder.filter {xs ys : List ι} (h : SameOrder kind xs ys) (p : ι → Bool) :
    SameOrder kind (xs.filter p) (ys.filter p) := by
  intro k
  rw [List.filter_comm, h k, List.filter_comm]

/-- Two steps of different kinds. -/
theorem SameOrder.swap {x y : ι} (h : kind x ≠ kind y) : SameOrder kind [x, y] [y, x] := by
  intro k
  by_cases hx : kind x = k
  · have hy : kind y ≠ k := fun hy => h (hx.trans hy.symm)
    simp [hx, hy]
  · simp [List.filter_cons, hx]

/-- The first step of a sequence, in the other one. -/
theorem SameOrder.exists_cons {x : ι} {xs ys : List ι} (h : SameOrder kind (x :: xs) ys) :
    ∃ us vs, ys = us ++ x :: vs ∧ (∀ u ∈ us, kind u ≠ kind x) ∧ SameOrder kind xs (us ++ vs) := by
  have hx := (h (kind x)).symm
  rw [List.filter_cons_of_pos (by simp), List.filter_eq_cons_iff] at hx
  obtain ⟨us, vs, rfl, hus, -, hvs⟩ := hx
  have hne : ∀ u ∈ us, kind u ≠ kind x := fun u hu => by simpa using hus u hu
  refine ⟨us, vs, rfl, hne, fun k => ?_⟩
  by_cases hk : kind x = k
  · subst hk
    have hnil : us.filter (kind · = kind x) = [] := List.filter_eq_nil_iff.2 hus
    rw [List.filter_append, hnil, List.nil_append, hvs]
  · have hcons := h k
    rw [List.filter_append, List.filter_cons_of_neg (by simpa using hk),
      List.filter_cons_of_neg (by simpa using hk)] at hcons
    rw [hcons, List.filter_append]

theorem SameOrder.perm {xs ys : List ι} (h : SameOrder kind xs ys) : xs.Perm ys := by
  induction xs generalizing ys with
  | nil =>
    rcases ys with _ | ⟨y, ys⟩
    · exact List.Perm.nil
    · exact absurd (h.mem_iff.2 (List.mem_cons_self ..)) List.not_mem_nil
  | cons x xs ih =>
    obtain ⟨us, vs, rfl, -, hrest⟩ := h.exists_cons
    exact ((ih hrest).cons x).trans List.perm_middle.symm

/-! ### Steps that commute -/

/-- A step can be taken before those it commutes with. -/
theorem foldlM_move {step : σ → ι → Except ε σ} {x : ι} {us vs : List ι}
    (hcomm : ∀ u ∈ us, ∀ s, SameResult (step s u >>= fun t => step t x)
      (step s x >>= fun t => step t u)) (s : σ) :
    SameResult ((us ++ x :: vs).foldlM step s) ((x :: (us ++ vs)).foldlM step s) := by
  induction us generalizing s with
  | nil => exact SameResult.refl _
  | cons u us ih =>
    have htail := fun w hw => hcomm w (List.mem_cons_of_mem _ hw)
    have hswap : SameResult ((step s u >>= fun t => step t x) >>= (us ++ vs).foldlM step)
        ((step s x >>= fun t => step t u) >>= (us ++ vs).foldlM step) :=
      SameResult.bind (hcomm u (List.mem_cons_self ..) s) fun a => SameResult.refl _
    rw [bind_assoc, bind_assoc] at hswap
    simp only [List.cons_append, List.foldlM_cons] at ih ⊢
    refine SameResult.trans ?_ hswap
    exact SameResult.bind (SameResult.refl (step s u)) fun a => ih htail a

/-- **The order does not matter** to steps of different kinds. -/
theorem foldlM_sameOrder {step : σ → ι → Except ε σ} {xs ys : List ι}
    (hcomm : ∀ x ∈ xs, ∀ y ∈ xs, kind x ≠ kind y → ∀ s,
      SameResult (step s x >>= fun t => step t y) (step s y >>= fun t => step t x))
    (h : SameOrder kind xs ys) (s : σ) : SameResult (xs.foldlM step s) (ys.foldlM step s) := by
  induction xs generalizing ys s with
  | nil =>
    rw [List.Perm.nil_eq h.perm]
    exact SameResult.refl _
  | cons x xs ih =>
    obtain ⟨us, vs, rfl, hne, hrest⟩ := h.exists_cons
    have hmove : SameResult ((us ++ x :: vs).foldlM step s) ((x :: (us ++ vs)).foldlM step s) := by
      refine foldlM_move (fun u hu s => ?_) s
      have hmem : u ∈ xs := hrest.mem_iff.2 (List.mem_append_left _ hu)
      exact hcomm u (List.mem_cons_of_mem _ hmem) x (List.mem_cons_self ..) (hne u hu) s
    refine SameResult.trans ?_ hmove.symm
    rw [List.foldlM_cons, List.foldlM_cons]
    refine SameResult.bind (SameResult.refl (step s x)) fun a => ?_
    exact ih (fun x hx y hy => hcomm x (List.mem_cons_of_mem _ hx) y (List.mem_cons_of_mem _ hy))
      hrest a

end Order
