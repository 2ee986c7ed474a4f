import Mailfilter.Alike
import Mailfilter.Program

/-!
# Two programs side by side

Statements about two runs: programs that are run from related states end alike, in related states.

* `Coupled R p q Q E`: from states with `R` both programs return, with `Q`, or both halt, with `E`;
* `Agree R p q`: they end with the same value or error, and keep the relation, and `Stable R p`, the
  program agrees with itself;
* one rule for every way to build a program, as for triples.
-/

namespace Program

variable {ε σ τ σ' τ' α α' β β' ι : Type}

/-- From states with `R`, both programs return in states with `Q`, or both halt in states with `E`. -/
def Coupled (R : σ → τ → Prop) (p : Program ε σ α) (q : Program ε τ α')
    (Q : α → α' → σ → τ → Prop) (E : ε → ε → σ → τ → Prop) : Prop :=
  ∀ s t, R s t → Alike (fun e e' => E e e' (exec p s).2 (exec q t).2)
    (fun a a' => Q a a' (exec p s).2 (exec q t).2) (exec p s).1 (exec q t).1

/-- The programs end with the same value or the same error, and keep the relation. -/
def Agree (R : σ → τ → Prop) (p : Program ε σ α) (q : Program ε τ α) : Prop :=
  Coupled R p q (fun a a' s t => a = a' ∧ R s t) (fun e e' s t => e = e' ∧ R s t)

/-- The program ends alike in states that are related. -/
abbrev Stable (R : σ → σ → Prop) (p : Program ε σ α) : Prop := Agree R p p

variable {R : σ → τ → Prop} {p : Program ε σ α} {q : Program ε τ α'}
  {Q : α → α' → σ → τ → Prop} {E : ε → ε → σ → τ → Prop}

namespace Coupled

theorem pure {a : α} {a' : α'} (h : ∀ s t, R s t → Q a a' s t) :
    Coupled R (pure a : Program ε σ α) (pure a' : Program ε τ α') Q E := h

theorem bind {S : α → α' → σ → τ → Prop} {f : α → Program ε σ β} {g : α' → Program ε τ β'}
    {Q : β → β' → σ → τ → Prop} (hp : Coupled R p q S E)
    (hf : ∀ a a', Coupled (S a a') (f a) (g a') Q E) : Coupled R (p >>= f) (q >>= g) Q E := by
  intro s t hs
  have h := hp s t hs
  rw [exec_bind, exec_bind]
  rcases hrun : exec p s with ⟨e | a, s'⟩ <;> rcases hrun' : exec q t with ⟨e' | a', t'⟩ <;>
    rw [hrun, hrun'] at h
  · exact h
  · exact h.elim
  · exact h.elim
  · exact hf a a' s' t' h

/-- The two programs branch alike. -/
theorem ite {c c' : Prop} [Decidable c] [Decidable c'] {p' : Program ε σ α} {q' : Program ε τ α'}
    (hc : c ↔ c') (h : Coupled R p q Q E) (h' : Coupled R p' q' Q E) :
    Coupled R (if c then p else p') (if c' then q else q') Q E := by
  by_cases hcase : c
  · rwa [if_pos hcase, if_pos (hc.mp hcase)]
  · rwa [if_neg hcase, if_neg (hcase ∘ hc.mpr)]

/-- A fact about no state can be taken out of the relation. -/
theorem of_fact {φ : Prop} (h : φ → Coupled R p q Q E) :
    Coupled (fun s t => φ ∧ R s t) p q Q E := fun s t hs => h hs.1 s t hs.2

end Coupled

namespace Agree

theorem pure (a : α) : Agree R (pure a : Program ε σ α) (pure a) := fun _ _ hs => ⟨rfl, hs⟩

theorem throw (e : ε) : Agree R (throw e : Program ε σ α) (throw e) := fun _ _ hs => ⟨rfl, hs⟩

theorem gets {f : σ → α} {g : τ → α} (h : ∀ s t, R s t → f s = g t) :
    Agree R (gets f : Program ε σ α) (gets g) := fun s t hs => ⟨h s t hs, hs⟩

theorem modify {f : σ → σ} {g : τ → τ} (h : ∀ s t, R s t → R (f s) (g t)) :
    Agree R (modify f : Program ε σ PUnit) (modify g) := fun s t hs => ⟨rfl, h s t hs⟩

/-- Two steps that return, with the same value. -/
theorem step {f : σ → Except ε α × σ} {g : τ → Except ε α × τ} {v : σ → α} {w : τ → α}
    (hf : ∀ s, (f s).1 = .ok (v s)) (hg : ∀ t, (g t).1 = .ok (w t))
    (h : ∀ s t, R s t → v s = w t ∧ R (f s).2 (g t).2) :
    Agree R (step f : Program ε σ α) (step g) := by
  intro s t hs
  rw [exec_step, exec_step, hf, hg]
  exact h s t hs

theorem bind {q : Program ε τ α} {f : α → Program ε σ β} {g : α → Program ε τ β}
    (hp : Agree R p q) (hf : ∀ a, Agree R (f a) (g a)) : Agree R (p >>= f) (q >>= g) :=
  Coupled.bind hp fun a a' => Coupled.of_fact fun ha => by
    subst ha
    exact hf a

theorem ite {p p' : Program ε σ α} {q q' : Program ε τ α} {c : Prop} [Decidable c]
    (h : Agree R p q) (h' : Agree R p' q') :
    Agree R (if c then p else p') (if c then q else q') :=
  Coupled.ite Iff.rfl h h'

theorem forM {f : ι → Program ε σ PUnit} {g : ι → Program ε τ PUnit}
    (h : ∀ i, Agree R (f i) (g i)) (xs : List ι) : Agree R (xs.forM f) (xs.forM g) := by
  induction xs with
  | nil => exact pure _
  | cons i xs ih => exact (h i).bind fun _ => ih

end Agree

/-- Programs on parts of the states. -/
theorem Coupled.onPart {part : σ → σ'} {part' : τ → τ'} {put : σ' → σ → σ} {put' : τ' → τ → τ}
    {p : Program ε σ' α} {q : Program ε τ' α'} {S : σ' → τ' → Prop} {V : α → α' → Prop}
    (h : Coupled S p q (fun a a' x y => V a a' ∧ S x y) (fun e e' x y => e = e' ∧ S x y))
    (hpart : ∀ s t, R s t → S (part s) (part' t))
    (hput : ∀ s t x y, R s t → S x y → R (put x s) (put' y t)) :
    Coupled R (onPart part put p) (onPart part' put' q) (fun a a' s t => V a a' ∧ R s t)
      (fun e e' s t => e = e' ∧ R s t) := by
  intro s t hs
  have h := h _ _ (hpart s t hs)
  rw [exec_onPart, exec_onPart]
  rcases hrun : exec p (part s) with ⟨e | a, x⟩ <;> rcases hrun' : exec q (part' t) with ⟨e' | a', y⟩ <;>
    rw [hrun, hrun'] at h
  · exact ⟨h.1, hput s t x y hs h.2⟩
  · exact h.elim
  · exact h.elim
  · exact ⟨h.1, hput s t x y hs h.2⟩

/-- What two programs that agree end with. -/
theorem Agree.exec {q : Program ε τ α} (h : Agree R p q) {s : σ} {t : τ} (hs : R s t) :
    (exec p s).1 = (exec q t).1 ∧ R (exec p s).2 (exec q t).2 := by
  have h := h s t hs
  rcases hrun : Program.exec p s with ⟨e | a, s'⟩ <;> rcases hrun' : Program.exec q t with ⟨e' | a', t'⟩ <;>
    rw [hrun, hrun'] at h
  · exact ⟨congrArg _ h.1, h.2⟩
  · exact h.elim
  · exact h.elim
  · exact ⟨congrArg _ h.1, h.2⟩

end Program
