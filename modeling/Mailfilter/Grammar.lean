import Mathlib.Computability.ContextFreeGrammar
import Mathlib.Order.CompletePartialOrder

/-!
# Interpretations of a context-free grammar

Two ways to compare the language of a context-free grammar with a description of it by other means.

* `denote interp s`: the words that a string of symbols stands for, when the nonterminals stand for
  the languages that `interp` gives;
* `language_le`: if the interpretation is closed under the rules, it contains the language;
* `Yields`: a nonterminal derives a word; `Yields.append` and `Yields.of_rule` build derivations.
-/

namespace Grammar

variable {T : Type}

/-- The words a string of symbols stands for. -/
def denote {N : Type} (interp : N → Language T) : List (Symbol T N) → Language T
  | [] => 1
  | .terminal t :: s => {[t]} * denote interp s
  | .nonterminal n :: s => interp n * denote interp s

section Denote

variable {N : Type} {interp : N → Language T}

theorem denote_append (u v : List (Symbol T N)) :
    denote interp (u ++ v) = denote interp u * denote interp v := by
  induction u with
  | nil => exact (one_mul _).symm
  | cons x u ih => cases x <;> simp only [List.cons_append, denote, ih, mul_assoc]

theorem mem_denote_terminal (w : List T) : w ∈ denote interp (w.map .terminal) := by
  induction w with
  | nil => exact rfl
  | cons t w ih => exact Language.append_mem_mul (Set.mem_singleton [t]) ih

/-- One rewriting step backwards, under a rule that the interpretation is closed under. -/
theorem denote_rewrites {r : ContextFreeRule T N} (hr : denote interp r.output ≤ interp r.input)
    {u v : List (Symbol T N)} (h : r.Rewrites u v) : denote interp v ≤ denote interp u := by
  obtain ⟨p, q, rfl, rfl⟩ := h.exists_parts
  have hmid : denote interp r.output ≤ denote interp [.nonterminal r.input] :=
    hr.trans (mul_one (interp r.input)).ge
  simp only [denote_append]
  exact mul_le_mul' (mul_le_mul' le_rfl hmid) le_rfl

end Denote

variable {g : ContextFreeGrammar T}

/-- **An interpretation closed under the rules contains the language.** -/
theorem language_le {interp : g.NT → Language T}
    (hclosed : ∀ r ∈ g.rules, denote interp r.output ≤ interp r.input) :
    g.language ≤ interp g.initial := by
  intro w hw
  have hderives : ∀ v, g.Derives [.nonterminal g.initial] v → denote interp v ≤ interp g.initial := by
    intro v hv
    induction hv with
    | refl => exact (mul_one (interp g.initial)).le
    | tail _ hstep ih =>
      obtain ⟨r, hr, hrw⟩ := hstep
      exact (denote_rewrites (hclosed r hr) hrw).trans ih
  exact hderives _ hw (mem_denote_terminal w)

/-! ### Derivations -/

/-- The string of symbols derives the word. -/
def Yields (g : ContextFreeGrammar T) (u : List (Symbol T g.NT)) (w : List T) : Prop :=
  g.Derives u (w.map .terminal)

theorem Yields.terminal (w : List T) : Yields g (w.map .terminal) w := .refl _

theorem Yields.append {u v : List (Symbol T g.NT)} {w x : List T} (hu : Yields g u w)
    (hv : Yields g v x) : Yields g (u ++ v) (w ++ x) := by
  unfold Yields
  rw [List.map_append]
  exact (hu.append_right v).trans (hv.append_left _)

theorem Yields.of_rule {r : ContextFreeRule T g.NT} (hr : r ∈ g.rules) {w : List T}
    (h : Yields g r.output w) : Yields g [.nonterminal r.input] w :=
  (ContextFreeGrammar.Produces.single ⟨r, hr, .input_output⟩).trans h

end Grammar
