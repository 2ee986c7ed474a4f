import Mathlib.Tactic.Common

/-!
# Programs that change a state and may halt

Programs over an arbitrary state `σ` that return a value or halt with an error, and a Hoare logic for
them.

* `Program ε σ α`, its execution `exec`, and `onPart`, which runs a program on a part of the state;
* `Triple P p Q E`: from a state with `P` the program `p` returns in a state with `Q`, or halts in one
  with `E`;
* one rule for every way to build a program (`Triple.pure`, `Triple.bind`, `Triple.onPart`, …), and
  `Preserves`, the triple of an invariant.
-/

/-- A program that returns an `α` or halts with an `ε`, and changes a `σ` in both cases. -/
abbrev Program (ε σ α : Type) := ExceptT ε (StateM σ) α

namespace Program

variable {ε σ τ α β : Type}

/-- Run a program. -/
def exec (p : Program ε σ α) (s : σ) : Except ε α × σ := p.run s

/-- A step that is given as a function. -/
def step (f : σ → Except ε α × σ) : Program ε σ α := f

/-- A value that is read off the state. -/
def gets (f : σ → α) : Program ε σ α := step fun s => (.ok (f s), s)

/-- Run a program on a part of the state. -/
def onPart (part : σ → τ) (put : τ → σ → σ) (p : Program ε τ α) : Program ε σ α :=
  step fun s => ((exec p (part s)).1, put (exec p (part s)).2 s)

/-! ### Execution -/

theorem exec_bind (p : Program ε σ α) (f : α → Program ε σ β) (s : σ) :
    exec (p >>= f) s = match exec p s with
      | (.ok a, s') => exec (f a) s'
      | (.error e, s') => (.error e, s') := by
  show (match p s with | (r, s') => (ExceptT.bindCont f r) s') = _
  unfold exec
  show _ = match p s with | (.ok a, s') => _ | (.error e, s') => _
  rcases p s with ⟨_ | _, _⟩ <;> rfl

@[simp] theorem exec_pure (a : α) (s : σ) : exec (pure a : Program ε σ α) s = (.ok a, s) := rfl

@[simp] theorem exec_throw (e : ε) (s : σ) :
    exec (throw e : Program ε σ α) s = (.error e, s) := rfl

@[simp] theorem exec_modify (f : σ → σ) (s : σ) :
    exec (modify f : Program ε σ PUnit) s = (.ok ⟨⟩, f s) := rfl

@[simp] theorem exec_step (f : σ → Except ε α × σ) (s : σ) : exec (step f) s = f s := rfl

@[simp] theorem exec_gets (f : σ → α) (s : σ) :
    exec (gets f : Program ε σ α) s = (.ok (f s), s) := rfl

/-- A value that is not used need not be read. -/
theorem gets_bind_const (f : σ → α) (p : Program ε σ β) : (gets f >>= fun _ => p) = p :=
  ExceptT.ext rfl

@[simp] theorem exec_onPart (part : σ → τ) (put : τ → σ → σ) (p : Program ε τ α) (s : σ) :
    exec (onPart part put p) s = ((exec p (part s)).1, put (exec p (part s)).2 s) := rfl

/-! ### Triples -/

/-- From a state with `P`, the program returns in a state with `Q` or halts in one with `E`. -/
def Triple (P : σ → Prop) (p : Program ε σ α) (Q : α → σ → Prop) (E : ε → σ → Prop) : Prop :=
  ∀ s, P s →
    (∀ a s', exec p s = (.ok a, s') → Q a s') ∧ (∀ e s', exec p s = (.error e, s') → E e s')

namespace Triple

variable {P P' : σ → Prop} {p : Program ε σ α} {Q Q' : α → σ → Prop} {E E' : ε → σ → Prop}

/-- A program given by its runs. -/
theorem of_exec (h : ∀ s, P s → match exec p s with
      | (.ok a, s') => Q a s'
      | (.error e, s') => E e s') : Triple P p Q E := by
  intro s hs
  have := h s hs
  refine ⟨fun a s' he => ?_, fun e s' he => ?_⟩ <;> rwa [he] at this

theorem exec (h : Triple P p Q E) {s : σ} (hs : P s) : match exec p s with
      | (.ok a, s') => Q a s'
      | (.error e, s') => E e s' := by
  obtain ⟨hok, herr⟩ := h s hs
  rcases hrun : Program.exec p s with ⟨e | a, s'⟩
  · exact herr e s' hrun
  · exact hok a s' hrun

/-- What holds of the state afterwards, however the program ends. -/
theorem state {R : σ → Prop} (h : Triple P p (fun _ => R) (fun _ => R)) {s : σ} (hs : P s) :
    R (Program.exec p s).2 := by
  have := h.exec hs
  rcases hrun : Program.exec p s with ⟨e | a, s'⟩ <;> rwa [hrun] at this

theorem pure {a : α} (h : ∀ s, P s → Q a s) : Triple P (pure a : Program ε σ α) Q E :=
  of_exec h

theorem throw {e : ε} (h : ∀ s, P s → E e s) : Triple P (throw e : Program ε σ α) Q E :=
  of_exec h

theorem modify {f : σ → σ} {Q : PUnit → σ → Prop} (h : ∀ s, P s → Q ⟨⟩ (f s)) :
    Triple P (modify f : Program ε σ PUnit) Q E :=
  of_exec h

theorem gets {f : σ → α} (h : ∀ s, P s → Q (f s) s) : Triple P (gets f : Program ε σ α) Q E :=
  of_exec h

theorem bind {R : α → σ → Prop} {f : α → Program ε σ β} {Q : β → σ → Prop} (hp : Triple P p R E)
    (hf : ∀ a, Triple (R a) (f a) Q E) : Triple P (p >>= f) Q E := by
  refine of_exec fun s hs => ?_
  obtain ⟨hok, herr⟩ := hp s hs
  rw [exec_bind]
  rcases hrun : Program.exec p s with ⟨e | a, s'⟩
  · exact herr e s' hrun
  · exact (hf a).exec (hok a s' hrun)

theorem ite {c : Prop} [Decidable c] {q : Program ε σ α} (hp : c → Triple P p Q E)
    (hq : ¬ c → Triple P q Q E) : Triple P (if c then p else q) Q E := by
  split
  case isTrue h => exact hp h
  case isFalse h => exact hq h

theorem conseq (h : Triple P' p Q' E') (hP : ∀ s, P s → P' s) (hQ : ∀ a s, Q' a s → Q a s)
    (hE : ∀ e s, E' e s → E e s) : Triple P p Q E := fun s hs =>
  ⟨fun a s' he => hQ a s' ((h s (hP s hs)).1 a s' he),
    fun e s' he => hE e s' ((h s (hP s hs)).2 e s' he)⟩

theorem weaken (h : Triple P' p Q E) (hP : ∀ s, P s → P' s) : Triple P p Q E :=
  h.conseq hP (fun _ _ h => h) fun _ _ h => h

theorem errors (h : Triple P p Q E') (hE : ∀ e s, E' e s → E e s) : Triple P p Q E :=
  h.conseq (fun _ h => h) (fun _ _ h => h) hE

/-- Nothing is claimed of the states afterwards. -/
theorem any (p : Program ε σ α) : Triple P p (fun _ _ => True) (fun _ _ => True) :=
  fun _ _ => ⟨fun _ _ _ => trivial, fun _ _ _ => trivial⟩

/-- A program that does not halt with an error. -/
theorem total (h : Triple P p Q fun _ _ => False) : Triple P p Q E :=
  h.errors fun _ _ h => h.elim

/-- A fact about no state can be taken out of the precondition. -/
theorem of_fact {φ : Prop} (h : φ → Triple P p Q E) : Triple (fun s => φ ∧ P s) p Q E :=
  fun s hs => h hs.1 s hs.2

theorem of_exists {ι : Sort*} {P : ι → σ → Prop} (h : ∀ i, Triple (P i) p Q E) :
    Triple (fun s => ∃ i, P i s) p Q E :=
  fun s ⟨i, hs⟩ => h i s hs

/-- A program on a part of the state, from the triple of the program. -/
theorem onPart {part : σ → τ} {put : τ → σ → σ} {p : Program ε τ α} {R : σ → τ → Prop}
    {S : σ → α → τ → Prop} {F : σ → ε → τ → Prop} (hp : ∀ s, Triple (R s) p (S s) (F s))
    (hP : ∀ s, P s → R s (part s)) (hQ : ∀ s a t, P s → S s a t → Q a (put t s))
    (hE : ∀ s e t, P s → F s e t → E e (put t s)) : Triple P (onPart part put p) Q E := by
  refine of_exec fun s hs => ?_
  obtain ⟨hok, herr⟩ := hp s (part s) (hP s hs)
  rw [exec_onPart]
  rcases hrun : Program.exec p (part s) with ⟨e | a, t⟩
  · exact hE s e t hs (herr e t hrun)
  · exact hQ s a t hs (hok a t hrun)

end Triple

/-! ### Invariants -/

/-- The program keeps the invariant, however it ends. -/
def Preserves (I : σ → Prop) (p : Program ε σ α) : Prop :=
  Triple I p (fun _ => I) (fun _ => I)

namespace Preserves

variable {I : σ → Prop} {p : Program ε σ α}

theorem pure (a : α) : Preserves I (pure a : Program ε σ α) := Triple.pure fun _ h => h

theorem throw (e : ε) : Preserves I (throw e : Program ε σ α) := Triple.throw fun _ h => h

theorem gets (f : σ → α) : Preserves I (gets f : Program ε σ α) := Triple.gets fun _ h => h

theorem modify {f : σ → σ} (h : ∀ s, I s → I (f s)) :
    Preserves I (modify f : Program ε σ PUnit) :=
  Triple.modify h

theorem bind {f : α → Program ε σ β} (hp : Preserves I p) (hf : ∀ a, Preserves I (f a)) :
    Preserves I (p >>= f) :=
  Triple.bind hp hf

theorem ite {c : Prop} [Decidable c] {q : Program ε σ α} (hp : Preserves I p)
    (hq : Preserves I q) : Preserves I (if c then p else q) :=
  Triple.ite (fun _ => hp) fun _ => hq

theorem forM {ι : Type} {f : ι → Program ε σ PUnit} {xs : List ι}
    (h : ∀ x ∈ xs, Preserves I (f x)) : Preserves I (xs.forM f) := by
  induction xs with
  | nil => exact Preserves.pure _
  | cons x xs ih =>
    exact (h x (List.mem_cons_self ..)).bind fun _ => ih fun y hy => h y (List.mem_cons_of_mem _ hy)

/-- The state after a run. -/
theorem exec (h : Preserves I p) {s : σ} (hs : I s) : I (exec p s).2 := Triple.state h hs

end Preserves

end Program
