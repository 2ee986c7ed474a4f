import Mathlib.Computability.Language

/-!
# Patterns of a flex scanner

The regular expressions of a scanner description over an arbitrary alphabet `α`, with their
language (Mathlib's `Language`) and the longest match that a maximal-munch scanner looks for.

* `Pattern α`, `Pattern.lang`;
* `Pattern.nullable` and `Pattern.deriv` (Brzozowski derivatives, with the two empty patterns
  simplified away so that the derivatives of a fixed pattern stay small);
* `Pattern.longest r s`: the length of the longest prefix of `s` that matches `r`.

`longest_eq_some_iff` and `longest_eq_none_iff` say that `longest` is what its name promises;
`longest_append` is the form in which a scanner proof uses it.
-/

namespace Flex

open Computability

/-- A pattern: a class of characters, closed under concatenation, alternation and repetition. -/
inductive Pattern (α : Type)
  | nothing
  | epsilon
  | cls (p : α → Bool)
  | seq (r s : Pattern α)
  | alt (r s : Pattern α)
  | star (r : Pattern α)

namespace Pattern

variable {α : Type}

/-- The words a pattern matches. -/
def lang : Pattern α → Language α
  | nothing => 0
  | epsilon => 1
  | cls p => {w | ∃ c, p c = true ∧ w = [c]}
  | seq r s => r.lang * s.lang
  | alt r s => r.lang + s.lang
  | star r => r.lang∗

/-- The pattern for exactly one character. -/
def lit [DecidableEq α] (c : α) : Pattern α := cls fun d => d = c

/-- One or more repetitions. -/
def plus (r : Pattern α) : Pattern α := seq r (star r)

/-- Does the pattern match the empty word? -/
def nullable : Pattern α → Bool
  | nothing => false
  | epsilon => true
  | cls _ => false
  | seq r s => r.nullable && s.nullable
  | alt r s => r.nullable || s.nullable
  | star _ => true

/-- Concatenation with the empty patterns simplified away. -/
def seq' : Pattern α → Pattern α → Pattern α
  | nothing, _ => nothing
  | epsilon, s => s
  | r, s => seq r s

/-- Alternation with the empty patterns simplified away. -/
def alt' : Pattern α → Pattern α → Pattern α
  | nothing, s => s
  | r, nothing => r
  | r, s => alt r s

/-- What is left to match after the character `c`. -/
def deriv (c : α) : Pattern α → Pattern α
  | nothing => nothing
  | epsilon => nothing
  | cls p => if p c then epsilon else nothing
  | seq r s =>
    if r.nullable then alt' (seq' (deriv c r) s) (deriv c s) else seq' (deriv c r) s
  | alt r s => alt' (deriv c r) (deriv c s)
  | star r => seq' (deriv c r) (star r)

/-- The length of the longest prefix of the input that matches. -/
def longest : Pattern α → List α → Option ℕ
  | r, [] => if r.nullable then some 0 else none
  | r, c :: s =>
    match longest (deriv c r) s with
    | some n => some (n + 1)
    | none => if r.nullable then some 0 else none

/-! ### The language, constructor by constructor -/

@[simp] theorem notMem_nothing (w : List α) : w ∉ (nothing : Pattern α).lang := id

@[simp] theorem mem_epsilon {w : List α} : w ∈ (epsilon : Pattern α).lang ↔ w = [] := Iff.rfl

theorem mem_cls {p : α → Bool} {w : List α} : w ∈ (cls p).lang ↔ ∃ c, p c = true ∧ w = [c] :=
  Iff.rfl

theorem mem_lit [DecidableEq α] {c : α} {w : List α} : w ∈ (lit c).lang ↔ w = [c] := by
  constructor
  · rintro ⟨d, hd, rfl⟩
    rw [of_decide_eq_true hd]
  · rintro rfl
    exact ⟨c, decide_eq_true rfl, rfl⟩

theorem mem_seq {r s : Pattern α} {w : List α} :
    w ∈ (seq r s).lang ↔ ∃ u ∈ r.lang, ∃ v ∈ s.lang, u ++ v = w := Language.mem_mul

theorem mem_alt {r s : Pattern α} {w : List α} : w ∈ (alt r s).lang ↔ w ∈ r.lang ∨ w ∈ s.lang :=
  Language.mem_add _ _ _

/-- Repetitions of a class: the words all of whose characters are in it. -/
theorem mem_star_cls {p : α → Bool} {w : List α} :
    w ∈ (star (cls p)).lang ↔ ∀ c ∈ w, p c = true := by
  rw [lang, Language.mem_kstar]
  constructor
  · rintro ⟨L, rfl, hL⟩ c hc
    obtain ⟨y, hy, hcy⟩ := List.mem_flatten.1 hc
    obtain ⟨d, hd, rfl⟩ := hL y hy
    rw [List.mem_singleton.1 hcy]; exact hd
  · intro h
    refine ⟨w.map fun c => [c], ?_, ?_⟩
    · induction w with
      | nil => rfl
      | cons c w ih => simpa using ih fun d hd => h d (List.mem_cons_of_mem _ hd)
    · simp only [List.mem_map]
      rintro y ⟨c, hc, rfl⟩
      exact ⟨c, h c hc, rfl⟩

/-- A class followed by repetitions of another: a nonempty word. -/
theorem mem_cls_seq {p : α → Bool} {r : Pattern α} {w : List α} :
    w ∈ (seq (cls p) r).lang ↔ ∃ c v, p c = true ∧ v ∈ r.lang ∧ w = c :: v := by
  rw [mem_seq]
  constructor
  · rintro ⟨u, ⟨c, hc, rfl⟩, v, hv, rfl⟩
    exact ⟨c, v, hc, hv, rfl⟩
  · rintro ⟨c, v, hc, hv, rfl⟩
    exact ⟨[c], ⟨c, hc, rfl⟩, v, hv, rfl⟩

/-! ### Derivatives -/

theorem lang_seq' (r s : Pattern α) : (seq' r s).lang = r.lang * s.lang := by
  cases r <;> simp [seq', lang]

theorem lang_alt' (r s : Pattern α) : (alt' r s).lang = r.lang + s.lang := by
  cases r <;> cases s <;> first | rfl | exact (zero_add _).symm | exact (add_zero _).symm

theorem mem_seq' {r s : Pattern α} {w : List α} : w ∈ (seq' r s).lang ↔ w ∈ (seq r s).lang := by
  rw [lang_seq']; rfl

theorem mem_alt' {r s : Pattern α} {w : List α} :
    w ∈ (alt' r s).lang ↔ w ∈ r.lang ∨ w ∈ s.lang := by
  rw [lang_alt']; exact Language.mem_add _ _ _

theorem nullable_iff (r : Pattern α) : r.nullable = true ↔ [] ∈ r.lang := by
  induction r with
  | nothing => simp [nullable]
  | epsilon => simp [nullable]
  | cls p => simp [nullable, mem_cls]
  | seq r s ihr ihs => simp [nullable, mem_seq, ihr, ihs]
  | alt r s ihr ihs => simp [nullable, mem_alt, ihr, ihs]
  | star r _ => simp [nullable, lang, Language.nil_mem_kstar]

/-- The first nonempty piece of a repetition. -/
theorem cons_mem_kstar {L : Language α} {c : α} {w : List α} :
    c :: w ∈ L∗ ↔ ∃ u v, c :: u ∈ L ∧ v ∈ L∗ ∧ u ++ v = w := by
  constructor
  · intro h
    obtain ⟨S, hS, hne⟩ := Language.mem_kstar_iff_exists_nonempty.1 h
    cases S with
    | nil => cases hS
    | cons y S =>
      obtain ⟨hy, hy0⟩ := hne y (List.mem_cons_self ..)
      obtain ⟨d, u, rfl⟩ := List.exists_cons_of_ne_nil hy0
      simp only [List.flatten_cons, List.cons_append, List.cons.injEq] at hS
      obtain ⟨rfl, rfl⟩ := hS
      exact ⟨u, S.flatten, hy,
        Language.join_mem_kstar fun z hz => (hne z (List.mem_cons_of_mem _ hz)).1, rfl⟩
  · rintro ⟨u, v, hu, hv, rfl⟩
    rw [← Language.one_add_self_mul_kstar_eq_kstar]
    exact Or.inr (Language.append_mem_mul hu hv)

/-- The derivative by `c` matches what the pattern matches after `c`. -/
theorem mem_deriv (c : α) (r : Pattern α) (w : List α) : w ∈ (deriv c r).lang ↔ c :: w ∈ r.lang := by
  induction r generalizing w with
  | nothing => simp [deriv]
  | epsilon => simp [deriv]
  | cls p => cases hp : p c <;> simp [deriv, hp, mem_cls]
  | seq r s ihr ihs =>
    have hsplit : c :: w ∈ (seq r s).lang ↔
        (∃ u ∈ (deriv c r).lang, ∃ v ∈ s.lang, u ++ v = w) ∨
          ([] ∈ r.lang ∧ w ∈ (deriv c s).lang) := by
      rw [mem_seq]
      constructor
      · rintro ⟨u, hu, v, hv, he⟩
        cases u with
        | nil => exact Or.inr ⟨hu, (ihs w).2 (by simpa using he ▸ hv)⟩
        | cons d u =>
          simp only [List.cons_append, List.cons.injEq] at he
          obtain ⟨rfl, rfl⟩ := he
          exact Or.inl ⟨u, (ihr u).2 hu, v, hv, rfl⟩
      · rintro (⟨u, hu, v, hv, rfl⟩ | ⟨h0, hw⟩)
        · exact ⟨c :: u, (ihr u).1 hu, v, hv, rfl⟩
        · exact ⟨[], h0, c :: w, (ihs w).1 hw, rfl⟩
    rw [hsplit, ← nullable_iff]
    by_cases hn : r.nullable = true
    · simp only [deriv, hn, if_true, mem_alt', mem_seq', mem_seq, true_and]
    · simp only [deriv, hn, if_false, mem_seq', mem_seq, Bool.false_eq_true, false_and, or_false]
  | alt r s ihr ihs => rw [deriv, mem_alt', mem_alt, ihr, ihs]
  | star r ih =>
    show w ∈ (seq' (deriv c r) (star r)).lang ↔ c :: w ∈ r.lang∗
    rw [lang_seq', Language.mem_mul, cons_mem_kstar]
    constructor
    · rintro ⟨u, hu, v, hv, rfl⟩
      exact ⟨u, v, (ih u).1 hu, hv, rfl⟩
    · rintro ⟨u, v, hu, hv, rfl⟩
      exact ⟨u, (ih u).2 hu, v, hv, rfl⟩

/-! ### The longest match -/

theorem longest_eq_none_iff (r : Pattern α) (s : List α) :
    r.longest s = none ↔ ∀ n, s.take n ∉ r.lang := by
  induction s generalizing r with
  | nil => simp [longest, nullable_iff]
  | cons c s ih =>
    have hzero : (∀ n, (c :: s).take n ∉ r.lang) ↔
        [] ∉ r.lang ∧ ∀ n, s.take n ∉ (deriv c r).lang := by
      simp only [mem_deriv]
      constructor
      · exact fun h => ⟨by simpa using h 0, fun n => by simpa using h (n + 1)⟩
      · rintro ⟨h0, h1⟩ (_ | n)
        · simpa using h0
        · simpa using h1 n
    rw [hzero, ← ih, ← nullable_iff]
    cases hd : (deriv c r).longest s <;> simp [longest, hd]

/-- A longest match matches. -/
theorem take_mem_of_longest {r : Pattern α} {s : List α} {n : ℕ} (h : r.longest s = some n) :
    n ≤ s.length ∧ s.take n ∈ r.lang := by
  induction s generalizing r n with
  | nil =>
    simp only [longest, Option.ite_none_right_eq_some, Option.some.injEq] at h
    obtain ⟨hr, rfl⟩ := h
    exact ⟨le_rfl, (nullable_iff r).1 hr⟩
  | cons c s ih =>
    rw [longest] at h
    split at h
    · next m hm =>
      cases h
      obtain ⟨hle, hmem⟩ := ih hm
      exact ⟨by simpa using hle, by simpa using (mem_deriv c r _).1 hmem⟩
    · simp only [Option.ite_none_right_eq_some, Option.some.injEq] at h
      obtain ⟨hr, rfl⟩ := h
      exact ⟨Nat.zero_le _, (nullable_iff r).1 hr⟩

/-- No match is longer than the longest match. -/
theorem le_of_longest {r : Pattern α} {s : List α} {n m : ℕ} (h : r.longest s = some n)
    (hm : m ≤ s.length) (hmem : s.take m ∈ r.lang) : m ≤ n := by
  induction s generalizing r n m with
  | nil => simp only [List.length_nil] at hm; omega
  | cons c s ih =>
    cases m with
    | zero => omega
    | succ m =>
      have hd : s.take m ∈ (deriv c r).lang := (mem_deriv c r _).2 (by simpa using hmem)
      rw [longest] at h
      split at h
      · next k hk =>
        cases h
        exact Nat.succ_le_succ (ih hk (by simpa using hm) hd)
      · next hnone => exact absurd hd ((longest_eq_none_iff _ _).1 hnone m)

/-- **The longest match is the longest prefix in the language.** -/
theorem longest_eq_some_iff {r : Pattern α} {s : List α} {n : ℕ} :
    r.longest s = some n ↔
      n ≤ s.length ∧ s.take n ∈ r.lang ∧ ∀ m ≤ s.length, s.take m ∈ r.lang → m ≤ n := by
  constructor
  · intro h
    obtain ⟨hle, hmem⟩ := take_mem_of_longest h
    exact ⟨hle, hmem, fun m hm hmm => le_of_longest h hm hmm⟩
  · rintro ⟨hle, hmem, hmax⟩
    cases h : r.longest s with
    | none => exact absurd hmem ((longest_eq_none_iff r s).1 h n)
    | some k =>
      obtain ⟨hk, hkm⟩ := take_mem_of_longest h
      rw [le_antisymm (hmax k hk hkm) (le_of_longest h hle hmem)]

/-- The longest match of `u ++ v` is `u` when `u` matches and no longer prefix does. -/
theorem longest_append {r : Pattern α} {u v : List α} (hu : u ∈ r.lang)
    (hmax : ∀ x y, x ≠ [] → x ++ y = v → u ++ x ∉ r.lang) :
    r.longest (u ++ v) = some u.length := by
  refine longest_eq_some_iff.2 ⟨by simp, by simpa using hu, fun m hm hmem => ?_⟩
  by_contra hlt
  have htake : (u ++ v).take m = u ++ v.take (m - u.length) := by
    rw [List.take_append, List.take_of_length_le (by omega)]
  refine hmax (v.take (m - u.length)) (v.drop (m - u.length)) ?_ (List.take_append_drop _ _)
    (htake ▸ hmem)
  intro h0
  have := congrArg List.length h0
  simp only [List.length_take, List.length_nil] at this
  simp only [List.length_append] at hm
  omega

end Pattern

end Flex
