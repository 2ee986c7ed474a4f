import Mailfilter.Flex.Pattern
import Mathlib.Tactic.Common

/-!
# Maximal munch with start conditions

What a scanner that flex generates does with its list of rules, over an arbitrary alphabet `α`,
set of start conditions `κ` and type of tokens `τ`.

* A `Rule` is active in some start conditions, may be anchored at the beginning of a line (`^`),
  and has a pattern and an action.  The action gets the matched text and the current start
  condition and gives the token it returns, if any, and the next start condition.
* `best rules k bol s` is the rule that fires: the longest match wins, and of several rules with
  a longest match the one that comes first in the description.
* `Scanner.tokensFrom` repeats this to the end of the input.  Where no rule matches, the default rule
  copies one character to the output and returns nothing.

`tokensFrom_rule` and `tokensFrom_default` unfold one step of a scan.
-/

namespace Flex

variable {α κ τ : Type}

/-- One rule of a scanner description. -/
structure Rule (κ τ α : Type) where
  active : κ → Bool
  bol : Bool
  pattern : Pattern α
  action : List α → κ → Option τ × κ

/-- The length of the match of one rule, in start condition `k`, at (`bol`) or not at the
beginning of a line.  An empty match does not count. -/
def Rule.length (r : Rule κ τ α) (k : κ) (bol : Bool) (s : List α) : Option ℕ :=
  if r.active k && (!r.bol || bol) then (r.pattern.longest s).filter (0 < ·) else none

/-- The rule that fires, with the length of its match. -/
def best : List (Rule κ τ α) → κ → Bool → List α → Option (Rule κ τ α × ℕ)
  | [], _, _, _ => none
  | r :: rules, k, bol, s =>
    match r.length k bol s, best rules k bol s with
    | some n, some (r', m) => if m ≤ n then some (r, n) else some (r', m)
    | some n, none => some (r, n)
    | none, b => b

/-! ### The rule that fires -/

theorem Rule.length_eq_some {r : Rule κ τ α} {k : κ} {bol : Bool} {s : List α} {n : ℕ}
    (h : r.length k bol s = some n) :
    r.active k = true ∧ (r.bol = true → bol = true) ∧ r.pattern.longest s = some n ∧ 0 < n := by
  unfold Rule.length at h
  split at h
  · next hc =>
    obtain ⟨hn, hpos⟩ := Option.filter_eq_some_iff.1 h
    simp only [Bool.and_eq_true, Bool.or_eq_true, Bool.not_eq_true'] at hc
    refine ⟨hc.1, fun hb => ?_, hn, by simpa using hpos⟩
    rcases hc.2 with h0 | h1
    · rw [hb] at h0; cases h0
    · exact h1
  · cases h

theorem Rule.length_of_longest {r : Rule κ τ α} {k : κ} {bol : Bool} {s : List α} {n : ℕ}
    (hk : r.active k = true) (hb : r.bol = true → bol = true)
    (hn : r.pattern.longest s = some n) (hpos : 0 < n) : r.length k bol s = some n := by
  have hc : (r.active k && (!r.bol || bol)) = true := by
    cases h : r.bol <;> simp_all
  rw [Rule.length, if_pos hc, hn]
  simp [Option.filter, hpos]

/-- A rule of which no word begins the input has no match. -/
theorem Rule.length_eq_none {r : Rule κ τ α} {k : κ} {bol : Bool} {s : List α}
    (h : ∀ w v, w ++ v = s → w ≠ [] → w ∉ r.pattern.lang) : r.length k bol s = none := by
  cases hr : r.length k bol s with
  | none => rfl
  | some n =>
    obtain ⟨-, -, hlong, hpos⟩ := Rule.length_eq_some hr
    obtain ⟨hle, hmem⟩ := Pattern.take_mem_of_longest hlong
    refine absurd hmem (h _ _ (List.take_append_drop n s) fun h0 => ?_)
    have := congrArg List.length h0
    rw [List.length_take, List.length_nil] at this
    omega

theorem Rule.length_of_inactive {r : Rule κ τ α} {k : κ} {bol : Bool} {s : List α}
    (h : r.active k = false) : r.length k bol s = none := by
  rw [Rule.length, h]; rfl

theorem Rule.length_of_anchored {r : Rule κ τ α} {k : κ} {s : List α} (h : r.bol = true) :
    r.length k false s = none := by
  rw [Rule.length, h]; simp

/-- The match is `u` when that is a word of the rule and no continuation of it is. -/
theorem Rule.length_append {r : Rule κ τ α} {k : κ} {bol : Bool} {u v : List α}
    (hk : r.active k = true) (hb : r.bol = true → bol = true) (hu : u ∈ r.pattern.lang)
    (hne : u ≠ []) (hmax : ∀ x y, x ≠ [] → x ++ y = v → u ++ x ∉ r.pattern.lang) :
    r.length k bol (u ++ v) = some u.length :=
  r.length_of_longest hk hb (Pattern.longest_append hu hmax) (List.length_pos_iff.2 hne)

theorem best_mem {rules : List (Rule κ τ α)} {k : κ} {bol : Bool} {s : List α}
    {r : Rule κ τ α} {n : ℕ} (h : best rules k bol s = some (r, n)) :
    r ∈ rules ∧ r.length k bol s = some n := by
  induction rules with
  | nil => cases h
  | cons r' rules ih =>
    rw [best] at h
    split at h
    · next hr hb =>
      split at h
      · cases h; exact ⟨List.mem_cons_self .., hr⟩
      · cases h; exact ⟨List.mem_cons_of_mem _ (ih hb).1, (ih hb).2⟩
    · next hr _ => cases h; exact ⟨List.mem_cons_self .., hr⟩
    · exact ⟨List.mem_cons_of_mem _ (ih h).1, (ih h).2⟩

theorem best_length {rules : List (Rule κ τ α)} {k : κ} {bol : Bool} {s : List α}
    {r : Rule κ τ α} {n : ℕ} (h : best rules k bol s = some (r, n)) : 0 < n ∧ n ≤ s.length := by
  obtain ⟨-, -, hlong, hpos⟩ := Rule.length_eq_some (best_mem h).2
  exact ⟨hpos, (Pattern.take_mem_of_longest hlong).1⟩

/-! ### Scanning -/

/-- A scanner: its rules, and the character after which a line begins. -/
structure Scanner (κ τ α : Type) where
  rules : List (Rule κ τ α)
  newline : α

variable [DecidableEq α]

/-- The tokens of the input `s`, scanned from start condition `k`, with at most `fuel` matches. -/
def Scanner.run (sc : Scanner κ τ α) : ℕ → κ → Bool → List α → List τ
  | 0, _, _, _ => []
  | _ + 1, _, _, [] => []
  | fuel + 1, k, bol, c :: s =>
    match best sc.rules k bol (c :: s) with
    | some (r, n) =>
      let text := (c :: s).take n
      let (tok, k') := r.action text k
      tok.toList ++ sc.run fuel k' (text.getLast? = some sc.newline) ((c :: s).drop n)
    | none => sc.run fuel k (c = sc.newline) s

/-- The tokens of the input `s` from start condition `k`; every match takes at least one
character, so the length of the input is fuel enough. -/
def Scanner.tokensFrom (sc : Scanner κ τ α) (k : κ) (bol : Bool) (s : List α) : List τ :=
  sc.run s.length k bol s

/-! ### Steps of a scan -/

namespace Scanner

variable (sc : Scanner κ τ α)

/-- More fuel than characters changes nothing. -/
theorem run_of_le {fuel : ℕ} {k : κ} {bol : Bool} {s : List α} (h : s.length ≤ fuel) :
    sc.run fuel k bol s = sc.tokensFrom k bol s := by
  unfold tokensFrom
  induction fuel using Nat.strong_induction_on generalizing k bol s with
  | _ fuel ih =>
    cases s with
    | nil => cases fuel <;> rfl
    | cons c s =>
      obtain ⟨fuel, rfl⟩ : ∃ f, fuel = f + 1 := ⟨fuel - 1, by simp at h; omega⟩
      simp only [List.length_cons, Nat.add_le_add_iff_right] at h ⊢
      rw [run, run]
      cases hb : best sc.rules k bol (c :: s) with
      | none =>
        simp only
        rw [ih fuel (Nat.lt_succ_self _) h]
      | some p =>
        obtain ⟨hpos, hle⟩ := best_length (r := p.1) (n := p.2) hb
        simp only [List.length_cons] at hle
        have hdrop : ((c :: s).drop p.2).length ≤ s.length := by simp; omega
        simp only
        rw [ih fuel (Nat.lt_succ_self _) (hdrop.trans h)]
        rw [ih s.length (by omega) hdrop]

/-- A rule that fires on the text `u` passes it to its action and goes on behind it. -/
theorem tokensFrom_rule {k : κ} {bol : Bool} {u v : List α} {r : Rule κ τ α}
    (h : best sc.rules k bol (u ++ v) = some (r, u.length)) :
    sc.tokensFrom k bol (u ++ v) = (r.action u k).1.toList ++
      sc.tokensFrom (r.action u k).2 (u.getLast? = some sc.newline) v := by
  obtain ⟨hpos, -⟩ := best_length h
  obtain ⟨c, u, rfl⟩ := List.exists_cons_of_length_pos hpos
  rw [tokensFrom, List.cons_append, List.length_cons, run, ← List.cons_append, h]
  simp only [List.take_left', List.drop_left']
  rw [run_of_le sc (by simp)]

/-- Where no rule matches, one character is skipped. -/
theorem tokensFrom_default {k : κ} {bol : Bool} {c : α} {s : List α}
    (h : best sc.rules k bol (c :: s) = none) :
    sc.tokensFrom k bol (c :: s) = sc.tokensFrom k (c = sc.newline) s := by
  rw [tokensFrom, List.length_cons, run, h]
  rfl

end Scanner

end Flex
