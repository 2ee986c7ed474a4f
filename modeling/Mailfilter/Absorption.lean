import Mathlib.Data.List.Basic
import Mathlib.Tactic.Common
import Mathlib.Tactic.Ring

/-!
# Absorbing a message block by block

An iterated hash reads a message in blocks of `n` elements and carries a chaining value from block
to block.  A program that is given the message in pieces keeps what does not fill a block yet.

* `blocks`, the whole blocks of a message, and `residue`, what is left of it;
* `absorb`, the chaining value after the whole blocks;
* `absorb_append` and `residue_append`: a message can be absorbed in two pieces, when the residue of
  the first is put in front of the second;
* `absorb_block` and `absorb_short`, which run `absorb` on a message from the front.
-/

namespace Absorption

variable {α σ : Type*} {n : ℕ}

/-- The whole blocks of `n` elements of a message. -/
def blocks (n : ℕ) (l : List α) : List (List α) :=
  (List.range (l.length / n)).map fun i => (l.drop (i * n)).take n

/-- What remains behind the whole blocks. -/
def residue (n : ℕ) (l : List α) : List α := l.drop (l.length / n * n)

/-- The chaining value after the whole blocks of a message. -/
def absorb (n : ℕ) (f : σ → List α → σ) (s : σ) (l : List α) : σ := (blocks n l).foldl f s

theorem length_of_mem_blocks {l b : List α} (h : b ∈ blocks n l) : b.length = n := by
  obtain ⟨i, hi, rfl⟩ := List.mem_map.mp h
  have hle : (i + 1) * n ≤ l.length :=
    le_trans (Nat.mul_le_mul_right n (List.mem_range.mp hi)) (Nat.div_mul_le_self _ _)
  rw [Nat.add_mul, Nat.one_mul] at hle
  simp only [List.length_take, List.length_drop]
  omega

theorem length_residue (l : List α) : (residue n l).length = l.length % n := by
  rw [residue, List.length_drop, Nat.mod_eq_sub_div_mul]

theorem length_residue_lt (hn : 0 < n) (l : List α) : (residue n l).length < n := by
  rw [length_residue]
  exact Nat.mod_lt _ hn

theorem blocks_short {l : List α} (h : l.length < n) : blocks n l = [] := by
  simp [blocks, Nat.div_eq_of_lt h]

theorem residue_short {l : List α} (h : l.length < n) : residue n l = l := by
  simp [residue, Nat.div_eq_of_lt h]

/-- A block in front of a message is its first. -/
theorem blocks_block (hn : 0 < n) {b : List α} (hb : b.length = n) (l : List α) :
    blocks n (b ++ l) = b :: blocks n l := by
  have hcount : (b ++ l).length / n = l.length / n + 1 := by
    rw [List.length_append, hb, Nat.add_div_left _ hn]
  rw [blocks, hcount, List.range_succ_eq_map, List.map_cons, List.map_map]
  congr 1
  · simp [← hb]
  · refine List.map_congr_left fun i _ => ?_
    have hdrop : (i + 1) * n = b.length + i * n := by rw [hb]; ring
    simp only [Function.comp_apply, Nat.succ_eq_add_one, hdrop, ← List.drop_drop,
      List.drop_left]

theorem residue_block (hn : 0 < n) {b : List α} (hb : b.length = n) (l : List α) :
    residue n (b ++ l) = residue n l := by
  have hcount : (b ++ l).length / n * n = b.length + l.length / n * n := by
    rw [List.length_append, hb, Nat.add_div_left _ hn]
    ring
  rw [residue, hcount, ← List.drop_drop, List.drop_left, residue]

/-- Whole blocks and the residue make up the message. -/
theorem flatten_blocks (hn : 0 < n) (l : List α) : (blocks n l).flatten ++ residue n l = l := by
  induction h : l.length / n generalizing l with
  | zero =>
    have hshort : l.length < n := (Nat.div_eq_zero_iff_lt hn).mp h
    rw [blocks_short hshort, residue_short hshort, List.flatten_nil, List.nil_append]
  | succ k ih =>
    have hlong : n ≤ l.length := by
      by_contra hshort
      rw [Nat.div_eq_of_lt (Nat.lt_of_not_le hshort)] at h
      exact absurd h (Nat.succ_ne_zero k).symm
    have hb : (l.take n).length = n := List.length_take_of_le hlong
    have hk : (l.drop n).length / n = k := by
      rw [Nat.div_eq_sub_div hn hlong] at h
      rw [List.length_drop]
      exact Nat.succ.inj h
    conv_lhs => rw [← List.take_append_drop n l]
    rw [blocks_block hn hb, residue_block hn hb, List.flatten_cons, List.append_assoc,
      ih _ hk, List.take_append_drop]

section Absorb

variable (f : σ → List α → σ) (s : σ)

theorem absorb_short {l : List α} (h : l.length < n) : absorb n f s l = s := by
  rw [absorb, blocks_short h, List.foldl_nil]

theorem absorb_block (hn : 0 < n) {b : List α} (hb : b.length = n) (l : List α) :
    absorb n f s (b ++ l) = absorb n f (f s b) l := by
  rw [absorb, blocks_block hn hb, List.foldl_cons, absorb]

/-- Whole blocks in front of a message are absorbed first. -/
theorem absorb_flatten (hn : 0 < n) {bs : List (List α)} (hbs : ∀ b ∈ bs, b.length = n)
    (l : List α) : absorb n f s (bs.flatten ++ l) = absorb n f (bs.foldl f s) l := by
  induction bs generalizing s with
  | nil => rfl
  | cons b bs ih =>
    rw [List.flatten_cons, List.append_assoc, absorb_block f s hn (hbs b List.mem_cons_self),
      ih _ fun b' hb' => hbs b' (List.mem_cons_of_mem b hb'), List.foldl_cons]

theorem residue_flatten (hn : 0 < n) {bs : List (List α)} (hbs : ∀ b ∈ bs, b.length = n)
    (l : List α) : residue n (bs.flatten ++ l) = residue n l := by
  induction bs with
  | nil => rfl
  | cons b bs ih =>
    rw [List.flatten_cons, List.append_assoc, residue_block hn (hbs b List.mem_cons_self),
      ih fun b' hb' => hbs b' (List.mem_cons_of_mem b hb')]

/-- A message can be absorbed in two pieces. -/
theorem absorb_append (hn : 0 < n) (l m : List α) :
    absorb n f s (l ++ m) = absorb n f (absorb n f s l) (residue n l ++ m) := by
  conv_lhs => rw [← flatten_blocks hn l]
  rw [List.append_assoc, absorb_flatten f s hn fun b => length_of_mem_blocks, ← absorb]

theorem residue_append (hn : 0 < n) (l m : List α) :
    residue n (l ++ m) = residue n (residue n l ++ m) := by
  conv_lhs => rw [← flatten_blocks hn l]
  rw [List.append_assoc, residue_flatten hn fun b => length_of_mem_blocks]

end Absorb

end Absorption
