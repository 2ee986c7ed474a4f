import Mathlib.Data.List.SplitBy

/-!
# Runs in a list

A list over an arbitrary type and the elements that `p` picks out.

* `Apart p`, the lists in which no two neighbours are picked;
* `squeeze p`, which replaces every maximal run of picked elements by its last one, and
  `squeeze_cons`, its recursion;
* `squeeze_append_cons_cons`: of two picked neighbours the first one may be dropped;
* `apart_squeeze` and `squeeze_of_apart`: what is left has no such neighbours, and lists without
  them stay as they are.
-/

namespace Runs

variable {α : Type} {p : α → Bool} {a b : α} {l : List α}

/-- No two neighbours are picked. -/
def Apart (p : α → Bool) (l : List α) : Prop := l.IsChain fun a b => (p a && p b) = false

/-- Every maximal run of picked elements is replaced by its last one; the other elements are runs of
their own. -/
def squeeze (p : α → Bool) (l : List α) : List α :=
  (l.splitBy fun a b => p a && p b).filterMap List.getLast?

/-! ### Recursion -/

theorem splitBy_cons_cons (h : (p a && p b) = true) (l : List α) :
    ∃ g gs, (b :: l).splitBy (fun a b => p a && p b) = g :: gs ∧ g ≠ [] ∧
      (a :: b :: l).splitBy (fun a b => p a && p b) = (a :: g) :: gs := by
  cases hs : (b :: l).splitBy fun a b => p a && p b with
  | nil => exact absurd (List.splitBy_eq_nil.1 hs) (List.cons_ne_nil b l)
  | cons g gs =>
    obtain ⟨hflat, hnil, hchain, hbound⟩ := List.splitBy_eq_iff.1 hs
    have hg : g ≠ [] := fun hg => hnil (hg ▸ List.mem_cons_self ..)
    obtain ⟨c, g, rfl⟩ := List.exists_cons_of_ne_nil hg
    obtain rfl : b = c := by simpa using congrArg List.head? hflat
    refine ⟨b :: g, gs, rfl, hg, List.splitBy_eq_iff.2 ⟨by rw [hflat]; simp, ?_, ?_, ?_⟩⟩
    · simpa using hnil
    · rw [List.forall_mem_cons] at hchain ⊢
      exact ⟨List.isChain_cons_cons.2 ⟨h, hchain.1⟩, hchain.2⟩
    · cases gs with
      | nil => exact List.isChain_singleton _
      | cons k gs =>
        rw [List.isChain_cons_cons] at hbound ⊢
        obtain ⟨⟨ha, hb, hlast⟩, hrest⟩ := hbound
        exact ⟨⟨List.cons_ne_nil _ _, hb, by rwa [List.getLast_cons ha]⟩, hrest⟩

theorem squeeze_cons (a : α) (l : List α) :
    squeeze p (a :: l) = if p a && l.head?.any p then squeeze p l else a :: squeeze p l := by
  cases l with
  | nil => simp [squeeze, List.splitBy, List.splitBy.loop]
  | cons b l =>
    rw [List.head?_cons, Option.any_some]
    split_ifs with h
    · obtain ⟨g, gs, hs, hg, hs'⟩ := splitBy_cons_cons h l
      obtain ⟨c, g, rfl⟩ := List.exists_cons_of_ne_nil hg
      simp only [squeeze, hs, hs', List.filterMap_cons, List.getLast?_cons_cons]
    · have hsplit := List.splitBy_append_cons (r := fun a b => p a && p b) (l := [a]) (a := b) l
        (by simpa using h)
      have hone : [a].splitBy (fun a b => p a && p b) = [[a]] := rfl
      rw [List.singleton_append, hone] at hsplit
      simp only [squeeze, hsplit, List.filterMap_append]
      rfl

/-! ### What is left -/

/-- Of two picked neighbours the first one may be dropped. -/
theorem squeeze_append_cons_cons (ha : p a = true) (hb : p b = true) (l r : List α) :
    squeeze p (l ++ a :: b :: r) = squeeze p (l ++ b :: r) := by
  induction l with
  | nil => simp [squeeze_cons a, ha, hb]
  | cons c l ih =>
    have hhead : (l ++ a :: b :: r).head?.any p = (l ++ b :: r).head?.any p := by
      cases l with
      | nil => simp [ha, hb]
      | cons d l => rfl
    rw [List.cons_append, List.cons_append, squeeze_cons, squeeze_cons, ih, hhead]

/-- A picked element comes first just when one did before. -/
theorem head?_squeeze (l : List α) : (squeeze p l).head?.any p = l.head?.any p := by
  induction l with
  | nil => rfl
  | cons a l ih =>
    rw [squeeze_cons]
    split_ifs with h
    · obtain ⟨ha, hl⟩ := Bool.and_eq_true_iff.1 h
      rw [ih, hl, List.head?_cons, Option.any_some, ha]
    · rfl

theorem apart_cons : Apart p (a :: l) ↔ (p a && l.head?.any p) = false ∧ Apart p l := by
  cases l with
  | nil => simp [Apart]
  | cons b l => simp [Apart, List.isChain_cons_cons]

theorem apart_concat : Apart p (l ++ [a]) ↔ Apart p l ∧ (l.getLast?.any p && p a) = false := by
  unfold Apart
  rw [List.isChain_append]
  cases l.getLast? with
  | none => simp
  | some b => simp

/-- No two neighbours are left. -/
theorem apart_squeeze (l : List α) : Apart p (squeeze p l) := by
  induction l with
  | nil => exact List.isChain_nil
  | cons a l ih =>
    rw [squeeze_cons]
    split_ifs with h
    · exact ih
    · rw [apart_cons, head?_squeeze]
      exact ⟨Bool.eq_false_iff.2 h, ih⟩

theorem squeeze_of_apart (h : Apart p l) : squeeze p l = l := by
  induction l with
  | nil => rfl
  | cons a l ih =>
    obtain ⟨ha, hl⟩ := apart_cons.1 h
    rw [squeeze_cons, if_neg (Bool.eq_false_iff.1 ha), ih hl]

/-- Nothing is added. -/
theorem squeeze_sublist (l : List α) : (squeeze p l).Sublist l := by
  induction l with
  | nil => exact List.Sublist.slnil
  | cons a l ih =>
    rw [squeeze_cons]
    split_ifs
    · exact ih.cons a
    · exact ih.cons_cons a

end Runs
