import Mailfilter.CString
import Mathlib.Data.Int.ModEq

/-!
# Numbers at the front of a text

What `strtol` and `atoi` read: white space, perhaps a sign, digits, and then whatever is left.

* `Begins`, a text and the number that it begins with, which is 0 if there are no digits;
  `exists_begins`: every text begins with a number;
* `strtol_of_begins`: `strtol` finds the number, within the range of a `long`;
* `toInt_atoi`: `atoi` keeps its last 32 bits.
-/

namespace Mailfilter

/-- A text begins with a number. -/
inductive Begins : Bytes → ℤ → Prop
  /-- There is no sign. -/
  | plain {white digits rest : Bytes} (hwhite : ∀ c ∈ white, isspace c = true)
      (hdigits : ∀ c ∈ digits, isdigit c = true) (hrest : ∀ c ∈ rest.head?, isdigit c = false)
      (hnone : digits = [] → ∀ c ∈ rest.head?, isspace c = false ∧ c ≠ chr '-' ∧ c ≠ chr '+') :
      Begins (white ++ (digits ++ rest)) (digitsValue digits)
  | plus {white digits rest : Bytes} (hwhite : ∀ c ∈ white, isspace c = true)
      (hdigits : ∀ c ∈ digits, isdigit c = true) (hrest : ∀ c ∈ rest.head?, isdigit c = false) :
      Begins (white ++ chr '+' :: (digits ++ rest)) (digitsValue digits)
  | minus {white digits rest : Bytes} (hwhite : ∀ c ∈ white, isspace c = true)
      (hdigits : ∀ c ∈ digits, isdigit c = true) (hrest : ∀ c ∈ rest.head?, isdigit c = false) :
      Begins (white ++ chr '-' :: (digits ++ rest)) (-(digitsValue digits : ℤ))

/-- The number that is nearest within the range of a `long`. -/
def long (v : ℤ) : ℤ := max (-2 ^ 63) (min v (2 ^ 63 - 1))

variable {s t : Bytes} {v : ℤ}

/-! ### Characters -/

/-- A digit is neither a blank nor a sign. -/
theorem isspace_of_isdigit {c : UInt8} (h : isdigit c = true) :
    isspace c = false ∧ c ≠ chr '-' ∧ c ≠ chr '+' := by
  have hc : 48 ≤ c ∧ c ≤ 57 := by simpa [isdigit] using h
  have hlow : 48 ≤ c.toNat := UInt8.le_iff_toNat_le.1 hc.1
  refine ⟨?_, ?_, ?_⟩
  · have hhigh : ¬c ≤ 13 := fun h13 => by
      have hle : c.toNat ≤ 13 := UInt8.le_iff_toNat_le.1 h13
      omega
    have hne : c ≠ 32 := by
      rintro rfl
      exact absurd hlow (by decide)
    simp [isspace, hhigh, hne]
  all_goals
    rintro rfl
    exact absurd hlow (by decide)

/-- A blank is no digit. -/
theorem isdigit_of_isspace {c : UInt8} (h : isspace c = true) : isdigit c = false := by
  cases hc : isdigit c with
  | false => rfl
  | true => exact absurd h (by simp [(isspace_of_isdigit hc).1])

theorem digitsValue_append {digits rest : Bytes} (hdigits : ∀ c ∈ digits, isdigit c = true)
    (hrest : ∀ c ∈ rest.head?, isdigit c = false) :
    digitsValue (digits ++ rest) = digitsValue digits := by
  have htake : rest.takeWhile isdigit = [] := by
    cases rest with
    | nil => rfl
    | cons c rest => exact List.takeWhile_cons_of_neg (by simp [hrest c rfl])
  unfold digitsValue
  rw [List.takeWhile_append_of_pos hdigits, htake, List.append_nil,
    List.takeWhile_eq_self_iff.2 hdigits]

/-! ### What is read -/

/-- `strtol` finds the number that a text begins with. -/
theorem strtol_of_begins (h : Begins t v) : strtol t = long v := by
  cases h with
  | @plain white digits rest hwhite hdigits hrest hnone =>
    have hvalue := digitsValue_append hdigits hrest
    -- what is behind the white space begins with neither a blank nor a sign
    have hhead : ∀ c ∈ (digits ++ rest).head?, isspace c = false ∧ c ≠ chr '-' ∧ c ≠ chr '+' := by
      intro c hc
      cases digits with
      | nil => exact hnone rfl c hc
      | cons d digits =>
        cases hc
        exact isspace_of_isdigit (hdigits _ (List.mem_cons_self ..))
    unfold strtol long
    rw [List.dropWhile_append_of_pos hwhite]
    rcases hcut : digits ++ rest with _ | ⟨c, r⟩
    · rw [hcut] at hvalue
      rw [← hvalue]
      rfl
    · rw [hcut] at hvalue hhead
      obtain ⟨hspace, hminus, hplus⟩ := hhead c rfl
      rw [List.dropWhile_cons_of_neg (by simp [hspace]), ← hvalue]
      simp only [hminus, hplus, if_false]
  | plus hwhite hdigits hrest =>
    have hne : chr '+' ≠ chr '-' := by decide
    unfold strtol long
    rw [List.dropWhile_append_of_pos hwhite, List.dropWhile_cons_of_neg (by decide)]
    simp only [if_neg hne, if_true, digitsValue_append hdigits hrest]
  | minus hwhite hdigits hrest =>
    unfold strtol long
    rw [List.dropWhile_append_of_pos hwhite, List.dropWhile_cons_of_neg (by decide)]
    simp only [if_true, digitsValue_append hdigits hrest]

/-- The first byte that a class does not have. -/
theorem eq_false_of_mem_head? {p : UInt8 → Bool} {c : UInt8} (h : c ∈ (s.dropWhile p).head?) :
    p c = false := by
  have hnot := List.head?_dropWhile_not p s
  rw [Option.mem_def.1 h] at hnot
  simpa using hnot

/-- Every text begins with a number. -/
theorem exists_begins (t : Bytes) : ∃ v, Begins t v := by
  have hwhite : ∀ c ∈ t.takeWhile isspace, isspace c = true := fun c hc => List.mem_takeWhile_imp hc
  have hdigits : ∀ (r : Bytes), ∀ c ∈ r.takeWhile isdigit, isdigit c = true :=
    fun r c hc => List.mem_takeWhile_imp hc
  have hrest : ∀ (r : Bytes), ∀ c ∈ (r.dropWhile isdigit).head?, isdigit c = false :=
    fun r c hc => eq_false_of_mem_head? hc
  rw [← List.takeWhile_append_dropWhile (p := isspace) (l := t)]
  by_cases hsign : (t.dropWhile isspace).head? = some (chr '-') ∨
    (t.dropWhile isspace).head? = some (chr '+')
  · rcases hsign with hsign | hsign <;> obtain ⟨r, hr⟩ := List.head?_eq_some_iff.1 hsign
    · rw [hr, ← List.takeWhile_append_dropWhile (p := isdigit) (l := r)]
      exact ⟨_, .minus hwhite (hdigits r) (hrest r)⟩
    · rw [hr, ← List.takeWhile_append_dropWhile (p := isdigit) (l := r)]
      exact ⟨_, .plus hwhite (hdigits r) (hrest r)⟩
  · obtain ⟨hminus, hplus⟩ := not_or.1 hsign
    have hspace : ∀ c ∈ (t.dropWhile isspace).head?, isspace c = false :=
      fun c hc => eq_false_of_mem_head? hc
    generalize t.dropWhile isspace = r at hminus hplus hspace
    have hcut := List.takeWhile_append_dropWhile (p := isdigit) (l := r)
    rw [← hcut]
    refine ⟨digitsValue (r.takeWhile isdigit), .plain hwhite (hdigits r) (hrest r) ?_⟩
    intro hnone c hc
    rw [hnone, List.nil_append] at hcut
    rw [hcut] at hc
    refine ⟨hspace c hc, ?_, ?_⟩ <;> rintro rfl
    · exact hminus hc
    · exact hplus hc

theorem begins_decimal (n : ℕ) : Begins (decimal n) n := by
  have hwhite : ∀ c ∈ ([] : Bytes), isspace c = true := List.forall_mem_nil _
  have hdigits : ∀ c ∈ decimal n, isdigit c = true := fun c hc => decimal_isdigit hc
  have hrest : ∀ c ∈ ([] : Bytes).head?, isdigit c = false := fun _ hc => nomatch hc
  have hvalue := digitsValue_decimal n hrest
  rw [List.append_nil] at hvalue
  have h := Begins.plain hwhite hdigits hrest fun hnil => absurd hnil (decimal_ne_nil n)
  rwa [hvalue, List.nil_append, List.append_nil] at h

/-- What comes before the digits has no NUL. -/
theorem cstr_append (hs : 0 ∉ s) (t : Bytes) : cstr (s ++ t) = s ++ cstr t :=
  List.takeWhile_append_of_pos fun c hc => by simpa using fun h : c = 0 => hs (h ▸ hc)

theorem mem_head?_cstr {c : UInt8} (h : c ∈ (cstr s).head?) : c ∈ s.head? := by
  cases s with
  | nil => exact h
  | cons d s =>
    by_cases hd : d = 0
    · simp [cstr, hd] at h
    · simpa [cstr, hd] using h

/-- A C function finds the same number. -/
theorem Begins.cstr (h : Begins t v) : Begins (cstr t) v := by
  have hspaces : ∀ {white : Bytes}, (∀ c ∈ white, isspace c = true) → 0 ∉ white :=
    fun hwhite h0 => absurd (hwhite 0 h0) (by decide)
  have hnumber : ∀ {digits : Bytes}, (∀ c ∈ digits, isdigit c = true) → 0 ∉ digits :=
    fun hdigits h0 => absurd (hdigits 0 h0) (by decide)
  cases h with
  | plain hwhite hdigits hrest hnone =>
    rw [cstr_append (hspaces hwhite), cstr_append (hnumber hdigits)]
    exact .plain hwhite hdigits (fun c hc => hrest c (mem_head?_cstr hc))
      fun h c hc => hnone h c (mem_head?_cstr hc)
  | @plus white digits rest hwhite hdigits hrest =>
    have hsign : 0 ∉ chr '+' :: digits := List.not_mem_cons_of_ne_of_not_mem (by decide) (hnumber hdigits)
    rw [cstr_append (hspaces hwhite), ← List.cons_append, cstr_append hsign]
    exact .plus hwhite hdigits fun c hc => hrest c (mem_head?_cstr hc)
  | @minus white digits rest hwhite hdigits hrest =>
    have hsign : 0 ∉ chr '-' :: digits := List.not_mem_cons_of_ne_of_not_mem (by decide) (hnumber hdigits)
    rw [cstr_append (hspaces hwhite), ← List.cons_append, cstr_append hsign]
    exact .minus hwhite hdigits fun c hc => hrest c (mem_head?_cstr hc)

/-- White space behind the text is not read. -/
theorem Begins.append_white (h : Begins t v) {w : Bytes} (hw : ∀ c ∈ w, isspace c = true) :
    Begins (t ++ w) v := by
  have hhead : ∀ {rest : Bytes}, (∀ c ∈ rest.head?, isdigit c = false) →
      ∀ c ∈ (rest ++ w).head?, isdigit c = false := by
    intro rest hrest c hc
    cases rest with
    | nil => exact isdigit_of_isspace (hw c (List.mem_of_mem_head? hc))
    | cons d rest => exact hrest c hc
  cases h with
  | @plain white digits rest hwhite hdigits hrest hnone =>
    by_cases hempty : digits ++ rest = []
    · obtain ⟨rfl, rfl⟩ := List.append_eq_nil_iff.1 hempty
      have hboth : ∀ c ∈ white ++ w, isspace c = true :=
        fun c hc => (List.mem_append.1 hc).elim (hwhite c) (hw c)
      have hnil : white ++ ([] ++ []) ++ w = (white ++ w) ++ ([] ++ []) := by simp
      rw [hnil]
      exact .plain hboth (fun _ hc => nomatch hc) (fun _ hc => nomatch hc) fun _ _ hc => nomatch hc
    · rw [List.append_assoc, List.append_assoc]
      refine .plain hwhite hdigits (hhead hrest) fun h c hc => ?_
      subst h
      obtain ⟨d, r, rfl⟩ := List.exists_cons_of_ne_nil hempty
      exact hnone rfl c hc
  | plus hwhite hdigits hrest =>
    rw [List.append_assoc, List.cons_append, List.append_assoc]
    exact .plus hwhite hdigits (hhead hrest)
  | minus hwhite hdigits hrest =>
    rw [List.append_assoc, List.cons_append, List.append_assoc]
    exact .minus hwhite hdigits (hhead hrest)

/-! ### The conversion to `int` -/

/-- `atoi` keeps the last 32 bits of a `long`. -/
theorem toInt_atoi (h : Begins t v) : (atoi (cstr t)).toInt = (long v).bmod (2 ^ 32) := by
  unfold atoi
  rw [strtol_of_begins h.cstr, Int32.toInt_ofInt]
  rfl

/-- A number within the range of `int` is read as it is. -/
theorem toInt_atoi_of_le (h : Begins t v) (hlow : -2 ^ 31 ≤ v) (hhigh : v < 2 ^ 31) :
    (atoi (cstr t)).toInt = v := by
  have hlong : long v = v := by
    unfold long
    omega
  rw [toInt_atoi h, hlong]
  exact Int.bmod_eq_of_le hlow hhigh

/-- The number that `atoi` returns is known by its last 32 bits. -/
theorem toInt_atoi_eq_iff (h : Begins t v) {m : ℤ} (hlow : -2 ^ 31 ≤ m) (hhigh : m < 2 ^ 31) :
    (atoi (cstr t)).toInt = m ↔ long v ≡ m [ZMOD 2 ^ 32] := by
  have hm : m.bmod (2 ^ 32) = m := Int.bmod_eq_of_le hlow hhigh
  rw [toInt_atoi h]
  constructor
  · intro heq
    rw [← heq]
    exact (Int.bmod_emod ..).symm
  · intro hmod
    have hlast : (long v % 2 ^ 32).bmod (2 ^ 32) = (m % 2 ^ 32).bmod (2 ^ 32) :=
      congrArg (Int.bmod · (2 ^ 32)) hmod
    exact (Int.emod_bmod ..).symm.trans (hlast.trans ((Int.emod_bmod ..).trans hm))

end Mailfilter
