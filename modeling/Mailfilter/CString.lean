import Mathlib.Data.List.TakeWhile
import Mathlib.Data.Nat.Digits.Defs
import Mathlib.Tactic.Common
import Mathlib.Tactic.IntervalCases

/-!
# Bytes, C strings and the C library

Strings are lists of bytes.  This file has the functions of the C and C++ libraries, and the
helpers of `mailfilter.cc`, that the program computes with:

* the character classes of the C locale (`isspace`, `isalpha`, …) and `toupper`;
* `cstr`: what a C function sees of a buffer, i.e. everything before the first NUL;
* `cmpNoCase` (`cmp_no_case`), `intToString` (`int_to_string` and the stream operator `<<`);
* `atoi`, with the saturation of `strtol` and the conversion to `int` (an `int` is an `Int32`
  wherever its width can matter);
* `extractWord` (`istream >> string`), `substrAfterLast`, `substrAfterFirst` and
  `substrBeforeLast`.
-/

namespace Mailfilter

/-- A string of the program. -/
abbrev Bytes := List UInt8

/-- A byte constant. -/
def chr (c : Char) : UInt8 := UInt8.ofNat c.toNat

/-- A string constant. -/
def bytes (s : String) : Bytes := s.toList.map chr

/-- The part of a buffer that a C function sees. -/
def cstr (b : Bytes) : Bytes := b.takeWhile (· ≠ 0)

/-! ### Characters -/

def isspace (c : UInt8) : Bool := c = 32 || (9 ≤ c && c ≤ 13)

def isupper (c : UInt8) : Bool := 65 ≤ c && c ≤ 90

def islower (c : UInt8) : Bool := 97 ≤ c && c ≤ 122

def isalpha (c : UInt8) : Bool := isupper c || islower c

def isdigit (c : UInt8) : Bool := 48 ≤ c && c ≤ 57

def isalnum (c : UInt8) : Bool := isalpha c || isdigit c

def toupper (c : UInt8) : UInt8 := if islower c then c - 32 else c

/-- The value of a byte as a signed `char`. -/
def schar (c : UInt8) : ℤ := if c < 128 then c.toNat else (c.toNat : ℤ) - 256

/-! ### Numbers -/

/-- The decimal digits of a natural number. -/
def decimal (n : ℕ) : Bytes :=
  if n = 0 then [48] else (Nat.digits 10 n).reverse.map fun d => UInt8.ofNat (48 + d)

/-- `int_to_string`, and what `ostr << n` appends. -/
def intToString (n : ℤ) : Bytes :=
  if n < 0 then chr '-' :: decimal n.natAbs else decimal n.toNat

/-- The value of the digits at the front of a string. -/
def digitsValue (s : Bytes) : ℕ :=
  (s.takeWhile isdigit).foldl (fun n c => 10 * n + (c.toNat - 48)) 0

/-- `strtol (s, NULL, 10)` for a 64-bit `long`. -/
def strtol (s : Bytes) : ℤ :=
  let value : ℤ :=
    match s.dropWhile isspace with
    | [] => 0
    | c :: r =>
      if c = chr '-' then -(digitsValue r : ℤ)
      else if c = chr '+' then digitsValue r
      else digitsValue (c :: r)
  max (-2 ^ 63) (min value (2 ^ 63 - 1))

def atoi (s : Bytes) : Int32 := Int32.ofInt (strtol s)

/-! ### Strings -/

/-- Comparison without regard to case: `0`, if no differences could be determined.  The sign, which
no caller looks at, is that of `toupper` as a `char`. -/
def cmpNoCase : Bytes → Bytes → ℤ
  | [], [] => 0
  | [], _ :: _ => -1
  | _ :: _, [] => 1
  | c :: s, c2 :: s2 =>
    if toupper c ≠ toupper c2 then (if schar (toupper c) < schar (toupper c2) then -1 else 1)
    else cmpNoCase s s2

/-- `response >> word`: skip white space, take a word.  At the end of the stream the word keeps
its old value. -/
def extractWord (s word : Bytes) : Bytes × Bytes :=
  match s.dropWhile isspace with
  | [] => (word, [])
  | s' => (s'.takeWhile (!isspace ·), s'.dropWhile (!isspace ·))

/-- `s.substr (s.find_last_of (c) + 1)`; the whole string when `c` does not occur. -/
def substrAfterLast (c : UInt8) (s : Bytes) : Bytes := (s.reverse.takeWhile (· ≠ c)).reverse

/-- `s.substr (s.find_first_of (c) + 1)`; the whole string when `c` does not occur. -/
def substrAfterFirst (c : UInt8) (s : Bytes) : Bytes :=
  match s.dropWhile (· ≠ c) with
  | [] => s
  | _ :: rest => rest

/-- `s.substr (0, s.find_last_of (c))`; the whole string when `c` does not occur. -/
def substrBeforeLast (c : UInt8) (s : Bytes) : Bytes :=
  match s.reverse.dropWhile (· ≠ c) with
  | [] => s
  | _ :: rest => rest.reverse

/-! ### Elementary facts -/

/-- A test of all characters of a string, one after the other. -/
theorem forall_of_all {P : UInt8 → Prop} [DecidablePred P] {s : Bytes}
    (h : (s.all fun c => P c) = true) : ∀ c ∈ s, P c := by
  simpa using h

theorem cstr_of_noNul {b : Bytes} (h : 0 ∉ b) : cstr b = b :=
  List.takeWhile_eq_self_iff.2 fun c hc => by
    have : c ≠ 0 := fun h0 => h (h0 ▸ hc)
    simpa using this

theorem substrBeforeLast_append {c : UInt8} {u v : Bytes} (hv : c ∉ v) :
    substrBeforeLast c (u ++ c :: v) = u := by
  have hrev : ∀ d ∈ v.reverse, decide (d ≠ c) = true := by
    intro d hd
    simpa using fun h : d = c => hv (h ▸ List.mem_reverse.1 hd)
  unfold substrBeforeLast
  rw [List.reverse_append, List.reverse_cons, List.append_assoc, List.dropWhile_append_of_pos hrev,
    List.singleton_append, List.dropWhile_cons_of_neg (by simp)]
  simp

theorem substrAfterLast_of_notMem {c : UInt8} {v : Bytes} (hv : c ∉ v) : substrAfterLast c v = v := by
  have hrev : ∀ d ∈ v.reverse, decide (d ≠ c) = true := by
    intro d hd
    simpa using fun h : d = c => hv (h ▸ List.mem_reverse.1 hd)
  unfold substrAfterLast
  rw [List.takeWhile_eq_self_iff.2 hrev, List.reverse_reverse]

theorem substrAfterLast_append_cons (c : UInt8) (u v : Bytes) :
    substrAfterLast c (u ++ c :: v) = substrAfterLast c v := by
  have hnil : (c :: u.reverse).takeWhile (fun d => decide (d ≠ c)) = [] :=
    List.takeWhile_cons_of_neg (by simp)
  unfold substrAfterLast
  rw [List.reverse_append, List.reverse_cons, List.append_assoc, List.singleton_append,
    List.takeWhile_append]
  split
  case isTrue hall =>
    have hself : v.reverse.takeWhile (fun d => decide (d ≠ c)) = v.reverse :=
      (List.takeWhile_prefix _).eq_of_length hall
    rw [hnil, List.append_nil, hself]
  case isFalse => rfl

theorem substrAfterLast_append {c : UInt8} {u v : Bytes} (hv : c ∉ v) :
    substrAfterLast c (u ++ c :: v) = v :=
  (substrAfterLast_append_cons c u v).trans (substrAfterLast_of_notMem hv)

theorem substrAfterLast_append_right {c : UInt8} (u : Bytes) {v : Bytes} (hv : c ∉ v) :
    substrAfterLast c (u ++ v) = substrAfterLast c u ++ v := by
  have hrev : ∀ d ∈ v.reverse, decide (d ≠ c) = true := by
    intro d hd
    simpa using fun h : d = c => hv (h ▸ List.mem_reverse.1 hd)
  unfold substrAfterLast
  rw [List.reverse_append, List.takeWhile_append_of_pos hrev, List.reverse_append,
    List.reverse_reverse]

/-- The stream finds a word between white space. -/
theorem extractWord_append {white w rest : Bytes} (hwhite : ∀ c ∈ white, isspace c = true)
    (hne : w ≠ []) (hw : ∀ c ∈ w, isspace c = false) (hrest : ∀ c ∈ rest.head?, isspace c = true)
    (word : Bytes) : extractWord (white ++ (w ++ rest)) word = (w, rest) := by
  have hpos : ∀ c ∈ w, (!isspace c) = true := fun c hc => by simp [hw c hc]
  have hend : rest.takeWhile (!isspace ·) = [] ∧ rest.dropWhile (!isspace ·) = rest := by
    cases rest with
    | nil => exact ⟨rfl, rfl⟩
    | cons c rest => simp [hrest c rfl]
  unfold extractWord
  rw [List.dropWhile_append_of_pos hwhite]
  obtain ⟨c, w', rfl⟩ := List.exists_cons_of_ne_nil hne
  rw [List.cons_append, List.dropWhile_cons_of_neg (by simp [hw c (List.mem_cons_self ..)])]
  dsimp only
  rw [← List.cons_append, List.takeWhile_append_of_pos hpos, List.dropWhile_append_of_pos hpos,
    hend.1, hend.2, List.append_nil]

theorem cmpNoCase_eq_zero_iff (s s2 : Bytes) :
    cmpNoCase s s2 = 0 ↔ s.map toupper = s2.map toupper := by
  induction s generalizing s2 with
  | nil => cases s2 <;> simp [cmpNoCase]
  | cons c s ih =>
    cases s2 with
    | nil => simp [cmpNoCase]
    | cons c2 s2 =>
      simp only [cmpNoCase, List.map_cons, List.cons.injEq]
      split_ifs with h1 h2
      · simp [h1]
      · simp [h1]
      · rw [ih]; simp [not_not.1 h1]

theorem digit_toNat {d : ℕ} (h : d < 10) : (UInt8.ofNat (48 + d)).toNat = 48 + d := by
  simp only [UInt8.toNat_ofNat']; omega

theorem isdigit_ofNat {d : ℕ} (h : d < 10) : isdigit (UInt8.ofNat (48 + d)) = true := by
  interval_cases d <;> rfl

theorem decimal_isdigit {n : ℕ} {c : UInt8} (h : c ∈ decimal n) : isdigit c = true := by
  unfold decimal at h
  split_ifs at h with hn
  · rw [List.mem_singleton.1 h]; rfl
  · obtain ⟨d, hd, rfl⟩ := List.mem_map.1 h
    exact isdigit_ofNat (Nat.digits_lt_base (by norm_num) (List.mem_reverse.1 hd))

/-- Reading a rendered number back. -/
theorem digitsValue_decimal (n : ℕ) {s : Bytes} (hs : ∀ c ∈ s.head?, isdigit c = false) :
    digitsValue (decimal n ++ s) = n := by
  have htake : (decimal n ++ s).takeWhile isdigit = decimal n := by
    rw [List.takeWhile_append_of_pos fun c hc => decimal_isdigit hc]
    cases s with
    | nil => simp
    | cons c s => simp [hs c rfl]
  have hfold : ∀ ds : List ℕ, (∀ d ∈ ds, d < 10) →
      (ds.reverse.map fun d => UInt8.ofNat (48 + d)).foldl
        (fun m c => 10 * m + (c.toNat - 48)) 0 = Nat.ofDigits 10 ds := by
    intro ds hds
    induction ds with
    | nil => rfl
    | cons d ds ih =>
      rw [List.reverse_cons, List.map_append, List.foldl_append,
        ih fun e he => hds e (List.mem_cons_of_mem _ he), Nat.ofDigits_cons]
      simp only [List.map_cons, List.map_nil, List.foldl_cons, List.foldl_nil]
      rw [digit_toNat (hds d (List.mem_cons_self ..))]
      omega
  rw [digitsValue, htake]
  unfold decimal
  split_ifs with hn
  · subst hn; rfl
  · rw [hfold _ fun d hd => Nat.digits_lt_base (by norm_num) hd, Nat.ofDigits_digits]

theorem not_mem_decimal {c : UInt8} (h : isdigit c = false) (n : ℕ) : c ∉ decimal n :=
  fun hc => absurd (decimal_isdigit hc) (by simp [h])

theorem decimal_ne_nil (n : ℕ) : decimal n ≠ [] := by
  unfold decimal
  split_ifs with hn
  · exact List.cons_ne_nil _ _
  · simpa [Nat.digits_ne_nil_iff_ne_zero] using hn

theorem atoi_decimal {n : ℕ} (hn : n < 2 ^ 31) {s : Bytes} (hs : ∀ c ∈ s.head?, isdigit c = false) :
    (atoi (decimal n ++ s)).toInt = n := by
  have hvalue := digitsValue_decimal n hs
  obtain ⟨c, r, hcr⟩ := List.exists_cons_of_ne_nil (decimal_ne_nil n)
  have hc : isdigit c = true := decimal_isdigit (hcr ▸ List.mem_cons_self ..)
  have hspace : isspace c = false := by
    cases h : isspace c with
    | false => rfl
    | true => simp [isspace, isdigit, UInt8.le_iff_toNat_le, ← UInt8.toNat_inj] at h hc; omega
  have hsign : ∀ d, isdigit d = false → c ≠ d := fun d hd h => absurd (h ▸ hc) (by simp [hd])
  rw [hcr, List.cons_append] at hvalue ⊢
  unfold atoi strtol
  rw [List.dropWhile_cons_of_neg (by simp [hspace])]
  simp only [if_neg (hsign (chr '-') rfl), if_neg (hsign (chr '+') rfl), hvalue]
  rw [min_eq_left (by omega), max_eq_right (by omega), Int32.toInt_ofInt_of_le (by omega) (by omega)]

end Mailfilter
