import Mailfilter.Header
import Mailfilter.Runs

/-!
# Normalised subjects

What the two loops of `set_normal_subject` come to.  They edit the string in place, and the index
goes forwards and backwards.

* `plain`, the plain definition: the characters of other kinds are dropped, and of the white space
  that then stands together the last character is kept;
* `eraseSpacesChecked` and `normaliseChecked`, the loops with an `erase` that fails outside the
  string, and with rounds that must suffice;
* `Cleaned`, what holds of the string in front of the index and behind it;
* `normaliseChecked_eq`: the loops end, and what they leave is the plain definition;
* `setNormalSubject_plain`, with what follows from it.
-/

namespace Mailfilter

open Runs

/-! ### The plain definition -/

/-- The characters that normalisation keeps. -/
def keeps (c : UInt8) : Bool := isalpha c || isspace c || c = chr '@' || isdigit c

/-- The characters that are kept, with every run of white space among them replaced by its last
character. -/
def plain (s : Bytes) : Bytes := squeeze isspace (s.filter keeps)

theorem keeps_of_isspace {c : UInt8} (h : isspace c = true) : keeps c = true := by
  simp [keeps, h]

/-- The test of the outer loop. -/
theorem keeps_eq_false_iff {c : UInt8} :
    (!isalpha c && !isspace c && c ≠ chr '@' && !isdigit c) = true ↔ keeps c = false := by
  simp [keeps, and_assoc]

/-- Characters that are not kept do not matter. -/
theorem plain_append_cons {c : UInt8} (h : keeps c = false) (l r : Bytes) :
    plain (l ++ c :: r) = plain (l ++ r) := by
  simp [plain, h]

/-- Nor does the first of two white space characters. -/
theorem plain_append_cons_cons {c d : UInt8} (hc : isspace c = true) (hd : isspace d = true)
    (l r : Bytes) : plain (l ++ c :: d :: r) = plain (l ++ d :: r) := by
  have hcut := squeeze_append_cons_cons hc hd (l.filter keeps) (r.filter keeps)
  simpa [plain, keeps_of_isspace hc, keeps_of_isspace hd] using hcut

theorem keeps_of_mem_plain {s : Bytes} : ∀ c ∈ plain s, keeps c = true :=
  fun _ hc => (List.mem_filter.1 ((squeeze_sublist _).mem hc)).2

/-- Strings that are clean stay as they are. -/
theorem plain_of_apart {s : Bytes} (hkeep : ∀ c ∈ s, keeps c = true) (h : Apart isspace s) :
    plain s = s := by
  rw [plain, List.filter_eq_self.2 hkeep, squeeze_of_apart h]

/-! ### The loops -/

/-- `ssubject.erase (i, 1)`, which must not reach outside the string. -/
def eraseChecked (s : Bytes) (i : ℕ) : Option Bytes :=
  if i < s.length then some (s.eraseIdx i) else none

/-- The inner loop: the rounds must suffice. -/
def eraseSpacesChecked (i : ℕ) : ℕ → Bytes → Option Bytes
  | 0, _ => none
  | fuel + 1, s =>
    if isspace (charAt s i) && isspace (charAt s (i + 1)) && i < s.length then do
      let s ← eraseChecked s i
      eraseSpacesChecked i fuel s
    else some s

/-- The outer loop. -/
def normaliseChecked : ℕ → ℕ → Bytes → Option Bytes
  | 0, _, _ => none
  | fuel + 1, i, s =>
    if i < s.length then do
      let s ← eraseSpacesChecked i s.length s
      if !isalpha (charAt s i) && !isspace (charAt s i) && charAt s i ≠ chr '@'
          && !isdigit (charAt s i) then do
        let s ← eraseChecked s i
        normaliseChecked fuel (i - if 0 < i then 1 else 0) s
      else normaliseChecked fuel (i + 1) s
    else some s

theorem eraseSpaces_of_checked {i fuel : ℕ} {s t : Bytes}
    (h : eraseSpacesChecked i fuel s = some t) : eraseSpaces i fuel s = t := by
  induction fuel generalizing s with
  | zero => cases h
  | succ fuel ih =>
    rw [eraseSpacesChecked] at h
    rw [eraseSpaces]
    split_ifs at h ⊢ with hspace
    · obtain ⟨u, hu, h⟩ := Option.bind_eq_some_iff.1 h
      unfold eraseChecked at hu
      split_ifs at hu
      cases hu
      exact ih h
    · exact Option.some.inj h

/-- Where the checks hold, the loops are those of the source. -/
theorem normalise_of_checked {fuel i : ℕ} {s t : Bytes}
    (h : normaliseChecked fuel i s = some t) : normalise fuel i s = t := by
  induction fuel generalizing i s with
  | zero => cases h
  | succ fuel ih =>
    rw [normaliseChecked] at h
    rw [normalise]
    by_cases hi : i < s.length
    · rw [if_pos hi] at h ⊢
      obtain ⟨u, hu, h⟩ := Option.bind_eq_some_iff.1 h
      simp only [eraseSpaces_of_checked hu]
      split at h
      next hdrop =>
        obtain ⟨v, hv, h⟩ := Option.bind_eq_some_iff.1 h
        rw [if_pos hdrop]
        unfold eraseChecked at hv
        split_ifs at hv
        cases hv
        exact ih h
      next hkeep =>
        rw [if_neg hkeep]
        exact ih h
    · rw [if_neg hi] at h ⊢
      exact Option.some.inj h

/-! ### In front of the index and behind it -/

theorem charAt_append (l r : Bytes) (i : ℕ) : charAt (l ++ r) (l.length + i) = charAt r i := by
  simp [charAt, List.getD_eq_getElem?_getD, List.getElem?_append_right]

theorem charAt_length (l : Bytes) (c : UInt8) (r : Bytes) : charAt (l ++ c :: r) l.length = c :=
  charAt_append l (c :: r) 0

theorem eraseChecked_append (l : Bytes) (c : UInt8) (r : Bytes) :
    eraseChecked (l ++ c :: r) l.length = some (l ++ r) := by
  simp [eraseChecked, List.eraseIdx_append_of_length_le]

/-- The test for white space on both places; behind the end there is none. -/
theorem isspace_next (l : Bytes) (c : UInt8) (r : Bytes) :
    isspace (charAt (l ++ c :: r) (l.length + 1)) = r.head?.any isspace := by
  rw [charAt_append]
  cases r with
  | nil => rfl
  | cons d r => rfl

/-- The inner loop leaves the last character of a run. -/
theorem eraseSpacesChecked_append (l : Bytes) (c : UInt8) (r : Bytes) {fuel : ℕ}
    (hfuel : r.length < fuel) :
    ∃ d t, eraseSpacesChecked l.length fuel (l ++ c :: r) = some (l ++ d :: t) ∧
      t.length ≤ r.length ∧ isspace d = isspace c ∧ (isspace d && t.head?.any isspace) = false ∧
        plain (l ++ d :: t) = plain (l ++ c :: r) := by
  induction r generalizing c fuel with
  | nil =>
    obtain ⟨fuel, rfl⟩ := Nat.exists_eq_add_of_lt hfuel
    refine ⟨c, [], ?_, le_rfl, rfl, by simp, rfl⟩
    rw [eraseSpacesChecked, isspace_next]
    simp
  | cons e r ih =>
    obtain ⟨fuel, rfl⟩ : ∃ n, fuel = n + 1 := ⟨fuel - 1, by omega⟩
    rw [List.length_cons, Nat.add_lt_add_iff_right] at hfuel
    rw [eraseSpacesChecked, isspace_next, charAt_length]
    by_cases hrun : (isspace c && isspace e) = true
    · obtain ⟨hc, he⟩ := Bool.and_eq_true_iff.1 hrun
      obtain ⟨d, t, hrest, hlen, hd, hstop, hplain⟩ := ih e hfuel
      refine ⟨d, t, ?_, Nat.le_succ_of_le hlen, by rw [hd, hc, he], hstop, ?_⟩
      · simp [hc, he, eraseChecked_append, hrest]
      · rw [hplain, plain_append_cons_cons hc he]
    · refine ⟨c, e :: r, ?_, le_rfl, rfl, by simpa using hrun, rfl⟩
      rw [if_neg]
      intro hcond
      simp only [List.head?_cons, Option.any_some, Bool.and_eq_true] at hcond
      exact hrun (Bool.and_eq_true_iff.2 hcond.1)

/-- In front of the index the string is clean, also where the two parts meet. -/
structure Cleaned (l r : Bytes) : Prop where
  keep : ∀ c ∈ l, keeps c = true
  apart : Apart isspace l
  seam : (l.getLast?.any isspace && r.head?.any isspace) = false

theorem Cleaned.nil (r : Bytes) : Cleaned [] r :=
  ⟨fun _ h => (nomatch h), List.isChain_nil, rfl⟩

/-- The index goes forwards. -/
theorem Cleaned.forward {l r t : Bytes} {c d : UInt8} (h : Cleaned l (c :: r))
    (hd : isspace d = isspace c) (hkeep : keeps d = true)
    (hstop : (isspace d && t.head?.any isspace) = false) : Cleaned (l ++ [d]) t := by
  refine ⟨?_, apart_concat.2 ⟨h.apart, ?_⟩, by simpa using hstop⟩
  · intro e he
    rcases List.mem_append.1 he with he | he
    · exact h.keep e he
    · rw [List.mem_singleton.1 he]; exact hkeep
  · rw [hd]; exact h.seam

/-- The index goes backwards. -/
theorem Cleaned.back {l r t : Bytes} {a : UInt8} (h : Cleaned (l ++ [a]) r) :
    Cleaned l (a :: t) :=
  ⟨fun c hc => h.keep c (List.mem_append_left _ hc), (apart_concat.1 h.apart).1,
    (apart_concat.1 h.apart).2⟩

/-- The outer loop, from any place: every round lowers twice the length minus the index. -/
theorem normaliseChecked_append {l r : Bytes} {fuel : ℕ} (h : Cleaned l r)
    (hfuel : l.length + 2 * r.length < fuel) :
    normaliseChecked fuel l.length (l ++ r) = some (plain (l ++ r)) := by
  induction fuel generalizing l r with
  | zero => omega
  | succ fuel ih =>
    rw [normaliseChecked]
    cases r with
    | nil =>
      rw [if_neg (by simp), List.append_nil, plain_of_apart h.keep h.apart]
    | cons c r =>
      have hlong : r.length < (l ++ c :: r).length := by simp; omega
      obtain ⟨d, t, hrun, hlen, hd, hstop, hplain⟩ := eraseSpacesChecked_append l c r hlong
      rw [List.length_cons] at hfuel
      rw [if_pos (by simp), hrun, ← hplain]
      simp only [Option.bind_eq_bind, Option.bind_some, charAt_length, keeps_eq_false_iff]
      by_cases hdrop : keeps d = false
      · -- the character goes, and the one in front of it is looked at again
        rw [if_pos hdrop, eraseChecked_append, Option.bind_some, plain_append_cons hdrop]
        rcases List.eq_nil_or_concat' l with rfl | ⟨l, a, rfl⟩
        · exact ih (Cleaned.nil t) (by simp at hfuel ⊢; omega)
        · have hnext := ih (h.back : Cleaned l (a :: t)) (by simp at hfuel ⊢; omega)
          simpa using hnext
      · have hnext := ih (h.forward hd (by simpa using hdrop) hstop) (by simp; omega)
        rw [if_neg hdrop]
        simpa using hnext

/-- The loops end, and leave the plain definition. -/
theorem normaliseChecked_eq (s : Bytes) :
    normaliseChecked (2 * s.length + 1) 0 s = some (plain s) :=
  normaliseChecked_append (Cleaned.nil s) (by simp)

theorem setNormalSubject_eq (h : Header) (s : Bytes) :
    h.setNormalSubject s = { h with msgNormalSubject := bytes "Subject: " ++ plain s } := by
  rw [Header.setNormalSubject, normalise_of_checked (normaliseChecked_eq s)]

/-- **Normalisation**: the loops end without reaching outside the string, what they leave is the
plain definition, in which no white space stands together; to normalise it again, or to insert
characters of other kinds before, changes nothing. -/
theorem setNormalSubject_plain (h : Header) (s : Bytes) :
    normaliseChecked (2 * s.length + 1) 0 s = some (plain s) ∧
      h.setNormalSubject s = { h with msgNormalSubject := bytes "Subject: " ++ plain s } ∧
      Apart isspace (plain s) ∧
      h.setNormalSubject (plain s) = h.setNormalSubject s ∧
      ∀ pre post : Bytes, s = pre ++ post → ∀ t : Bytes, (∀ c ∈ t, keeps c = false) →
        h.setNormalSubject (pre ++ t ++ post) = h.setNormalSubject s := by
  have hapart : Apart isspace (plain s) := apart_squeeze _
  refine ⟨normaliseChecked_eq s, setNormalSubject_eq h s, hapart, ?_, ?_⟩
  · rw [setNormalSubject_eq, setNormalSubject_eq, plain_of_apart keeps_of_mem_plain hapart]
  · rintro pre post rfl t ht
    have hfilter : t.filter keeps = [] :=
      List.filter_eq_nil_iff.2 fun c hc => Bool.eq_false_iff.1 (ht c hc)
    rw [setNormalSubject_eq, setNormalSubject_eq, plain, plain]
    simp [hfilter]

/-- The subject of the manual page. -/
example : plain (bytes ",L.E-G,A.L; ,C.A-B\x60L\x60E, .B-O\x60X\x60") = bytes "LEGAL CABLE BOX" := by
  decide

end Mailfilter
