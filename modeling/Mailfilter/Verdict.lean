import Mailfilter.Weeder

/-!
# What the weeder decides

The checks of `Weeder` as formulas: which messages are duplicates, friends, overlong or denied, and
what a message scores.

* `Duplicate`, `Friend`, `Overlong`, `Denied`, `scoreTotal` and `Exceeds`, the purpose of the five
  checks;
* `PositiveFriend`, `NegativeFriend`, `PositiveDenied`, `NegativeDenied` and `TallyReached`: what
  the loops find, which start at a counter above 0 only, and see nothing in a header without lines;
* `checkDuplicates_status`, `checkAllowRules_positive`, `checkAllowRules_nonPositive`,
  `checkMaxlength_status`, `checkDenyRules_formula` and `checkScores_formula`: what each check
  returns, and `isWeed_formula`, what the five of them decide;
* `isWeed_status`: the decision in terms of the purpose, for rule lists with the right counters.
-/

namespace Mailfilter

open Rules

section Formulas

variable (prefs : Preferences) (regexec : Option Regex → Bytes → ℤ) (hdr : Header)

/-- The message-ID is one that the weeder has seen, and duplicates are to be deleted. -/
def Duplicate (w : Weeder) : Prop :=
  hdr.msgID ≠ [] ∧ prefs.deleteDuplicates = true ∧ hdr.msgID ∈ w.msgIds

/-- How the ALLOW rules look at an entry. -/
def lineHit (f : Filter) (e : Entry) : Bool := f.matched regexec e.line

/-- How the DENY and SCORE rules look at an entry: the line, or the normalised subject. -/
def subjectHit (f : Filter) (e : Entry) : Bool :=
  f.matched regexec e.line || normalMatched prefs regexec hdr f e

/-- Some ALLOW rule applies. -/
def Friend : Prop :=
  AnyApplies Filter.isNegative (lineHit regexec) prefs.allowFilters hdr.msgEntries

/-- Some positive ALLOW rule applies. -/
def PositiveFriend : Prop :=
  ∃ f ∈ prefs.allowFilters, f.isNegative = false ∧ ∃ e ∈ hdr.msgEntries, lineHit regexec f e = true

/-- A negative rule of the list hits no line, and there is a line where the loop sees it. -/
def NegativeApplies (hit : Filter → Entry → Bool) (rules : List Filter) : Prop :=
  hdr.msgEntries ≠ [] ∧
    ∃ f ∈ rules, f.isNegative = true ∧ ∀ e ∈ hdr.msgEntries, hit f e = false

/-- Some negative ALLOW rule applies, and the counter lets the loop start. -/
def NegativeFriend : Prop :=
  0 < prefs.negAllows ∧ NegativeApplies hdr (lineHit regexec) prefs.allowFilters

/-- MAXLENGTH is set and some line is longer. -/
def Overlong : Prop :=
  prefs.maxlength ≠ 0 ∧ ∃ e ∈ hdr.msgEntries, prefs.maxlength.toUInt32.toNat < e.line.length

/-- Some DENY rule applies. -/
def Denied : Prop :=
  AnyApplies Filter.isNegative (subjectHit prefs regexec hdr) prefs.denyFilters hdr.msgEntries

/-- Some positive DENY rule applies. -/
def PositiveDenied : Prop :=
  ∃ f ∈ prefs.denyFilters, f.isNegative = false ∧
    ∃ e ∈ hdr.msgEntries, subjectHit prefs regexec hdr f e = true

/-- Some negative DENY rule applies, and the counter lets the loop start. -/
def NegativeDenied : Prop :=
  0 < prefs.negDenies ∧ NegativeApplies hdr (subjectHit prefs regexec hdr) prefs.denyFilters

/-- The score of a message, as an integer. -/
def scoreTotal : ℤ :=
  (if prefs.maxSizeScore.score ≠ 0 ∧ Exceeds prefs.maxSizeScore.size hdr.msgSize then
      prefs.maxSizeScore.score.toInt else 0) +
    total (fun s : Score => s.isNegative) (fun s e => subjectHit prefs regexec hdr s.toFilter e)
      (fun s => s.score.toInt) prefs.scoreFilters hdr.msgEntries

/-- What the score rules contribute: without a line nothing, not even the negative ones. -/
def ruleScore : ℤ :=
  if hdr.msgEntries = [] then 0
  else total (fun s : Score => s.isNegative) (fun s e => subjectHit prefs regexec hdr s.toFilter e)
    (fun s => s.score.toInt) prefs.scoreFilters hdr.msgEntries

/-- The tally of `check_scores` reaches HIGHSCORE; it starts with the score of the size. -/
def TallyReached : Prop :=
  prefs.highscore.toInt ≤
    ((sizeTally prefs hdr).toInt + ruleScore prefs regexec hdr).bmod (2 ^ 32)

/-- HIGHSCORE is at most the score, which is kept in 32 bits. -/
def ScoreReached : Prop :=
  prefs.highscore.toInt ≤ (scoreTotal prefs regexec hdr).bmod (2 ^ 32)

instance (w : Weeder) : Decidable (Duplicate prefs hdr w) :=
  inferInstanceAs (Decidable (_ ∧ _ ∧ _))

instance : Decidable (Friend prefs regexec hdr) := inferInstanceAs (Decidable (AnyApplies ..))

instance : Decidable (PositiveFriend prefs regexec hdr) :=
  inferInstanceAs (Decidable (∃ f ∈ prefs.allowFilters, _))

instance (hit : Filter → Entry → Bool) (rules : List Filter) :
    Decidable (NegativeApplies hdr hit rules) :=
  inferInstanceAs (Decidable (_ ∧ ∃ f ∈ rules, _ ∧ ∀ e ∈ hdr.msgEntries, _))

instance : Decidable (NegativeFriend prefs regexec hdr) := inferInstanceAs (Decidable (_ ∧ _))

instance : Decidable (PositiveDenied prefs regexec hdr) :=
  inferInstanceAs (Decidable (∃ f ∈ prefs.denyFilters, _))

instance : Decidable (NegativeDenied prefs regexec hdr) := inferInstanceAs (Decidable (_ ∧ _))

instance : Decidable (TallyReached prefs regexec hdr) := inferInstanceAs (Decidable (_ ≤ _))

instance : Decidable (Overlong prefs hdr) := inferInstanceAs (Decidable (_ ∧ ∃ e ∈ hdr.msgEntries, _))

instance : Decidable (Denied prefs regexec hdr) := inferInstanceAs (Decidable (AnyApplies ..))

instance : Decidable (ScoreReached prefs regexec hdr) := inferInstanceAs (Decidable (_ ≤ _))

end Formulas

section Checks

variable {prefs : Preferences} {regexec : Option Regex → Bytes → ℤ} {hdr : Header}

/-! ### The five checks -/

theorem PositiveFriend.friend (h : PositiveFriend prefs regexec hdr) : Friend prefs regexec hdr :=
  anyApplies_iff.2 (Or.inl h)

theorem NegativeFriend.friend (h : NegativeFriend prefs regexec hdr) : Friend prefs regexec hdr :=
  anyApplies_iff.2 (Or.inr h.2.2)

/-- At the start nothing is a duplicate. -/
theorem not_duplicate_new : ¬ Duplicate prefs hdr Weeder.new := by
  rintro ⟨-, -, hmem⟩
  cases hmem

theorem checkDuplicates_status (w : Weeder) :
    (checkDuplicates prefs hdr w).1 = if Duplicate prefs hdr w then 1 else 0 := by
  unfold checkDuplicates Duplicate
  by_cases hid : hdr.msgID = []
  · simp [hid]
  · have hlen : ¬ hdr.msgID.length ≤ 0 := by
      rw [Nat.le_zero, List.length_eq_zero_iff]; exact hid
    rw [if_neg hlen]
    by_cases hdel : prefs.deleteDuplicates = true
    · by_cases hmem : hdr.msgID ∈ w.msgIds <;> simp [hid, hdel, hmem]
    · simp [hdel]

theorem checkMaxlength_status :
    (checkMaxlength prefs hdr).1 = if Overlong prefs hdr then 1 else 0 := by
  unfold checkMaxlength
  by_cases h0 : prefs.maxlength = 0
  · simp [Overlong, h0]
  · rw [if_neg h0]
    cases hs : hdr.msgEntries.findSome? _ with
    | none =>
      have hnone := List.findSome?_eq_none_iff.1 hs
      have hno : ¬ Overlong prefs hdr := by
        rintro ⟨-, e, he, hlen⟩
        simpa [hlen] using hnone e he
      rw [if_neg hno]; rfl
    | some st =>
      obtain ⟨e, he, hst⟩ := List.exists_of_findSome?_eq_some hs
      simp only [Option.ite_none_right_eq_some, Option.some.injEq] at hst
      obtain ⟨hlen, rfl⟩ := hst
      rw [if_pos ⟨h0, e, he, hlen⟩]; rfl

/-- A friend by a positive rule is subject to MAXSIZE_ALLOW. -/
theorem checkAllowRules_positive (h : PositiveFriend prefs regexec hdr) :
    (checkAllowRules prefs regexec hdr).1 =
      if Exceeds prefs.maxSizeAllow hdr.msgSize then 1 else 0 := by
  obtain ⟨f, hf, hn, e, he, hhit⟩ := h
  unfold checkAllowRules
  simp only
  cases hs : hdr.msgEntries.findSome? _ with
  | none =>
    have := nested_eq_none.1 hs e he f hf
    have hm : f.matched regexec e.line = true := hhit
    simp only [hn, hm, Bool.not_false, Bool.and_true, if_true] at this
    split_ifs at this
  | some st =>
    obtain ⟨e', -, f', -, hst⟩ := nested_eq_some hs
    simp only [Option.ite_none_right_eq_some] at hst
    obtain ⟨-, hst⟩ := hst
    rw [Option.some_or, Option.getD_some]
    by_cases hx : Exceeds prefs.maxSizeAllow hdr.msgSize
    · rw [if_pos hx]
      rw [if_pos hx] at hst
      cases hst; rfl
    · rw [if_neg hx]
      rw [if_neg hx] at hst
      cases hst; rfl

/-- Without a positive rule that applies, the loop over the lines falls through. -/
theorem allow_positive_none (h : ¬ PositiveFriend prefs regexec hdr) {β : Type}
    {out : Entry → Filter → Option β} :
    (hdr.msgEntries.findSome? fun e => prefs.allowFilters.findSome? fun f =>
      if !f.isNegative && f.matched regexec e.line then out e f else none) = none := by
  refine nested_eq_none.2 fun e he f hf => if_neg ?_
  simp only [Bool.and_eq_true, Bool.not_eq_true', not_and]
  exact fun hn hm => h ⟨f, hf, hn, e, he, hm⟩

/-- What the loops over the negative rules of a list find: the result of some rule that hits
nothing, and nothing if there is none. -/
theorem negative_findSome (rules : List Filter) (hit : Filter → Entry → Bool) {β : Type}
    {out : Filter → β} (hne : hdr.msgEntries ≠ []) :
    (∃ f ∈ rules, f.isNegative = true ∧ (∀ e ∈ hdr.msgEntries, hit f e = false) ∧
      (rules.findSome? fun f =>
        if f.isNegative then lastUnmatched (hit f) (out f) hdr.msgEntries else none) =
          some (out f)) ∨
    ((∀ f ∈ rules, f.isNegative = true → ¬ ∀ e ∈ hdr.msgEntries, hit f e = false) ∧
      (rules.findSome? fun f =>
        if f.isNegative then lastUnmatched (hit f) (out f) hdr.msgEntries else none) = none) := by
  simp only [lastUnmatched_eq hne]
  cases hs : rules.findSome? _ with
  | none =>
    refine Or.inr ⟨fun f hf hn hall => ?_, rfl⟩
    have := List.findSome?_eq_none_iff.1 hs f hf
    simp only [hn, if_true, ite_eq_right_iff, reduceCtorEq, imp_false] at this
    exact this (by simpa using hall)
  | some b =>
    obtain ⟨f, hf, hb⟩ := List.exists_of_findSome?_eq_some hs
    split_ifs at hb with hn hall
    cases hb
    exact Or.inl ⟨f, hf, hn, by simpa using hall, rfl⟩

/-- What the loops over the negative rules come to, when all of them return the same status. -/
theorem negative_status (rules : List Filter) (hit : Filter → Entry → Bool) {out : Filter → Status}
    {st : ℤ} (hout : ∀ f, (out f).1 = st) (d : Status) :
    ((rules.findSome? fun f =>
        if f.isNegative then lastUnmatched (hit f) (out f) hdr.msgEntries else none).getD d).1 =
      if NegativeApplies hdr hit rules then st else d.1 := by
  by_cases hne : hdr.msgEntries = []
  · rw [if_neg fun h : NegativeApplies hdr hit rules => h.1 hne]
    have hnone : (rules.findSome? fun f =>
        if f.isNegative then lastUnmatched (hit f) (out f) hdr.msgEntries else none) = none := by
      refine List.findSome?_eq_none_iff.2 fun f _ => ?_
      rw [hne, lastUnmatched, ite_self]
    rw [hnone, Option.getD_none]
  · rcases negative_findSome rules hit hne with ⟨f, hf, hn, hall, hs⟩ | ⟨hno, hs⟩
    · rw [hs, if_pos ⟨hne, f, hf, hn, hall⟩]
      exact hout f
    · rw [hs, if_neg, Option.getD_none]
      rintro ⟨-, f, hf, hn, hall⟩
      exact hno f hf hn hall

/-- What the ALLOW rules say of a message that no positive rule matches. -/
theorem checkAllowRules_nonPositive (h : ¬ PositiveFriend prefs regexec hdr) :
    (checkAllowRules prefs regexec hdr).1 = if NegativeFriend prefs regexec hdr then 0 else 2 := by
  unfold checkAllowRules
  simp only
  rw [allow_positive_none h, Option.none_or]
  by_cases hcount : 0 < prefs.negAllows
  · rw [if_pos hcount]
    unfold NegativeFriend
    simp only [hcount, true_and]
    refine negative_status prefs.allowFilters (lineHit regexec) ?_ _
    exact fun _ => rfl
  · rw [if_neg hcount, if_neg fun hn : NegativeFriend prefs regexec hdr => hcount hn.1]
    rfl

/-- With the right counter, the friends that no positive rule matches are those by a negative
rule. -/
theorem negativeFriend_iff (hc : prefs.Counted) (hne : hdr.msgEntries ≠ [])
    (h : ¬ PositiveFriend prefs regexec hdr) :
    NegativeFriend prefs regexec hdr ↔ Friend prefs regexec hdr := by
  refine Iff.trans ?_ (anyApplies_iff.trans (or_iff_right h)).symm
  refine ⟨fun hn => hn.2.2, fun ⟨f, hf, hn, hall⟩ => ⟨?_, hne, f, hf, hn, hall⟩⟩
  exact hc.negAllows_pos.2 ⟨f, hf, hn⟩

/-! ### DENY rules and scores -/

theorem denied_iff : Denied prefs regexec hdr ↔
    (∃ f ∈ prefs.denyFilters, f.isNegative = false ∧
      ∃ e ∈ hdr.msgEntries, subjectHit prefs regexec hdr f e = true) ∨
    (∃ f ∈ prefs.denyFilters, f.isNegative = true ∧
      ∀ e ∈ hdr.msgEntries, subjectHit prefs regexec hdr f e = false) :=
  anyApplies_iff

/-- What the loop over the lines finds: a positive DENY rule that applies, or nothing. -/
theorem deny_positive {out₁ out₂ : Entry → Filter → Status} {r : Option Status}
    (hr : (hdr.msgEntries.findSome? fun e => prefs.denyFilters.findSome? fun f =>
      if !f.isNegative && f.matched regexec e.line then some (out₁ e f)
      else if !f.isNegative && normalMatched prefs regexec hdr f e then some (out₂ e f)
      else none) = r) (h₁ : ∀ e f, (out₁ e f).1 = 1) (h₂ : ∀ e f, (out₂ e f).1 = 1) :
    (PositiveDenied prefs regexec hdr ∧ ∃ st, r = some st ∧ st.1 = 1) ∨
      (¬ PositiveDenied prefs regexec hdr ∧ r = none) := by
  unfold PositiveDenied subjectHit
  cases r with
  | some st =>
    obtain ⟨e, he, f, hf, hst⟩ := nested_eq_some hr
    split_ifs at hst with hm hm'
    · cases hst
      simp only [Bool.and_eq_true, Bool.not_eq_true'] at hm
      exact Or.inl ⟨⟨f, hf, hm.1, e, he, by rw [hm.2, Bool.true_or]⟩, _, rfl, h₁ e f⟩
    · cases hst
      simp only [Bool.and_eq_true, Bool.not_eq_true'] at hm'
      exact Or.inl ⟨⟨f, hf, hm'.1, e, he, by rw [hm'.2, Bool.or_true]⟩, _, rfl, h₂ e f⟩
  | none =>
    refine Or.inr ⟨?_, rfl⟩
    rintro ⟨f, hf, hn, e, he, hhit⟩
    have := nested_eq_none.1 hr e he f hf
    simp only [hn, Bool.not_false, Bool.true_and] at this
    split_ifs at this with hm hm'
    simp [hm, hm'] at hhit

/-- What the DENY rules say of a message, whatever the counters. -/
theorem checkDenyRules_formula : (checkDenyRules prefs regexec hdr).1 =
    if Exceeds prefs.maxSizeDeny hdr.msgSize ∨ PositiveDenied prefs regexec hdr ∨
      NegativeDenied prefs regexec hdr then 1 else 0 := by
  unfold checkDenyRules
  by_cases hx : Exceeds prefs.maxSizeDeny hdr.msgSize
  · rw [if_pos hx, if_pos (Or.inl hx)]
  rw [if_neg hx]
  simp only [or_iff_right hx]
  generalize hr : hdr.msgEntries.findSome? _ = r
  obtain ⟨hp, st, rfl, hst⟩ | ⟨hp, rfl⟩ := deny_positive hr (fun _ _ => rfl) fun _ _ => rfl
  · rw [Option.some_or, Option.getD_some, hst, if_pos (Or.inl hp)]
  · simp only [Option.none_or, or_iff_right hp]
    by_cases hcount : 0 < prefs.negDenies
    · rw [if_pos hcount]
      unfold NegativeDenied
      simp only [hcount, true_and]
      refine negative_status prefs.denyFilters (subjectHit prefs regexec hdr) ?_ _
      exact fun _ => rfl
    · rw [if_neg hcount, if_neg fun hn : NegativeDenied prefs regexec hdr => hcount hn.1]
      rfl

/-- With the right counter, the loops find the rules that apply. -/
theorem denied_iff_loops (hc : prefs.Counted) (hne : hdr.msgEntries ≠ []) :
    PositiveDenied prefs regexec hdr ∨ NegativeDenied prefs regexec hdr ↔
      Denied prefs regexec hdr := by
  refine (or_congr Iff.rfl ?_).trans denied_iff.symm
  refine ⟨fun hn => hn.2.2, fun ⟨f, hf, hn, hall⟩ => ⟨?_, hne, f, hf, hn, hall⟩⟩
  exact hc.negDenies_pos.2 ⟨f, hf, hn⟩

/-- An accumulator of `checkScores` stands for an integer, modulo 2^32. -/
def Tally.Represents (t : Tally) (m : ℤ) : Prop := t.1 = Int32.ofInt m

theorem Tally.Represents.add {t : Tally} {m : ℤ} (h : t.Represents m) (score : Int32)
    (log : List LogCall) : Tally.Represents (t.1 + score, log) (m + score.toInt) := by
  unfold Tally.Represents at h ⊢
  rw [h, Int32.ofInt_add, Int32.ofInt_toInt]

theorem sizeTally_represents :
    Tally.Represents (sizeTally prefs hdr, []) (sizeTally prefs hdr).toInt :=
  (Int32.ofInt_toInt _).symm

theorem positiveTally_represents {t : Tally} {m : ℤ} (h : t.Represents m) :
    (positiveTally prefs regexec hdr t).Represents (m + (hdr.msgEntries.map fun e =>
      (prefs.scoreFilters.map fun s =>
        if !s.isNegative && subjectHit prefs regexec hdr s.toFilter e then s.score.toInt
        else 0).sum).sum) := by
  refine foldl_represents (fun t m e _ ht => ?_) h
  refine foldl_represents (fun t m s _ ht => ?_) ht
  unfold subjectHit
  split_ifs
  · exact ht.add _ _
  · rwa [add_zero]

theorem negativeTally_represents (hne : hdr.msgEntries ≠ []) {t : Tally} {m : ℤ}
    (h : t.Represents m) :
    (negativeTally prefs regexec hdr t).Represents (m + (prefs.scoreFilters.map fun s =>
      if s.isNegative && hdr.msgEntries.all fun e => !subjectHit prefs regexec hdr s.toFilter e then
        s.score.toInt else 0).sum) := by
  refine foldl_represents (fun t m s _ ht => ?_) h
  simp only [lastUnmatched_eq hne]
  cases hn : s.isNegative with
  | false => simpa using ht
  | true =>
    simp only [if_true, Bool.true_and]
    unfold subjectHit
    split_ifs
    · exact ht.add _ _
    · rwa [add_zero]

/-- Without a line the tally stays as it is. -/
theorem negativeTally_empty (hempty : hdr.msgEntries = []) (t : Tally) :
    negativeTally prefs regexec hdr t = t := by
  unfold negativeTally
  simp only [hempty, lastUnmatched, Option.getD_none, ite_self, List.foldl_fixed]

/-- Both loops together. -/
theorem tally_represents : (negativeTally prefs regexec hdr
    (positiveTally prefs regexec hdr (sizeTally prefs hdr, []))).Represents
      ((sizeTally prefs hdr).toInt + ruleScore prefs regexec hdr) := by
  unfold ruleScore
  by_cases hne : hdr.msgEntries = []
  · rw [if_pos hne, add_zero, negativeTally_empty hne]
    unfold positiveTally
    rw [hne, List.foldl_nil]
    exact sizeTally_represents
  · rw [if_neg hne, total, ← add_assoc]
    exact negativeTally_represents hne (positiveTally_represents sizeTally_represents)

theorem checkScores_formula : (checkScores prefs regexec hdr).1 =
    if TallyReached prefs regexec hdr then 1 else 0 := by
  have hreached : prefs.highscore ≤ (negativeTally prefs regexec hdr
      (positiveTally prefs regexec hdr (sizeTally prefs hdr, []))).1 ↔
        TallyReached prefs regexec hdr := by
    rw [tally_represents, Int32.le_iff_toInt_le, Int32.toInt_ofInt]; rfl
  unfold checkScores
  simp only [hreached]
  by_cases hr : TallyReached prefs regexec hdr
  · rw [if_pos hr, if_pos hr]
  · rw [if_neg hr, if_neg hr]

theorem tallyReached_iff (hne : hdr.msgEntries ≠ []) :
    TallyReached prefs regexec hdr ↔ ScoreReached prefs regexec hdr := by
  unfold TallyReached ScoreReached ruleScore scoreTotal sizeTally
  rw [if_neg hne, apply_ite Int32.toInt, Int32.toInt_zero]

/-! ### The decision -/

/-- The five checks of `isWeed` in their order, whatever the counters and the header. -/
theorem isWeed_formula (prefs : Preferences) (regexec : Option Regex → Bytes → ℤ) (hdr : Header)
    (w : Weeder) :
    (isWeed prefs regexec hdr w).1 =
      if Duplicate prefs hdr w then 1
      else if PositiveFriend prefs regexec hdr then
        if Exceeds prefs.maxSizeAllow hdr.msgSize then 1 else 0
      else if NegativeFriend prefs regexec hdr then 0
      else if Overlong prefs hdr ∨ (Exceeds prefs.maxSizeDeny hdr.msgSize ∨
          PositiveDenied prefs regexec hdr ∨ NegativeDenied prefs regexec hdr) ∨
          TallyReached prefs regexec hdr then 1
      else 0 := by
  have hdup : (checkDuplicates prefs hdr w).1 = _ := checkDuplicates_status w
  have hdeny : (checkDenyRules prefs regexec hdr).1 = _ := checkDenyRules_formula
  unfold isWeed
  generalize checkDuplicates prefs hdr w = dup at hdup ⊢
  obtain ⟨dup, w', log⟩ := dup
  simp only at hdup
  subst hdup
  by_cases h₁ : Duplicate prefs hdr w
  · simp [h₁]
  by_cases h₂ : PositiveFriend prefs regexec hdr
  · have hallow := checkAllowRules_positive h₂
    by_cases hx : Exceeds prefs.maxSizeAllow hdr.msgSize <;> simp [h₁, h₂, hallow, hx]
  have hallow := checkAllowRules_nonPositive h₂
  by_cases h₃ : NegativeFriend prefs regexec hdr
  · simp [h₁, h₂, h₃, hallow]
  by_cases h₄ : Overlong prefs hdr
  · simp [h₁, h₂, h₃, h₄, hallow, checkMaxlength_status]
  by_cases h₅ : Exceeds prefs.maxSizeDeny hdr.msgSize ∨ PositiveDenied prefs regexec hdr ∨
      NegativeDenied prefs regexec hdr
  · rw [if_pos h₅] at hdeny
    simp [h₁, h₂, h₃, h₄, h₅, hallow, checkMaxlength_status, hdeny]
  rw [if_neg h₅] at hdeny
  by_cases h₆ : TallyReached prefs regexec hdr <;>
    simp [h₁, h₂, h₃, h₄, h₅, h₆, hallow, checkMaxlength_status, hdeny, checkScores_formula]

/-- A message that is neither a duplicate nor a friend. -/
theorem isWeed_of_not_friend {w : Weeder} (hdup : ¬ Duplicate prefs hdr w)
    (hfriend : ¬ Friend prefs regexec hdr) :
    (isWeed prefs regexec hdr w).1 =
      if Overlong prefs hdr ∨ (Exceeds prefs.maxSizeDeny hdr.msgSize ∨
          PositiveDenied prefs regexec hdr ∨ NegativeDenied prefs regexec hdr) ∨
          TallyReached prefs regexec hdr then 1
      else 0 := by
  rw [isWeed_formula, if_neg hdup, if_neg fun h => hfriend (PositiveFriend.friend h),
    if_neg fun h => hfriend (NegativeFriend.friend h)]

/-- The checks for rule lists with the right counters, and a header that is not empty. -/
theorem isWeed_status (hc : prefs.Counted) (hne : hdr.msgEntries ≠ []) (w : Weeder) :
    (isWeed prefs regexec hdr w).1 =
      if Duplicate prefs hdr w then 1
      else if PositiveFriend prefs regexec hdr then
        if Exceeds prefs.maxSizeAllow hdr.msgSize then 1 else 0
      else if Friend prefs regexec hdr then 0
      else if Overlong prefs hdr ∨ Exceeds prefs.maxSizeDeny hdr.msgSize ∨
          Denied prefs regexec hdr ∨ ScoreReached prefs regexec hdr then 1
      else 0 := by
  rw [isWeed_formula]
  by_cases hp : PositiveFriend prefs regexec hdr
  · simp only [hp, if_true]
  · simp only [hp, if_false, negativeFriend_iff hc hne hp, denied_iff_loops hc hne,
      tallyReached_iff hne, or_assoc]

end Checks

end Mailfilter
