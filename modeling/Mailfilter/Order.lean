import Mailfilter.Duplicates

/-!
# The order and the number of rules

What the verdict does not depend on, and which way more rules move it.  Both follow from
`isWeed_formula`, in which the rules occur by membership and the scores as a sum.

* `Preferences.Reordered` and `Header.Reordered`: the same rules and lines in another order;
* `isWeed_reordered`: the verdict and the list of message-IDs stay the same;
* `isWeed_of_moreDenies` and `isWeed_of_moreAllows`, for larger lists of rules, and
  `compileAll_append`, which makes them lists that were compiled;
* `isWeed_addRule`: a DENY rule saves no message, and an ALLOW rule condemns none as long as
  MAXSIZE_ALLOW is not set.
-/

namespace Mailfilter

open Rules

/-! ### Another order -/

/-- The same settings and the same rules, in another order. -/
structure Preferences.Reordered (p q : Preferences) : Prop where
  allows : q.allowFilters.Perm p.allowFilters
  denies : q.denyFilters.Perm p.denyFilters
  scores : q.scoreFilters.Perm p.scoreFilters
  settings : q = { p with
    allowFilters := q.allowFilters, denyFilters := q.denyFilters, scoreFilters := q.scoreFilters }

/-- The same entries in another order, and the same message-ID, size and normalised subject. -/
structure Header.Reordered (h k : Header) : Prop where
  entries : k.msgEntries.Perm h.msgEntries
  msgID : k.msgID = h.msgID
  msgSize : k.msgSize = h.msgSize
  msgNormalSubject : k.msgNormalSubject = h.msgNormalSubject

section Order

variable {p q : Preferences} {regexec : Option Regex → Bytes → ℤ} {h k : Header} {w : Weeder}

/-- The rules see the same of an entry. -/
theorem subjectHit_reordered (hnormal : q.normal = p.normal) (hh : h.Reordered k) :
    subjectHit q regexec k = subjectHit p regexec h := by
  funext f e
  unfold subjectHit normalMatched
  rw [hnormal, hh.msgNormalSubject]

theorem negativeApplies_reordered (hh : h.Reordered k) {hit : Filter → Entry → Bool}
    {rules rules' : List Filter} (hrules : rules'.Perm rules) :
    NegativeApplies k hit rules' ↔ NegativeApplies h hit rules := by
  unfold NegativeApplies
  simp only [ne_eq, ← List.length_eq_zero_iff, hh.entries.length_eq, hrules.mem_iff,
    hh.entries.mem_iff]

/-- The lines of the header in the two formulas about scores. -/
theorem ruleScore_reordered (hp : p.Reordered q) (hh : h.Reordered k) :
    ruleScore q regexec k = ruleScore p regexec h := by
  have hnormal : q.normal = p.normal := by rw [hp.settings]
  unfold ruleScore
  rw [subjectHit_reordered hnormal hh, total_perm hp.scores hh.entries]
  simp only [← List.length_eq_zero_iff, hh.entries.length_eq]

/-- **The order of rules and lines** does not matter. -/
theorem isWeed_reordered (hp : p.Reordered q) (hh : h.Reordered k)
    (regexec : Option Regex → Bytes → ℤ) (w : Weeder) :
    (isWeed q regexec k w).1 = (isWeed p regexec h w).1 ∧
      (isWeed q regexec k w).2.1 = (isWeed p regexec h w).2.1 := by
  have hsettings := hp.settings
  have hnormal : q.normal = p.normal := by rw [hsettings]
  have hhit : subjectHit q regexec k = subjectHit p regexec h := subjectHit_reordered hnormal hh
  have hdup : Duplicate q k w ↔ Duplicate p h w := by
    unfold Duplicate
    rw [hh.msgID, hsettings]
  have hpos : PositiveFriend q regexec k ↔ PositiveFriend p regexec h := by
    unfold PositiveFriend
    simp only [hp.allows.mem_iff, hh.entries.mem_iff]
  have hneg : NegativeFriend q regexec k ↔ NegativeFriend p regexec h := by
    unfold NegativeFriend
    rw [negativeApplies_reordered hh hp.allows, hsettings]
  have hlong : Overlong q k ↔ Overlong p h := by
    unfold Overlong
    rw [hsettings]
    simp only [hh.entries.mem_iff]
  have hposd : PositiveDenied q regexec k ↔ PositiveDenied p regexec h := by
    unfold PositiveDenied
    simp only [hp.denies.mem_iff, hh.entries.mem_iff, hhit]
  have hnegd : NegativeDenied q regexec k ↔ NegativeDenied p regexec h := by
    unfold NegativeDenied
    rw [hhit, negativeApplies_reordered hh hp.denies, hsettings]
  have htally : TallyReached q regexec k ↔ TallyReached p regexec h := by
    unfold TallyReached sizeTally
    rw [ruleScore_reordered hp hh, hh.msgSize, hsettings]
  have hsize : q.maxSizeAllow = p.maxSizeAllow ∧ q.maxSizeDeny = p.maxSizeDeny := by
    rw [hsettings]
    exact ⟨rfl, rfl⟩
  constructor
  · simp only [isWeed_formula, hdup, hpos, hneg, hlong, hposd, hnegd, htally, hsize, hh.msgSize]
  · rw [weeder_isWeed, weeder_isWeed]
    unfold checkDuplicates
    simp only [hh.msgID, apply_ite Prod.snd, apply_ite Prod.fst]
    rw [hsettings]

/-- The rules in the opposite order. -/
def Preferences.reversed (p : Preferences) : Preferences :=
  { p with
    allowFilters := p.allowFilters.reverse
    denyFilters := p.denyFilters.reverse
    scoreFilters := p.scoreFilters.reverse }

theorem Preferences.reordered_reversed (p : Preferences) : p.Reordered p.reversed :=
  ⟨List.reverse_perm _, List.reverse_perm _, List.reverse_perm _, rfl⟩

/-- The lines in the opposite order. -/
def Header.reversed (h : Header) : Header := { h with msgEntries := h.msgEntries.reverse }

theorem Header.reordered_reversed (h : Header) : h.Reordered h.reversed :=
  ⟨List.reverse_perm _, rfl, rfl, rfl⟩

/-- Rules of all kinds: on the two lines below no ALLOW and no DENY rule applies, and all SCORE rules
do. -/
def manyRules : Preferences :=
  let p := Preferences.new ⟨0, 0⟩ 0
  let p := p.addAllowRule (bytes "ALLOW") (bytes "=") (bytes "3")
  let p := p.addAllowRule (bytes "ALLOW") (bytes "<>") (bytes "x")
  let p := p.addDenyRule (bytes "DENY") (bytes "=") (bytes "^x: 2")
  let p := p.addDenyRule (bytes "DENY") (bytes "<>") (bytes "y")
  let p := p.addScore (bytes "SCORE") 60 (bytes "=") (bytes "x: 1$")
  let p := p.addScore (bytes "SCORE") (-20) (bytes "=") (bytes "2")
  let p := p.addScore (bytes "SCORE") 70 (bytes "<>") (bytes "3")
  (p.precompileExpressions plainComp).2.1

/-- A header with two lines. -/
def twoLines : Header :=
  { Header.new 0 with msgEntries := [⟨bytes "X", bytes "1"⟩, ⟨bytes "Y", bytes "2"⟩] }

/-- The scores add up to 110 in either order. -/
theorem isWeed_reordered_reversed :
    (isWeed manyRules.reversed plainExec twoLines.reversed Weeder.new).1 = 1 :=
  (isWeed_reordered manyRules.reordered_reversed twoLines.reordered_reversed _ _).1.trans
    (by decide)

/-! ### More rules -/

/-- More DENY rules, and everything else as it was. -/
structure Preferences.MoreDenies (p q : Preferences) : Prop where
  subset : p.denyFilters ⊆ q.denyFilters
  count : p.negDenies ≤ q.negDenies
  settings : q = { p with denyFilters := q.denyFilters, negDenies := q.negDenies }

/-- More ALLOW rules, and everything else as it was. -/
structure Preferences.MoreAllows (p q : Preferences) : Prop where
  subset : p.allowFilters ⊆ q.allowFilters
  count : p.negAllows ≤ q.negAllows
  settings : q = { p with allowFilters := q.allowFilters, negAllows := q.negAllows }

theorem NegativeApplies.mono {hit : Filter → Entry → Bool} {rules rules' : List Filter}
    (hneg : NegativeApplies h hit rules) (hsub : rules ⊆ rules') : NegativeApplies h hit rules' := by
  obtain ⟨hne, f, hf, hn, hall⟩ := hneg
  exact ⟨hne, f, hsub hf, hn, hall⟩

/-- A message that was to be deleted still is when there are more DENY rules. -/
theorem isWeed_of_moreDenies (hp : p.MoreDenies q) (hone : (isWeed p regexec h w).1 = 1) :
    (isWeed q regexec h w).1 = 1 := by
  have hsettings := hp.settings
  have hhit : subjectHit q regexec h = subjectHit p regexec h := by
    rw [hsettings]
    rfl
  have hposd : PositiveDenied p regexec h → PositiveDenied q regexec h := by
    rintro ⟨f, hf, hn, e, he, hm⟩
    exact ⟨f, hp.subset hf, hn, e, he, hhit ▸ hm⟩
  have hnegd : NegativeDenied p regexec h → NegativeDenied q regexec h := by
    rintro ⟨hcount, hneg⟩
    exact ⟨hcount.trans_le hp.count, hhit ▸ hneg.mono hp.subset⟩
  -- the formulas that do not look at the DENY rules are the same for both
  have hdup : Duplicate q h w ↔ Duplicate p h w := by rw [hsettings]; rfl
  have hpos : PositiveFriend q regexec h ↔ PositiveFriend p regexec h := by rw [hsettings]; rfl
  have hneg : NegativeFriend q regexec h ↔ NegativeFriend p regexec h := by rw [hsettings]; rfl
  have hlong : Overlong q h ↔ Overlong p h := by rw [hsettings]; rfl
  have htally : TallyReached q regexec h ↔ TallyReached p regexec h := by rw [hsettings]; rfl
  have hsize : q.maxSizeAllow = p.maxSizeAllow ∧ q.maxSizeDeny = p.maxSizeDeny := by
    rw [hsettings]
    exact ⟨rfl, rfl⟩
  rw [isWeed_formula] at hone ⊢
  simp only [hdup, hpos, hneg, hlong, htally, hsize]
  by_cases h₁ : Duplicate p h w
  · rw [if_pos h₁]
  by_cases h₂ : PositiveFriend p regexec h
  · simpa only [h₁, h₂, if_true, if_false] using hone
  by_cases h₃ : NegativeFriend p regexec h
  · simpa only [h₁, h₂, h₃, if_true, if_false] using hone
  simp only [h₁, h₂, h₃, if_false, ite_eq_left_iff, zero_ne_one, imp_false, not_not] at hone ⊢
  exact hone.imp_right (Or.imp_left (Or.imp_right (Or.imp hposd hnegd)))

/-- A message that was left alone still is when there are more ALLOW rules and no MAXSIZE_ALLOW. -/
theorem isWeed_of_moreAllows (hp : p.MoreAllows q) (hsize : p.maxSizeAllow = 0)
    (hzero : (isWeed p regexec h w).1 = 0) : (isWeed q regexec h w).1 = 0 := by
  have hsettings := hp.settings
  have hpos : PositiveFriend p regexec h → PositiveFriend q regexec h := by
    rintro ⟨f, hf, hn, e, he, hm⟩
    exact ⟨f, hp.subset hf, hn, e, he, hm⟩
  have hneg : NegativeFriend p regexec h → NegativeFriend q regexec h := by
    rintro ⟨hcount, hneg⟩
    exact ⟨hcount.trans_le hp.count, hneg.mono hp.subset⟩
  -- the formulas that do not look at the ALLOW rules are the same for both
  have hdup : Duplicate q h w ↔ Duplicate p h w := by rw [hsettings]; rfl
  have hlong : Overlong q h ↔ Overlong p h := by rw [hsettings]; rfl
  have hposd : PositiveDenied q regexec h ↔ PositiveDenied p regexec h := by rw [hsettings]; rfl
  have hnegd : NegativeDenied q regexec h ↔ NegativeDenied p regexec h := by rw [hsettings]; rfl
  have htally : TallyReached q regexec h ↔ TallyReached p regexec h := by rw [hsettings]; rfl
  have hlimits : q.maxSizeAllow = 0 ∧ q.maxSizeDeny = p.maxSizeDeny := by
    rw [hsettings]
    exact ⟨hsize, rfl⟩
  have hno : ¬ Exceeds 0 h.msgSize := fun hx => absurd hx.1 (by decide)
  rw [isWeed_formula] at hzero ⊢
  simp only [hdup, hlong, hposd, hnegd, htally, hlimits, hsize, hno, if_false] at hzero ⊢
  by_cases h₁ : Duplicate p h w
  · simp [h₁] at hzero
  by_cases h₂ : PositiveFriend q regexec h
  · rw [if_neg h₁, if_pos h₂]
  by_cases h₃ : NegativeFriend q regexec h
  · rw [if_neg h₁, if_neg h₂, if_pos h₃]
  have h₂' : ¬ PositiveFriend p regexec h := fun hp => h₂ (hpos hp)
  have h₃' : ¬ NegativeFriend p regexec h := fun hn => h₃ (hneg hn)
  simpa only [h₁, h₂, h₃, h₂', h₃', if_false] using hzero

/-! ### Rules that are added -/

theorem Preferences.MoreDenies.compiledRules (hp : p.MoreDenies q) (regcomp : Bytes → ℕ → ℤ) :
    (p.compiledRules regcomp).MoreDenies (q.compiledRules regcomp) where
  subset := by
    have htype : q.regType = p.regType := by rw [hp.settings]
    unfold Preferences.compiledRules
    rw [htype]
    exact List.map_subset _ hp.subset
  count := hp.count
  settings := by
    rw [hp.settings]
    rfl

theorem Preferences.MoreAllows.compiledRules (hp : p.MoreAllows q) (regcomp : Bytes → ℕ → ℤ) :
    (p.compiledRules regcomp).MoreAllows (q.compiledRules regcomp) where
  subset := by
    have htype : q.regType = p.regType := by rw [hp.settings]
    unfold Preferences.compiledRules
    rw [htype]
    exact List.map_subset _ hp.subset
  count := hp.count
  settings := by
    rw [hp.settings]
    rfl

theorem Preferences.moreDenies_addDenyRule (p : Preferences) (keyword operat id : Bytes) :
    p.MoreDenies (p.addDenyRule keyword operat id) where
  subset := List.subset_append_left _ _
  count := by
    unfold addDenyRule
    split_ifs <;> simp
  settings := rfl

theorem Preferences.moreAllows_addAllowRule (p : Preferences) (keyword operat id : Bytes) :
    p.MoreAllows (p.addAllowRule keyword operat id) where
  subset := List.subset_append_left _ _
  count := by
    unfold addAllowRule
    split_ifs <;> simp
  settings := rfl

/-- **More rules** move the verdict one way only, before the rules are compiled and after. -/
theorem isWeed_addRule (p : Preferences) (regcomp : Bytes → ℕ → ℤ)
    (regexec : Option Regex → Bytes → ℤ) (h : Header) (w : Weeder) (keyword operat id : Bytes) :
    ((isWeed p regexec h w).1 = 1 →
      (isWeed (p.addDenyRule keyword operat id) regexec h w).1 = 1) ∧
    (p.maxSizeAllow = 0 → (isWeed p regexec h w).1 = 0 →
      (isWeed (p.addAllowRule keyword operat id) regexec h w).1 = 0) ∧
    (((p.addDenyRule keyword operat id).precompileExpressions regcomp).1 = 0 →
      (isWeed (p.precompileExpressions regcomp).2.1 regexec h w).1 = 1 →
      (isWeed ((p.addDenyRule keyword operat id).precompileExpressions regcomp).2.1
        regexec h w).1 = 1) ∧
    (((p.addAllowRule keyword operat id).precompileExpressions regcomp).1 = 0 →
      p.maxSizeAllow = 0 → (isWeed (p.precompileExpressions regcomp).2.1 regexec h w).1 = 0 →
      (isWeed ((p.addAllowRule keyword operat id).precompileExpressions regcomp).2.1
        regexec h w).1 = 0) := by
  have hdeny := p.moreDenies_addDenyRule keyword operat id
  have hallow := p.moreAllows_addAllowRule keyword operat id
  refine ⟨isWeed_of_moreDenies hdeny, isWeed_of_moreAllows hallow, fun hok => ?_,
    fun hok hsize => ?_⟩
  · obtain ⟨h₁, h₂, h₃⟩ := Preferences.precompileExpressions_eq_zero_iff.1 hok
    have hok' : (p.precompileExpressions regcomp).1 = 0 :=
      Preferences.precompileExpressions_eq_zero_iff.2 ⟨h₁, Preferences.compileAll_append h₂, h₃⟩
    rw [Preferences.precompileExpressions_ok hok, Preferences.precompileExpressions_ok hok']
    exact isWeed_of_moreDenies (hdeny.compiledRules regcomp)
  · obtain ⟨h₁, h₂, h₃⟩ := Preferences.precompileExpressions_eq_zero_iff.1 hok
    have hok' : (p.precompileExpressions regcomp).1 = 0 :=
      Preferences.precompileExpressions_eq_zero_iff.2 ⟨Preferences.compileAll_append h₁, h₂, h₃⟩
    rw [Preferences.precompileExpressions_ok hok, Preferences.precompileExpressions_ok hok']
    exact isWeed_of_moreAllows (hallow.compiledRules regcomp) hsize

/-- One DENY rule that matches every line. -/
def denyAll : Preferences :=
  (Preferences.new ⟨0, 0⟩ 0).addDenyRule (bytes "DENY") (bytes "=") (bytes ":")

/-- A negative DENY rule, which does not apply, changes nothing. -/
theorem isWeed_addRule_negative :
    (isWeed ((denyAll.addDenyRule (bytes "DENY") (bytes "<>") (bytes "x")).precompileExpressions
      plainComp).2.1 plainExec twoLines Weeder.new).1 = 1 :=
  (isWeed_addRule denyAll plainComp plainExec twoLines Weeder.new (bytes "DENY")
    (bytes "<>") (bytes "x")).2.2.1 (by decide) (by decide)

end Order

end Mailfilter
