import Mailfilter.Verdict
import Mailfilter.Rfc822.RoundTrip

/-!
# Negative rules

When the rules with the operator `<>` apply.  The three loops over them notice that nothing has
matched when they come to the last line, so that a header without lines passes all of them by.

* `Unmatched` and `unmatchedScore`, what the negative rules look for;
* `NegativesApply`: they apply exactly when nothing matches;
* `negativesApply_of_entries` and `negativesApply_empty`: headers with lines and without;
* `negativesApply_iff`: together, and `emptyHeader_passes`, a message that no rule sees.
-/

namespace Mailfilter

open Rules Rfc822

section Negatives

variable (prefs : Preferences) (regexec : Option Regex → Bytes → ℤ) (hdr : Header)

/-- The rule hits no line. -/
def Unmatched (hit : Filter → Entry → Bool) (f : Filter) : Prop :=
  ∀ e ∈ hdr.msgEntries, hit f e = false

instance (hit : Filter → Entry → Bool) (f : Filter) : Decidable (Unmatched hdr hit f) :=
  inferInstanceAs (Decidable (∀ e ∈ hdr.msgEntries, _))

/-- The scores of the negative rules that match no line. -/
def unmatchedScore : ℤ :=
  (prefs.scoreFilters.map fun s =>
    if s.isNegative = true ∧ Unmatched hdr (subjectHit prefs regexec hdr) s.toFilter then
      s.score.toInt else 0).sum

/-- The scores of all negative rules. -/
def negativeScore : ℤ :=
  (prefs.scoreFilters.map fun s => if s.isNegative then s.score.toInt else 0).sum

/-- A negative rule applies exactly when nothing matches: an ALLOW rule makes a friend of a message
that is none by a positive rule, a DENY rule denies a message that is neither a duplicate nor a
friend, and the score of a SCORE rule is added to the tally.  With NORMAL on, the last two try the
normalised subject along with the line. -/
structure NegativesApply : Prop where
  allow : ¬ PositiveFriend prefs regexec hdr →
    ((checkAllowRules prefs regexec hdr).1 = 0 ↔
      ∃ f ∈ prefs.allowFilters, f.isNegative = true ∧ Unmatched hdr (lineHit regexec) f)
  deny : ∀ w, ¬ Duplicate prefs hdr w → ¬ Friend prefs regexec hdr →
    ((checkDenyRules prefs regexec hdr).1 = 1 ↔
      Exceeds prefs.maxSizeDeny hdr.msgSize ∨ PositiveDenied prefs regexec hdr ∨
        ∃ f ∈ prefs.denyFilters, f.isNegative = true ∧
          Unmatched hdr (subjectHit prefs regexec hdr) f)
  score : ∀ t, (negativeTally prefs regexec hdr t).1 =
    t.1 + Int32.ofInt (unmatchedScore prefs regexec hdr)

/-- No negative rule has anything to add: there is no ALLOW rule, no DENY rule that is needed, and
the scores cancel out. -/
def NegativesIdle : Prop :=
  (∀ f ∈ prefs.allowFilters, f.isNegative = false) ∧
    (Exceeds prefs.maxSizeDeny hdr.msgSize ∨ ∀ f ∈ prefs.denyFilters, f.isNegative = false) ∧
    Int32.ofInt (negativeScore prefs) = 0

instance : Decidable (NegativesIdle prefs hdr) := inferInstanceAs (Decidable (_ ∧ _ ∧ _))

variable {prefs regexec hdr}

/-! ### A header with lines -/

theorem negativeTally_add (hne : hdr.msgEntries ≠ []) (t : Tally) :
    (negativeTally prefs regexec hdr t).1 =
      t.1 + Int32.ofInt (unmatchedScore prefs regexec hdr) := by
  have ht : t.Represents t.1.toInt := (Int32.ofInt_toInt t.1).symm
  have hrep : (negativeTally prefs regexec hdr t).Represents _ := negativeTally_represents hne ht
  have hsum : (prefs.scoreFilters.map fun s =>
      if s.isNegative && hdr.msgEntries.all fun e => !subjectHit prefs regexec hdr s.toFilter e then
        s.score.toInt else 0).sum = unmatchedScore prefs regexec hdr := by
    refine congrArg List.sum (List.map_congr_left fun s _ => if_congr ?_ rfl rfl)
    simp [Unmatched]
  rw [hsum] at hrep
  rw [hrep, Int32.ofInt_add, Int32.ofInt_toInt]

theorem negativeFriend_iff_unmatched (hc : prefs.Counted) (hne : hdr.msgEntries ≠ []) :
    NegativeFriend prefs regexec hdr ↔
      ∃ f ∈ prefs.allowFilters, f.isNegative = true ∧ Unmatched hdr (lineHit regexec) f := by
  constructor
  · exact fun h => h.2.2
  · rintro ⟨f, hf, hn, hall⟩
    exact ⟨hc.negAllows_pos.2 ⟨f, hf, hn⟩, hne, f, hf, hn, hall⟩

theorem negativeDenied_iff_unmatched (hc : prefs.Counted) (hne : hdr.msgEntries ≠ []) :
    NegativeDenied prefs regexec hdr ↔
      ∃ f ∈ prefs.denyFilters, f.isNegative = true ∧
        Unmatched hdr (subjectHit prefs regexec hdr) f := by
  constructor
  · exact fun h => h.2.2
  · rintro ⟨f, hf, hn, hall⟩
    exact ⟨hc.negDenies_pos.2 ⟨f, hf, hn⟩, hne, f, hf, hn, hall⟩

theorem negativesApply_of_entries (hc : prefs.Counted) (hne : hdr.msgEntries ≠ []) :
    NegativesApply prefs regexec hdr where
  allow hpos := by
    rw [checkAllowRules_nonPositive hpos, ← negativeFriend_iff_unmatched hc hne]
    split_ifs with h <;> simp [h]
  deny w hdup hfriend := by
    rw [checkDenyRules_formula, ← negativeDenied_iff_unmatched hc hne]
    split_ifs with h <;> simp [h]
  score := negativeTally_add hne

/-! ### A header without lines -/

theorem unmatched_empty (hempty : hdr.msgEntries = []) (hit : Filter → Entry → Bool) (f : Filter) :
    Unmatched hdr hit f := by
  unfold Unmatched
  simp [hempty]

theorem positiveFriend_empty (hempty : hdr.msgEntries = []) :
    ¬ PositiveFriend prefs regexec hdr := by
  unfold PositiveFriend
  simp [hempty]

/-- The ALLOW rules leave the message to the others. -/
theorem checkAllowRules_empty (hempty : hdr.msgEntries = []) :
    (checkAllowRules prefs regexec hdr).1 = 2 := by
  rw [checkAllowRules_nonPositive (positiveFriend_empty hempty)]
  exact if_neg fun h => h.2.1 hempty

/-- Of the DENY rules nothing is left but the size. -/
theorem checkDenyRules_empty (hempty : hdr.msgEntries = []) :
    (checkDenyRules prefs regexec hdr).1 = 1 ↔ Exceeds prefs.maxSizeDeny hdr.msgSize := by
  have hpos : ¬ PositiveDenied prefs regexec hdr := by
    unfold PositiveDenied
    simp [hempty]
  have hneg : ¬ NegativeDenied prefs regexec hdr := fun h => h.2.1 hempty
  rw [checkDenyRules_formula]
  simp [hpos, hneg]

theorem unmatchedScore_empty (hempty : hdr.msgEntries = []) :
    unmatchedScore prefs regexec hdr = negativeScore prefs := by
  unfold unmatchedScore negativeScore
  simp [unmatched_empty hempty]

theorem negativesApply_empty (hempty : hdr.msgEntries = []) :
    NegativesApply prefs regexec hdr ↔ NegativesIdle prefs hdr := by
  have hfriend : Friend prefs regexec hdr ↔ ∃ f ∈ prefs.allowFilters, f.isNegative = true := by
    refine (anyApplies_iff.trans (or_iff_right (positiveFriend_empty hempty))).trans ?_
    simp [hempty]
  have hpos : ¬ PositiveDenied prefs regexec hdr := by
    unfold PositiveDenied
    simp [hempty]
  have hscore : (∀ t : Tally, (negativeTally prefs regexec hdr t).1 =
      t.1 + Int32.ofInt (unmatchedScore prefs regexec hdr)) ↔
        Int32.ofInt (negativeScore prefs) = 0 := by
    simp only [negativeTally_empty hempty, unmatchedScore_empty hempty]
    constructor
    · exact fun h => (Int32.zero_add _).symm.trans (h (0, [])).symm
    · exact fun h t => by rw [h, Int32.add_zero]
  constructor
  · intro h
    have hallow : ∀ f ∈ prefs.allowFilters, f.isNegative = false := by
      intro f hf
      by_contra hn
      have hstatus := (h.allow (positiveFriend_empty hempty)).2
        ⟨f, hf, by simpa using hn, unmatched_empty hempty _ f⟩
      rw [checkAllowRules_empty hempty] at hstatus
      cases hstatus
    refine ⟨hallow, ?_, hscore.1 h.score⟩
    by_contra hdeny
    obtain ⟨hsize, f, hf, hn⟩ : ¬ Exceeds prefs.maxSizeDeny hdr.msgSize ∧
        ∃ f ∈ prefs.denyFilters, f.isNegative = true := by
      simpa using hdeny
    have hdenied := (h.deny Weeder.new not_duplicate_new (by simpa [hfriend] using hallow)).2
      (Or.inr (Or.inr ⟨f, hf, hn, unmatched_empty hempty _ f⟩))
    exact hsize ((checkDenyRules_empty hempty).1 hdenied)
  · rintro ⟨hallow, hdeny, hsum⟩
    refine ⟨fun _ => ?_, fun w _ _ => ?_, hscore.2 hsum⟩
    · rw [checkAllowRules_empty hempty]
      refine iff_of_false (by decide) ?_
      rintro ⟨f, hf, hn, -⟩
      rw [hallow f hf] at hn
      cases hn
    · rw [checkDenyRules_empty hempty]
      refine ⟨Or.inl, ?_⟩
      rintro (hsize | hp | ⟨f, hf, hn, -⟩)
      · exact hsize
      · exact absurd hp hpos
      · refine hdeny.resolve_right fun hall => ?_
        rw [hall f hf] at hn
        cases hn

/-- **Negative rules** apply exactly when nothing matches, unless the header is empty and one of
them should. -/
theorem negativesApply_iff (hbuilt : prefs.Built) :
    NegativesApply prefs regexec hdr ↔ hdr.msgEntries ≠ [] ∨ NegativesIdle prefs hdr := by
  by_cases hempty : hdr.msgEntries = []
  · rw [negativesApply_empty hempty, or_iff_right (not_not.2 hempty)]
  · exact iff_of_true (negativesApply_of_entries hbuilt.counted hempty) (Or.inl hempty)

end Negatives

/-- Only mail to joe is wanted. -/
def onlyJoe : Preferences :=
  (Preferences.new ⟨0, 0⟩ 0).addDenyRule (bytes "DENY") (bytes "<>") (bytes "^To:.*joe")

theorem onlyJoe_built : onlyJoe.Built :=
  .deny (.empty (p := Preferences.new ⟨0, 0⟩ 0) rfl rfl rfl rfl rfl) (bytes "DENY") (bytes "<>")
    (bytes "^To:.*joe")

/-- The text of an empty header is parsed, and the message stays. -/
theorem emptyHeader_passes :
    onlyJoe.Built ∧ onlyJoe.normal = false ∧
      rfcparse onlyJoe (Header.new 0) (rfclex (bytes "\r\n.\r\n")) = .ok (Header.new 0) ∧
      ¬ Duplicate onlyJoe (Header.new 0) Weeder.new ∧
      ¬ Friend onlyJoe (fun _ _ => 1) (Header.new 0) ∧
      (∃ f ∈ onlyJoe.denyFilters, f.isNegative = true ∧
        Unmatched (Header.new 0) (lineHit fun _ _ => 1) f) ∧
      (checkDenyRules onlyJoe (fun _ _ => 1) (Header.new 0)).1 = 0 ∧
      (isWeed onlyJoe (fun _ _ => 1) (Header.new 0) Weeder.new).1 = 0 ∧
      ¬ NegativesApply onlyJoe (fun _ _ => 1) (Header.new 0) := by
  have hparse : rfcparse onlyJoe (Header.new 0) (rfclex (bytes "\r\n.\r\n")) =
      .ok (Header.new 0) := by
    have htext : bytes "\r\n.\r\n" = messageText [] := by decide
    rw [htext, rfclex_messageText (by decide)]
    rfl
  have hidle : ¬ NegativesIdle onlyJoe (Header.new 0) := by decide
  exact ⟨onlyJoe_built, rfl, hparse, by decide, by decide, by decide, by decide, by decide,
    fun h => hidle ((negativesApply_empty rfl).1 h)⟩

/-- With a line the rule applies. -/
theorem negativesApply_iff_jim :
    NegativesApply onlyJoe (fun _ _ => 1)
      { Header.new 0 with msgEntries := [⟨bytes "To", bytes "jim"⟩] } :=
  (negativesApply_iff onlyJoe_built).2 (Or.inl (by decide))

end Mailfilter
