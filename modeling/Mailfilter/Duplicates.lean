import Mailfilter.Verdict

/-!
# Duplicates over a whole run

One weeder judges all headers of a run, and remembers the message-IDs.

* `weedAll`, the verdicts of a run;
* `RulesPass`: the checks after the one for duplicates leave a message alone;
* `isWeed_eq_zero_iff` and `mem_msgIds_isWeed`, what one header does: its verdict is 0 when its ID
  is new and the rules let it pass, and its ID is seen from then on, whatever the verdict;
* `duplicates_kept_iff`: some copy of a message survives just when the first copy passes the rules,
  which need not judge all copies alike.
-/

namespace Mailfilter

section Runs

variable (prefs : Preferences) (regexec : Option Regex → Bytes → ℤ)

/-- The verdicts about a sequence of headers that are passed to one weeder. -/
def weedAll : List Header → Weeder → List ℤ
  | [], _ => []
  | hdr :: hdrs, w =>
    (isWeed prefs regexec hdr w).1 :: weedAll hdrs (isWeed prefs regexec hdr w).2.1

/-- The rules make the message a friend, or nothing speaks against it. -/
def RulesPass (hdr : Header) : Prop :=
  (checkAllowRules prefs regexec hdr).1 = 0 ∨
    ((checkAllowRules prefs regexec hdr).1 ≠ 1 ∧ ¬ (checkAllowRules prefs regexec hdr).1 < 0 ∧
      (checkMaxlength prefs hdr).1 ≠ 1 ∧
      (checkDenyRules prefs regexec hdr).1 ≠ 1 ∧ ¬ (checkDenyRules prefs regexec hdr).1 < 0 ∧
      (checkScores prefs regexec hdr).1 ≠ 1)

instance (hdr : Header) : Decidable (RulesPass prefs regexec hdr) :=
  inferInstanceAs (Decidable (_ ∨ _))

/-- Some header with the ID `x` gets the verdict 0. -/
def Kept (x : Bytes) (hdrs : List Header) (w : Weeder) : Prop :=
  ∃ p ∈ hdrs.zip (weedAll prefs regexec hdrs w), p.1.msgID = x ∧ p.2 = 0

instance (x : Bytes) (hdrs : List Header) (w : Weeder) :
    Decidable (Kept prefs regexec x hdrs w) :=
  inferInstanceAs (Decidable (∃ p ∈ hdrs.zip (weedAll prefs regexec hdrs w), _))

variable {prefs} {regexec}

/-! ### One header -/

/-- A message is left alone if it is not a duplicate and passes the rules. -/
theorem isWeed_eq_zero_iff {hdr : Header} {w : Weeder} :
    (isWeed prefs regexec hdr w).1 = 0 ↔ ¬ Duplicate prefs hdr w ∧ RulesPass prefs regexec hdr := by
  have hdup : (checkDuplicates prefs hdr w).1 = _ := checkDuplicates_status w
  unfold isWeed RulesPass
  generalize checkDuplicates prefs hdr w = dup at hdup ⊢
  obtain ⟨dup, w', log⟩ := dup
  simp only at hdup
  subst hdup
  by_cases h₁ : Duplicate prefs hdr w
  · simp [h₁]
  simp only [h₁, if_false, zero_ne_one, lt_irrefl, not_false_eq_true, true_and]
  generalize checkAllowRules prefs regexec hdr = allow
  generalize checkMaxlength prefs hdr = long
  generalize checkDenyRules prefs regexec hdr = deny
  generalize checkScores prefs regexec hdr = scores
  simp only [apply_ite Prod.fst]
  split_ifs <;> omega

theorem weeder_isWeed {hdr : Header} {w : Weeder} :
    (isWeed prefs regexec hdr w).2.1 = (checkDuplicates prefs hdr w).2.1 := by
  unfold isWeed
  generalize checkDuplicates prefs hdr w = dup
  obtain ⟨dup, w', log⟩ := dup
  generalize checkAllowRules prefs regexec hdr = allow
  generalize checkMaxlength prefs hdr = long
  generalize checkDenyRules prefs regexec hdr = deny
  generalize checkScores prefs regexec hdr = scores
  simp only [apply_ite Prod.snd, apply_ite Prod.fst, ite_self]

/-- After a header its ID has been seen. -/
theorem mem_msgIds_isWeed (hdel : prefs.deleteDuplicates = true) {hdr : Header} {w : Weeder}
    {x : Bytes} (hx : x ≠ []) :
    x ∈ (isWeed prefs regexec hdr w).2.1.msgIds ↔ x ∈ w.msgIds ∨ hdr.msgID = x := by
  rw [weeder_isWeed]
  unfold checkDuplicates
  split_ifs with hlen hmem
  · have hid : hdr.msgID = [] := List.length_eq_zero_iff.1 (Nat.le_zero.1 hlen)
    rw [hid, or_iff_left hx.symm]
  · have hseen : hdr.msgID ∈ w.msgIds := by simpa using hmem
    exact ⟨Or.inl, fun h => h.elim id fun h => h ▸ hseen⟩
  · simp [eq_comm]

/-! ### A sequence of headers -/

theorem kept_cons {x : Bytes} {hdr : Header} {hdrs : List Header} {w : Weeder} :
    Kept prefs regexec x (hdr :: hdrs) w ↔
      (hdr.msgID = x ∧ (isWeed prefs regexec hdr w).1 = 0) ∨
        Kept prefs regexec x hdrs (isWeed prefs regexec hdr w).2.1 := by
  simp [Kept, weedAll]

/-- No later header with an ID that has been seen is kept. -/
theorem not_kept_of_seen (hdel : prefs.deleteDuplicates = true) {x : Bytes} (hx : x ≠ [])
    {hdrs : List Header} {w : Weeder} (hseen : x ∈ w.msgIds) : ¬ Kept prefs regexec x hdrs w := by
  induction hdrs generalizing w with
  | nil => simp [Kept]
  | cons hdr hdrs ih =>
    rw [kept_cons, not_or]
    refine ⟨?_, ih ((mem_msgIds_isWeed hdel hx).2 (Or.inl hseen))⟩
    rintro ⟨rfl, hzero⟩
    exact (isWeed_eq_zero_iff.1 hzero).1 ⟨hx, hdel, hseen⟩

/-- Of the headers with a new ID the first is the only one that may be kept. -/
theorem kept_iff_of_new (hdel : prefs.deleteDuplicates = true) {x : Bytes} (hx : x ≠ [])
    {hdrs : List Header} {w : Weeder} (hnew : x ∉ w.msgIds) :
    Kept prefs regexec x hdrs w ↔
      ∃ hdr, hdrs.find? (fun hdr => hdr.msgID = x) = some hdr ∧ RulesPass prefs regexec hdr := by
  induction hdrs generalizing w with
  | nil => simp [Kept]
  | cons hdr hdrs ih =>
    rw [kept_cons]
    by_cases hid : hdr.msgID = x
    · subst hid
      have hseen : hdr.msgID ∈ (isWeed prefs regexec hdr w).2.1.msgIds :=
        (mem_msgIds_isWeed hdel hx).2 (Or.inr rfl)
      rw [or_iff_left (not_kept_of_seen hdel hx hseen), isWeed_eq_zero_iff,
        and_iff_right rfl, and_iff_right fun hdup : Duplicate prefs hdr w => hnew hdup.2.2]
      simp
    · have hnew' : x ∉ (isWeed prefs regexec hdr w).2.1.msgIds := by
        rw [mem_msgIds_isWeed hdel hx, not_or]
        exact ⟨hnew, hid⟩
      rw [or_iff_right fun h => hid h.1, ih hnew']
      simp [hid]

/-- What the rules say of a message, asked with DEL_DUPLICATES off. -/
theorem isWeed_off_eq_zero_iff {hdr : Header} {w : Weeder} :
    (isWeed { prefs with deleteDuplicates := false } regexec hdr w).1 = 0 ↔
      RulesPass prefs regexec hdr :=
  isWeed_eq_zero_iff.trans (and_iff_right fun h => Bool.false_ne_true h.2.1)

/-- **Duplicate elimination** loses no message just when no copy of it passes the rules, or the
first one does. -/
theorem duplicates_kept_iff (hdel : prefs.deleteDuplicates = true) {x : Bytes} (hx : x ≠ [])
    (hdrs : List Header) :
    ((∃ hdr ∈ hdrs, hdr.msgID = x ∧
          (isWeed { prefs with deleteDuplicates := false } regexec hdr Weeder.new).1 = 0) →
        Kept prefs regexec x hdrs Weeder.new) ↔
      (∀ hdr ∈ hdrs, hdr.msgID = x → ¬ RulesPass prefs regexec hdr) ∨
        ∃ hdr, hdrs.find? (fun hdr => hdr.msgID = x) = some hdr ∧ RulesPass prefs regexec hdr := by
  have hnew : x ∉ Weeder.new.msgIds := List.not_mem_nil
  rw [kept_iff_of_new hdel hx hnew]
  simp only [isWeed_off_eq_zero_iff]
  constructor
  · intro h
    by_cases hpass : ∃ hdr ∈ hdrs, hdr.msgID = x ∧ RulesPass prefs regexec hdr
    · exact Or.inr (h hpass)
    · exact Or.inl fun hdr hmem hid hrules => hpass ⟨hdr, hmem, hid, hrules⟩
  · rintro (hnone | hfirst) ⟨hdr, hmem, hid, hrules⟩
    · exact absurd hrules (hnone hdr hmem hid)
    · exact hfirst

/-- Duplicates are to be deleted, and one DENY rule is set. -/
def denySpam : Preferences :=
  (((Preferences.new ⟨0, 0⟩ 0).addDenyRule (bytes "DENY") (bytes "=") (bytes "^To: x$")).setDelDuplicates
    (bytes "yes")).compiledRules plainComp

/-- A copy of a message with the ID `<a@b>`, which arrived with the given field. -/
def copyWith (tag : String) : Header :=
  { Header.new 0 with
    msgEntries := [⟨bytes tag, bytes "x"⟩]
    msgID := bytes "<a@b>" }

/-- The rules delete the first copy, and the second is deleted as a duplicate of it. -/
theorem denySpam_lost :
    (∃ hdr ∈ [copyWith "To", copyWith "Cc"], hdr.msgID = bytes "<a@b>" ∧
        (isWeed { denySpam with deleteDuplicates := false } plainExec hdr
          Weeder.new).1 = 0) ∧
      weedAll denySpam plainExec [copyWith "To", copyWith "Cc"] Weeder.new = [1, 1] ∧
      ¬ Kept denySpam plainExec (bytes "<a@b>") [copyWith "To", copyWith "Cc"]
        Weeder.new := by
  decide

/-- In the other order the first copy is kept. -/
theorem duplicates_kept_iff_copies :
    Kept denySpam plainExec (bytes "<a@b>") [copyWith "Cc", copyWith "To"] Weeder.new :=
  (duplicates_kept_iff (by decide) (by decide) _).2 (Or.inr ⟨copyWith "Cc", by decide, by decide⟩)
    ⟨copyWith "Cc", by decide, by decide, by decide⟩

end Runs

end Mailfilter
