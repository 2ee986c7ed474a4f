import Mailfilter.Verdict

/-!
# The three decisions

Which messages that are not duplicates ought to be deleted, and when `isWeed` decides so.

* `isWeed_nonFriend_iff`: a message to which no ALLOW rule applies is judged by its lines, its
  size, the DENY rules and its score, as long as the score does not leave the range of an `int` in
  the wrong direction (`ScoreKept`);
* `isWeed_overlong_iff`: MAXLENGTH deletes a message with a line that is too long, unless the
  message is a friend, which `isWeed` asks first;
* `isWeed_friend_iff`: a friend is judged by MAXSIZE_ALLOW, unless all rules that make it one are
  negative.
-/

namespace Mailfilter

section Decisions

variable {prefs : Preferences} {regexec : Option Regex → Bytes → ℤ} {hdr : Header} {w : Weeder}

/-! ### Non-friends -/

/-- What a message to which no ALLOW rule applies is to be deleted for. -/
def Condemned (prefs : Preferences) (regexec : Option Regex → Bytes → ℤ) (hdr : Header) : Prop :=
  Overlong prefs hdr ∨ Exceeds prefs.maxSizeDeny hdr.msgSize ∨ Denied prefs regexec hdr ∨
    prefs.highscore.toInt ≤ scoreTotal prefs regexec hdr

instance : Decidable (Condemned prefs regexec hdr) := inferInstanceAs (Decidable (_ ∨ _ ∨ _ ∨ _))

/-- Adding up the total in 32 bits does not carry it over the highscore. -/
def ScoreKept (highscore : Int32) (t : ℤ) : Prop :=
  (-2 ^ 31 ≤ t ∧ t < 2 ^ 31) ∨ (2 ^ 31 ≤ t ∧ highscore.toInt ≤ t.bmod (2 ^ 32)) ∨
    (t < -2 ^ 31 ∧ t.bmod (2 ^ 32) < highscore.toInt)

theorem scoreKept_iff {highscore : Int32} {t : ℤ} :
    ScoreKept highscore t ↔ (highscore.toInt ≤ t.bmod (2 ^ 32) ↔ highscore.toInt ≤ t) := by
  have hle : -2 ^ 31 ≤ highscore.toInt := Int32.le_toInt _
  have hlt : highscore.toInt < 2 ^ 31 := Int32.toInt_lt _
  unfold ScoreKept
  rcases lt_or_ge t (-2 ^ 31) with hlow | hlow
  · have hno : ¬ highscore.toInt ≤ t := by omega
    simp only [hno, iff_false]; omega
  rcases lt_or_ge t (2 ^ 31) with hhigh | hhigh
  · have hmod : t.bmod (2 ^ 32) = t := Int.bmod_eq_of_le (by omega) (by omega)
    rw [hmod]
    exact iff_of_true (Or.inl ⟨hlow, hhigh⟩) Iff.rfl
  · have hyes : highscore.toInt ≤ t := by omega
    simp only [hyes, iff_true]; omega

/-- The decision for messages that are neither duplicates nor friends. -/
theorem isWeed_nonFriend (hbuilt : prefs.Built) (hne : hdr.msgEntries ≠ [])
    (hdup : ¬ Duplicate prefs hdr w) (hfriend : ¬ Friend prefs regexec hdr) :
    (isWeed prefs regexec hdr w).1 =
      if Overlong prefs hdr ∨ Exceeds prefs.maxSizeDeny hdr.msgSize ∨ Denied prefs regexec hdr ∨
        ScoreReached prefs regexec hdr then 1 else 0 := by
  rw [isWeed_status hbuilt.counted hne, if_neg hdup, if_neg fun h => hfriend h.friend,
    if_neg hfriend]

/-- **Non-friends**: `isWeed` returns 1 for the condemned and 0 for all others, unless the score is
decisive and not kept. -/
theorem isWeed_nonFriend_iff (hbuilt : prefs.Built) (hne : hdr.msgEntries ≠ [])
    (hdup : ¬ Duplicate prefs hdr w) (hfriend : ¬ Friend prefs regexec hdr) :
    ((isWeed prefs regexec hdr w).1 = 1 ↔ Condemned prefs regexec hdr) ∧
        (¬ Condemned prefs regexec hdr → (isWeed prefs regexec hdr w).1 = 0) ↔
      Overlong prefs hdr ∨ Exceeds prefs.maxSizeDeny hdr.msgSize ∨ Denied prefs regexec hdr ∨
        ScoreKept prefs.highscore (scoreTotal prefs regexec hdr) := by
  rw [isWeed_nonFriend hbuilt hne hdup hfriend, scoreKept_iff]
  unfold Condemned ScoreReached
  by_cases h₁ : Overlong prefs hdr
  · simp [h₁]
  by_cases h₂ : Exceeds prefs.maxSizeDeny hdr.msgSize
  · simp [h₂]
  by_cases h₃ : Denied prefs regexec hdr
  · simp [h₃]
  simp only [h₁, h₂, h₃, false_or]
  generalize (scoreTotal prefs regexec hdr).bmod (2 ^ 32) = r
  by_cases hr : prefs.highscore.toInt ≤ r <;> simp [hr]

/-- A rule that scores `INT_MAX`. -/
def highScore : Preferences :=
  (Preferences.new ⟨0, 0⟩ 0).addScore (bytes "SCORE") 2147483647 (bytes "=") (bytes "a")

theorem highScore_built : highScore.Built :=
  .score (.empty (p := Preferences.new ⟨0, 0⟩ 0) rfl rfl rfl rfl rfl) _ _ _ _

/-- Two such rules. -/
def maximalScores : Preferences :=
  highScore.addScore (bytes "SCORE") 2147483647 (bytes "=") (bytes "b")

theorem maximalScores_built : maximalScores.Built := .score highScore_built _ _ _ _

/-- A header of one line. -/
def oneLine : Header := { Header.new 0 with msgEntries := [⟨bytes "X", bytes "ab"⟩] }

/-- Both rules match the line, and the sum of their scores is −2 as an `int`. -/
theorem maximalScores_pass :
    let prefs := (maximalScores.precompileExpressions plainComp).2.1
    prefs.Built ∧ oneLine.msgEntries ≠ [] ∧ ¬ Duplicate prefs oneLine Weeder.new ∧
      ¬ Friend prefs plainExec oneLine ∧ Condemned prefs plainExec oneLine ∧
      (isWeed prefs plainExec oneLine Weeder.new).1 = 0 :=
  ⟨.compiled maximalScores_built plainComp, by decide, by decide, by decide, by decide, by decide⟩

/-- One rule of the two alone condemns the line, and `isWeed` agrees. -/
theorem isWeed_nonFriend_iff_oneLine :
    let prefs := (highScore.precompileExpressions plainComp).2.1
    ((isWeed prefs plainExec oneLine Weeder.new).1 = 1 ↔ Condemned prefs plainExec oneLine) ∧
      (¬ Condemned prefs plainExec oneLine → (isWeed prefs plainExec oneLine Weeder.new).1 = 0) :=
  (isWeed_nonFriend_iff (.compiled highScore_built plainComp) (by decide) (by decide) (by decide)).2
    (Or.inr (Or.inr (Or.inr (Or.inl (by decide)))))

/-! ### Overlong lines -/

theorem overlong_iff (hpos : 0 < prefs.maxlength) :
    Overlong prefs hdr ↔ ∃ e ∈ hdr.msgEntries, prefs.maxlength.toInt < e.line.length := by
  have hle : 0 ≤ prefs.maxlength := Int32.le_of_lt hpos
  have hval : (prefs.maxlength.toUInt32.toNat : ℤ) = prefs.maxlength.toInt := by
    rw [Int32.toNat_toUInt32_of_le hle]
    exact Int.toNat_of_nonneg (Int32.le_iff_toInt_le.1 hle)
  have hne : prefs.maxlength ≠ 0 := fun h0 => absurd (h0 ▸ hpos) (by decide)
  unfold Overlong
  rw [and_iff_right hne, ← hval]
  simp only [Nat.cast_lt]

/-- **MAXLENGTH**: a message with an overlong line is deleted, unless it is a friend that
MAXSIZE_ALLOW does not delete. -/
theorem isWeed_overlong_iff (hbuilt : prefs.Built) (hpos : 0 < prefs.maxlength)
    (hlong : ∃ e ∈ hdr.msgEntries, prefs.maxlength.toInt < e.line.length) :
    (isWeed prefs regexec hdr w).1 = 1 ↔
      Duplicate prefs hdr w ∨ ¬ Friend prefs regexec hdr ∨
        (PositiveFriend prefs regexec hdr ∧ Exceeds prefs.maxSizeAllow hdr.msgSize) := by
  have hne : hdr.msgEntries ≠ [] := by
    obtain ⟨e, he, -⟩ := hlong
    exact List.ne_nil_of_mem he
  have hover : Overlong prefs hdr := (overlong_iff hpos).2 hlong
  rw [isWeed_status hbuilt.counted hne]
  by_cases h₁ : Duplicate prefs hdr w
  · simp [h₁]
  by_cases h₂ : PositiveFriend prefs regexec hdr
  · simp [h₁, h₂, h₂.friend]
  by_cases h₃ : Friend prefs regexec hdr <;> simp [h₁, h₂, h₃, hover]

/-- A MAXLENGTH of one character, and an ALLOW rule. -/
def shortLines : Preferences :=
  ((Preferences.new ⟨0, 0⟩ 0).addAllowRule (bytes "ALLOW") (bytes "=") (bytes "a")).setMaxlength 1

theorem shortLines_built : shortLines.Built :=
  .setting (.allow (.empty (p := Preferences.new ⟨0, 0⟩ 0) rfl rfl rfl rfl rfl) (bytes "ALLOW")
    (bytes "=") (bytes "a")) rfl rfl rfl rfl rfl

/-- The line is too long and the ALLOW rule matches it: the message stays. -/
theorem shortLines_pass :
    let prefs := (shortLines.precompileExpressions plainComp).2.1
    prefs.Built ∧ 0 < prefs.maxlength ∧
      (∃ e ∈ oneLine.msgEntries, prefs.maxlength.toInt < e.line.length) ∧
      (isWeed prefs plainExec oneLine Weeder.new).1 ≠ 1 :=
  ⟨.compiled shortLines_built plainComp, by decide, by decide, by decide⟩

/-- A header of one line without an `a`. -/
def otherLine : Header := { Header.new 2 with msgEntries := [⟨bytes "X", bytes "bb"⟩] }

/-- Without a match the message is deleted. -/
theorem isWeed_overlong_iff_oneLine :
    (isWeed (shortLines.precompileExpressions plainComp).2.1 plainExec otherLine Weeder.new).1 = 1 :=
  (isWeed_overlong_iff (.compiled shortLines_built plainComp) (by decide) (by decide)).2
    (Or.inr (Or.inl (by decide)))

/-! ### Friends -/

/-- **Friends**: MAXSIZE_ALLOW decides, unless it is exceeded and only negative rules apply. -/
theorem isWeed_friend_iff (hbuilt : prefs.Built) (hne : hdr.msgEntries ≠ [])
    (hdup : ¬ Duplicate prefs hdr w) (hfriend : Friend prefs regexec hdr) :
    (isWeed prefs regexec hdr w).1 = (if Exceeds prefs.maxSizeAllow hdr.msgSize then 1 else 0) ↔
      ¬ Exceeds prefs.maxSizeAllow hdr.msgSize ∨ PositiveFriend prefs regexec hdr := by
  rw [isWeed_status hbuilt.counted hne, if_neg hdup]
  by_cases h₂ : PositiveFriend prefs regexec hdr
  · simp [h₂]
  by_cases hx : Exceeds prefs.maxSizeAllow hdr.msgSize <;> simp [h₂, hfriend, hx]

/-- A MAXSIZE_ALLOW of one byte, and a negative ALLOW rule. -/
def smallFriend : Preferences :=
  ((Preferences.new ⟨0, 0⟩ 0).addAllowRule (bytes "ALLOW") (bytes "<>") (bytes "a")).setMaxSizeAllow
    1

theorem smallFriend_built : smallFriend.Built :=
  .setting (.allow (.empty (p := Preferences.new ⟨0, 0⟩ 0) rfl rfl rfl rfl rfl) (bytes "ALLOW")
    (bytes "<>") (bytes "a")) rfl rfl rfl rfl rfl

/-- The same, once the rule is compiled. -/
def smallFriends : Preferences := (smallFriend.precompileExpressions plainComp).2.1

theorem smallFriends_built : smallFriends.Built := .compiled smallFriend_built plainComp

/-- The rule matches no line, so that the message is a friend; with two bytes it is too large, and
it stays. -/
theorem smallFriends_pass :
    smallFriends.Built ∧ smallFriends.maxlength = 0 ∧ otherLine.msgEntries ≠ [] ∧
      ¬ Duplicate smallFriends otherLine Weeder.new ∧
      Friend smallFriends plainExec otherLine ∧
      Exceeds smallFriends.maxSizeAllow otherLine.msgSize ∧
      (isWeed smallFriends plainExec otherLine Weeder.new).1 = 0 :=
  ⟨smallFriends_built, rfl, by decide, by decide, by decide, by decide, by decide⟩

/-- With one byte it is not too large. -/
theorem isWeed_friend_iff_oneLine :
    (isWeed smallFriends plainExec { otherLine with msgSize := 1 } Weeder.new).1 =
      if Exceeds smallFriends.maxSizeAllow 1 then 1 else 0 :=
  (isWeed_friend_iff smallFriends_built (by decide) (by decide) (by decide)).2
    (Or.inl (by decide))

end Decisions

end Mailfilter
