import Mailfilter.Verdict

/-!
# The range of a score

`check_scores` adds up the scores in an `int`.  When are its sums right?

* `Addition` and `additions`, what the loops add, one after another; `tally_additions`: they add
  nothing else;
* `exactScore`, the sum of some additions as an integer, and `toInt_foldl_add`: the `int` holds it
  modulo 2^32;
* `ScoresExact`: no sum is wrong, and the decision is that of the last one;
* `scoresExact_iff`: that is so just when no exact sum leaves the range of an `int`.
-/

namespace Mailfilter

open Rules

section Additions

variable (prefs : Preferences) (regexec : Option Regex → Bytes → ℤ) (hdr : Header)

/-- A score that is added, and what is printed then. -/
structure Addition where
  score : Int32
  call : LogCall

/-- `msg_score += ..`, and the message. -/
def Tally.add (t : Tally) (a : Addition) : Tally := (t.1 + a.score, t.2 ++ [a.call])

/-- The addition for a rule that matches an entry. -/
def Score.matching (s : Score) (e : Entry) : Addition :=
  ⟨s.score, printMsg (bytes "Score: \"" ++ s.expression ++ bytes "\" matches \"" ++ e.line ++
    bytes "\" [" ++ intToString s.score.toInt ++ bytes "].") 5⟩

/-- The addition for a negative rule that matches none. -/
def Score.unmatching (s : Score) : Addition :=
  ⟨s.score, printMsg (bytes "Score: <> \"" ++ s.expression ++ bytes "\" did not match [" ++
    intToString s.score.toInt ++ bytes "].") 5⟩

/-- What the loops over the entries and the ordinary score rules add. -/
def positiveAdditions : List Addition :=
  hdr.msgEntries.flatMap fun e => prefs.scoreFilters.filterMap fun s =>
    if !s.isNegative && subjectHit prefs regexec hdr s.toFilter e then some (s.matching e) else none

/-- What the loops over the negative score rules add. -/
def negativeAdditions : List Addition :=
  prefs.scoreFilters.filterMap fun s =>
    if s.isNegative then
      lastUnmatched (subjectHit prefs regexec hdr s.toFilter) s.unmatching hdr.msgEntries
    else none

/-- All that is added. -/
def additions : List Addition :=
  positiveAdditions prefs regexec hdr ++ negativeAdditions prefs regexec hdr

/-- The score that the size and some additions come to. -/
def exactScore (added : List Addition) : ℤ :=
  (sizeTally prefs hdr).toInt + (added.map fun a => a.score.toInt).sum

/-- The range of an `int`. -/
def InRange (m : ℤ) : Prop := -2 ^ 31 ≤ m ∧ m < 2 ^ 31

instance (m : ℤ) : Decidable (InRange m) := inferInstanceAs (Decidable (_ ∧ _))

/-- Whatever has been added so far, `msg_score` is the exact sum, and the message is condemned just
when the whole sum reaches HIGHSCORE. -/
structure ScoresExact : Prop where
  intermediate : ∀ added, added <+: additions prefs regexec hdr →
    (added.foldl Tally.add (sizeTally prefs hdr, [])).1.toInt = exactScore prefs hdr added
  condemned : (checkScores prefs regexec hdr).1 = 1 ↔
    prefs.highscore.toInt ≤ exactScore prefs hdr (additions prefs regexec hdr)

end Additions

section Range

variable {prefs : Preferences} {regexec : Option Regex → Bytes → ℤ} {hdr : Header}

/-! ### The loops -/

theorem positiveTally_additions (t : Tally) :
    positiveTally prefs regexec hdr t = (positiveAdditions prefs regexec hdr).foldl Tally.add t := by
  unfold positiveTally positiveAdditions
  rw [List.foldl_flatMap]
  refine congrArg (fun f => hdr.msgEntries.foldl f t) ?_
  funext t e
  rw [List.foldl_filterMap]
  refine congrArg (fun f => prefs.scoreFilters.foldl f t) ?_
  funext t s
  unfold subjectHit
  split_ifs <;> rfl

theorem negativeTally_additions (t : Tally) :
    negativeTally prefs regexec hdr t = (negativeAdditions prefs regexec hdr).foldl Tally.add t := by
  unfold negativeTally negativeAdditions
  rw [List.foldl_filterMap]
  refine congrArg (fun f => prefs.scoreFilters.foldl f t) ?_
  funext t s
  split_ifs
  · show (lastUnmatched (subjectHit prefs regexec hdr s.toFilter) (t.add s.unmatching)
      hdr.msgEntries).getD t = _
    rw [← map_lastUnmatched t.add]
    cases lastUnmatched (subjectHit prefs regexec hdr s.toFilter) s.unmatching hdr.msgEntries <;> rfl
  · rfl

/-- The loops add these scores to that of the size, in this order, and nothing else. -/
theorem tally_additions : negativeTally prefs regexec hdr
    (positiveTally prefs regexec hdr (sizeTally prefs hdr, [])) =
      (additions prefs regexec hdr).foldl Tally.add (sizeTally prefs hdr, []) := by
  rw [positiveTally_additions, negativeTally_additions, additions, List.foldl_append]

theorem checkScores_additions : (checkScores prefs regexec hdr).1 = 1 ↔ prefs.highscore ≤
    ((additions prefs regexec hdr).foldl Tally.add (sizeTally prefs hdr, [])).1 := by
  unfold checkScores
  simp only [tally_additions]
  split_ifs with h <;> simp [h]

/-! ### The sums -/

/-- The `int` holds the exact sum modulo 2^32. -/
theorem toInt_foldl_add (added : List Addition) :
    (added.foldl Tally.add (sizeTally prefs hdr, [])).1.toInt =
      (exactScore prefs hdr added).bmod (2 ^ 32) := by
  have hrep : (added.foldl Tally.add (sizeTally prefs hdr, [])).Represents
      (exactScore prefs hdr added) :=
    foldl_represents (fun _ _ a _ ht => ht.add a.score _) sizeTally_represents
  rw [hrep, Int32.toInt_ofInt]
  rfl

/-- It is the exact sum within the range, and only there. -/
theorem bmod_eq_iff_inRange (m : ℤ) : m.bmod (2 ^ 32) = m ↔ InRange m := by
  constructor
  · intro h
    have hlow : -2 ^ 31 ≤ m.bmod (2 ^ 32) := Int.le_bmod (by decide)
    have hhigh : m.bmod (2 ^ 32) < 2 ^ 31 := Int.bmod_lt (by decide)
    rw [h] at hlow hhigh
    exact ⟨hlow, hhigh⟩
  · rintro ⟨hlow, hhigh⟩
    exact Int.bmod_eq_of_le hlow hhigh

/-- **Scores are exact** just when no exact sum of what has been added so far leaves the range of an
`int`. -/
theorem scoresExact_iff (prefs : Preferences) (regexec : Option Regex → Bytes → ℤ) (hdr : Header) :
    ScoresExact prefs regexec hdr ↔
      ∀ added, added <+: additions prefs regexec hdr → InRange (exactScore prefs hdr added) := by
  constructor
  · intro h added hadded
    rw [← bmod_eq_iff_inRange, ← toInt_foldl_add]
    exact h.intermediate added hadded
  · intro h
    have hexact : ∀ added, added <+: additions prefs regexec hdr →
        (added.foldl Tally.add (sizeTally prefs hdr, [])).1.toInt = exactScore prefs hdr added := by
      intro added hadded
      rw [toInt_foldl_add, bmod_eq_iff_inRange]
      exact h added hadded
    refine ⟨hexact, ?_⟩
    rw [checkScores_additions, Int32.le_iff_toInt_le, hexact _ (List.prefix_refl _)]

end Range

/-- A rule that scores `INT_MAX`. -/
def maximalScore : Preferences :=
  (Preferences.new ⟨0, 0⟩ 0).addScore (bytes "SCORE") 2147483647 (bytes "=") (bytes "buy")

theorem maximalScore_built : maximalScore.Built :=
  .score (.empty (p := Preferences.new ⟨0, 0⟩ 0) rfl rfl rfl rfl rfl) (bytes "SCORE") 2147483647
    (bytes "=") (bytes "buy")

/-- A header with two lines that the rule matches. -/
def matchedTwice : Header :=
  { Header.new 0 with msgEntries := [⟨bytes "Subject", bytes "buy"⟩, ⟨bytes "X-Note", bytes "buy"⟩] }

/-- The second line takes the score from 2147483647 to −2, and the message passes. -/
theorem matchedTwice_passes :
    let prefs := (maximalScore.precompileExpressions plainComp).2.1
    prefs.Built ∧
      (additions prefs plainExec matchedTwice).map Addition.score = [2147483647, 2147483647] ∧
      exactScore prefs matchedTwice (additions prefs plainExec matchedTwice) = 4294967294 ∧
      (checkScores prefs plainExec matchedTwice).1 = 0 ∧ ¬ ScoresExact prefs plainExec matchedTwice := by
  intro prefs
  have hsum : exactScore prefs matchedTwice (additions prefs plainExec matchedTwice) = 4294967294 := by
    decide
  refine ⟨.compiled maximalScore_built plainComp, by decide, hsum, by decide, fun h => ?_⟩
  have hlast := h.intermediate _ (List.prefix_refl _)
  rw [hsum] at hlast
  exact absurd hlast (by decide)

end Mailfilter
