import Mailfilter.Header
import Mailfilter.Rules

/-!
# The weeder

The class `Weeder` (`weeder.cc`), which decides about a message header: five checks in a row,
each of them loops over the entries of the header and the rules.

A loop that can return from its function is `findSome?`, with the status that is returned and
the messages that are printed before; `Rules.lastUnmatched` is the loop that the negative rules
share.  `regexec` is the matcher of the C library.
-/

namespace Mailfilter

open Rules

/-- The state of the weeder: the message-IDs seen so far. -/
structure Weeder where
  msgIds : List Bytes
  deriving DecidableEq

/-- The weeder at the start of the program. -/
def Weeder.new : Weeder := ⟨[]⟩

/-- `regexec (f.comp_exp (), line.c_str (), 0, NULL, 0) == 0` -/
def Filter.matched (regexec : Option Regex → Bytes → ℤ) (f : Filter) (line : Bytes) : Bool :=
  regexec f.compExp (cstr line) = 0

/-- The test against a size limit; the limit 0 is none. -/
def Exceeds (limit size : Int32) : Prop := 0 < limit ∧ limit < size

instance (limit size : Int32) : Decidable (Exceeds limit size) :=
  inferInstanceAs (Decidable (_ ∧ _))

/-- What a check returns, and what it prints. -/
abbrev Status := ℤ × List LogCall

section Checks

variable (prefs : Preferences) (regexec : Option Regex → Bytes → ℤ) (hdr : Header)

/-- `check_duplicates` -/
def checkDuplicates (w : Weeder) : ℤ × Weeder × List LogCall :=
  if hdr.msgID.length ≤ 0 then (0, w, [])
  else if prefs.deleteDuplicates then
    if w.msgIds.any (hdr.msgID = ·) then
      (1, w, [printMsg (bytes "Deny: " ++ hdr.summary ++ bytes " [Duplicate].") 2])
    else (0, ⟨w.msgIds ++ [hdr.msgID]⟩, [])
  else (0, w, [])

/-- `check_allow_rules`: 1 for spam, 0 for a friend, 2 for neither. -/
def checkAllowRules : Status :=
  let positive := hdr.msgEntries.findSome? fun e =>
    prefs.allowFilters.findSome? fun f =>
      if !f.isNegative && f.matched regexec e.line then
        let allow := printMsg (bytes "Allow: " ++ hdr.summary ++ bytes " [\"" ++ f.expression ++
          bytes "\" matches \"" ++ e.line ++ bytes "\"].") 4
        -- OK, friendly message detected. Now check, whether MAXSIZE_ALLOW applies.
        if Exceeds prefs.maxSizeAllow hdr.msgSize then
          some ((1 : ℤ), [allow, printMsg (bytes "Deny: " ++ hdr.summary ++
            bytes " [Maxsize_Allow exceeded].") 2])
        else some (0, [allow])
      else none
  let negative := if 0 < prefs.negAllows then
      prefs.allowFilters.findSome? fun f =>
        if f.isNegative then
          lastUnmatched (fun e => f.matched regexec e.line)
            ((0 : ℤ), [printMsg (bytes "Allow: " ++ hdr.summary ++ bytes " [Negative allow rule \"" ++
              f.expression ++ bytes "\" did not match].") 4]) hdr.msgEntries
        else none
    else none
  (positive.or negative).getD (2, [])

/-- `check_maxlength` -/
def checkMaxlength : Status :=
  if prefs.maxlength = 0 then (0, [])
  else
    (hdr.msgEntries.findSome? fun e =>
      -- the limit is compared as an `unsigned int`
      if prefs.maxlength.toUInt32.toNat < e.line.length then
        some ((1 : ℤ), [printMsg (bytes "Deny: " ++ hdr.summary ++ bytes " [\"" ++ e.tag ++
          bytes "\" exceeded maxlength].") 2])
      else none).getD (0, [])

/-- Does a rule match the normalised subject, tried at the entry `e`? -/
def normalMatched (f : Filter) (e : Entry) : Bool :=
  prefs.normal && cstr e.tag = bytes "Subject" && f.matched regexec hdr.msgNormalSubject

/-- `check_deny_rules` -/
def checkDenyRules : Status :=
  if Exceeds prefs.maxSizeDeny hdr.msgSize then
    (1, [printMsg (bytes "Deny: " ++ hdr.summary ++ bytes " [Maxsize_Deny exceeded].") 2])
  else
    let positive := hdr.msgEntries.findSome? fun e =>
      prefs.denyFilters.findSome? fun f =>
        if !f.isNegative && f.matched regexec e.line then
          some ((1 : ℤ), [printMsg (bytes "Deny: " ++ hdr.summary ++ bytes " [\"" ++ f.expression ++
            bytes "\" matches \"" ++ e.line ++ bytes "\"].") 2])
        else if !f.isNegative && normalMatched prefs regexec hdr f e then
          some (1, [printMsg (bytes "Deny: " ++ hdr.summary ++ bytes " [\"" ++ f.expression ++
            bytes "\" matches \"" ++ e.line ++ bytes "\" (normalised)].") 2])
        else none
    let negative := if 0 < prefs.negDenies then
        prefs.denyFilters.findSome? fun f =>
          if f.isNegative then
            lastUnmatched
              (fun e => f.matched regexec e.line || normalMatched prefs regexec hdr f e)
              ((1 : ℤ), [printMsg (bytes "Deny: " ++ hdr.summary ++ bytes " [Negative deny rule \"" ++
                f.expression ++ bytes "\" did not match].") 4]) hdr.msgEntries
          else none
      else none
    (positive.or negative).getD (0, [])

/-- A score reached so far, and what was printed on the way. -/
abbrev Tally := Int32 × List LogCall

/-- The test against the `MAXSIZE_SCORE` setting. -/
def sizeTally : Int32 :=
  if prefs.maxSizeScore.score ≠ 0 ∧ Exceeds prefs.maxSizeScore.size hdr.msgSize then
    prefs.maxSizeScore.score
  else 0

/-- The nested loops over the entries and the ordinary score rules. -/
def positiveTally (t : Tally) : Tally :=
  hdr.msgEntries.foldl (fun t e =>
    prefs.scoreFilters.foldl (fun t s =>
      if !s.isNegative &&
          (s.toFilter.matched regexec e.line || normalMatched prefs regexec hdr s.toFilter e) then
        (t.1 + s.score, t.2 ++ [printMsg (bytes "Score: \"" ++ s.expression ++
          bytes "\" matches \"" ++ e.line ++ bytes "\" [" ++ intToString s.score.toInt ++
          bytes "].") 5])
      else t) t) t

/-- The nested loops over the negative score rules and the entries. -/
def negativeTally (t : Tally) : Tally :=
  prefs.scoreFilters.foldl (fun t s =>
    if s.isNegative then
      (lastUnmatched
        (fun e => s.toFilter.matched regexec e.line || normalMatched prefs regexec hdr s.toFilter e)
        (t.1 + s.score, t.2 ++ [printMsg (bytes "Score: <> \"" ++ s.expression ++
          bytes "\" did not match [" ++ intToString s.score.toInt ++ bytes "].") 5])
        hdr.msgEntries).getD t
    else t) t

/-- `check_scores` -/
def checkScores : Status :=
  let tally := negativeTally prefs regexec hdr
    (positiveTally prefs regexec hdr (sizeTally prefs hdr, []))
  if prefs.highscore ≤ tally.1 then
    (1, tally.2 ++ [printMsg (bytes "Deny: " ++ hdr.summary ++ bytes " [Score: " ++
      intToString tally.1.toInt ++ bytes "].") 2])
  else
    (0, tally.2 ++ [printMsg (bytes "Pass: " ++ hdr.summary ++ bytes " [Score: " ++
      intToString tally.1.toInt ++ bytes "].") 5])

/-- `is_weed`: 1 if the mail qualifies as spam, 0 if it should not be deleted, and a negative
integer upon error. -/
def isWeed (w : Weeder) : ℤ × Weeder × List LogCall :=
  let (dup, w', log) := checkDuplicates prefs hdr w
  if dup = 1 then (1, w', log)
  else if dup < 0 then (dup, w', log)
  else
    let allow := checkAllowRules prefs regexec hdr
    let log := log ++ allow.2
    if allow.1 = 1 then (1, w', log)
    else if allow.1 = 0 then (0, w', log)
    else if allow.1 < 0 then (allow.1, w', log)
    else
      let long := checkMaxlength prefs hdr
      let log := log ++ long.2
      if long.1 = 1 then (1, w', log)
      else
        let deny := checkDenyRules prefs regexec hdr
        let log := log ++ deny.2
        if deny.1 = 1 then (1, w', log)
        else if deny.1 < 0 then (deny.1, w', log)
        else
          let scores := checkScores prefs regexec hdr
          let log := log ++ scores.2
          if scores.1 = 1 then (1, w', log) else (0, w', log)

end Checks

/-! ### Plain expressions -/

/-- `regcomp`, for an expression of ordinary characters, perhaps between `^` and `$`. -/
def plainComp (_ : Bytes) (_ : ℕ) : ℤ := 0

/-- With `REG_ICASE` letters are compared without regard to case. -/
def foldCase (cflags : ℕ) (s : Bytes) : Bytes :=
  if cflags / regIcase % 2 = 1 then s.map toupper else s

/-- Does the line contain the text, where the anchors ask for it? -/
def plainFound (start finish : Bool) (text line : Bytes) : Bool :=
  match start, finish with
  | false, false => line.tails.any (text.isPrefixOf ·)
  | true, false => text.isPrefixOf line
  | false, true => text.isSuffixOf line
  | true, true => text = line

/-- `regexec`, for such an expression: 0 or `REG_NOMATCH`. -/
def plainExec : Option Regex → Bytes → ℤ
  | none, _ => 1
  | some r, line =>
    let start := r.expression.head? = some (chr '^')
    let finish := r.expression.getLast? = some (chr '$')
    let text := if start then r.expression.tail else r.expression
    let text := if finish then text.dropLast else text
    if plainFound start finish (foldCase r.cflags text) (foldCase r.cflags line) then 0 else 1

example : plainExec (some ⟨bytes "^to: X$", regIcase⟩) (bytes "To: x") = 0 := by decide

end Mailfilter
