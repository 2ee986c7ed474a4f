import Mailfilter.Carrying
import Mailfilter.Network
import Mailfilter.Verdict

/-!
# The log as an account of the deletions

Whatever is deleted is reported, with a reason that is true.

* `Reason`, why a message is deleted, as the log puts it, and `Reports`, the message that says so;
* `isWeed_told`: the weeder reports a message just when it condemns it;
* `Socket.Quiet`, the member functions of a socket, which report nothing;
* `main_reports`: over a whole run the reports are those of the messages that were condemned, one for
  each and in their order, and which of them are shown.
-/

namespace Mailfilter

open Pop3 Program Rules

/-- The messages about deletions. -/
def denials (calls : List LogCall) : List LogCall := calls.filter fun call => call.Denies

theorem denials_append (calls calls' : List LogCall) :
    denials (calls ++ calls') = denials calls ++ denials calls' :=
  List.filter_append _ _

theorem denials_of_not {call : LogCall} (h : ¬ call.Denies) : denials [call] = [] := by
  simp [denials, h]

theorem denials_log {calls : List LogCall} {call : LogCall} (h : ¬ call.Denies) :
    denials (calls ++ [call]) = denials calls := by
  rw [denials_append, denials_of_not h, List.append_nil]

/-! ### Reasons -/

section Reasons

variable (prefs : Preferences) (regexec : Option Regex → Bytes → ℤ)

/-- A negative DENY rule is the first to speak against the message. -/
structure DeniedByAbsence (w : Weeder) (hdr : Header) : Prop where
  negative : NegativeDenied prefs regexec hdr
  duplicate : ¬ Duplicate prefs hdr w
  friend : ¬ PositiveFriend prefs regexec hdr
  overlong : ¬ Overlong prefs hdr
  size : ¬ Exceeds prefs.maxSizeDeny hdr.msgSize
  positive : ¬ PositiveDenied prefs regexec hdr

instance (w : Weeder) (hdr : Header) : Decidable (DeniedByAbsence prefs regexec w hdr) :=
  decidable_of_iff (NegativeDenied prefs regexec hdr ∧ ¬ Duplicate prefs hdr w ∧
      ¬ PositiveFriend prefs regexec hdr ∧ ¬ Overlong prefs hdr ∧
        ¬ Exceeds prefs.maxSizeDeny hdr.msgSize ∧ ¬ PositiveDenied prefs regexec hdr)
    ⟨fun ⟨h₁, h₂, h₃, h₄, h₅, h₆⟩ => ⟨h₁, h₂, h₃, h₄, h₅, h₆⟩,
      fun ⟨h₁, h₂, h₃, h₄, h₅, h₆⟩ => ⟨h₁, h₂, h₃, h₄, h₅, h₆⟩⟩

/-- Why a message is deleted, and the verbosity from which on the user learns of it. -/
inductive Reason (w : Weeder) (hdr : Header) : Bytes → ℤ → Prop
  | duplicate (h : Duplicate prefs hdr w) : Reason w hdr (bytes "Duplicate") 2
  | maxsizeAllow (hfriend : PositiveFriend prefs regexec hdr)
      (hsize : Exceeds prefs.maxSizeAllow hdr.msgSize) :
      Reason w hdr (bytes "Maxsize_Allow exceeded") 2
  | maxlength {e : Entry} (he : e ∈ hdr.msgEntries) (hset : prefs.maxlength ≠ 0)
      (hlong : prefs.maxlength.toUInt32.toNat < e.line.length) :
      Reason w hdr (bytes "\"" ++ e.tag ++ bytes "\" exceeded maxlength") 2
  | maxsizeDeny (hsize : Exceeds prefs.maxSizeDeny hdr.msgSize) :
      Reason w hdr (bytes "Maxsize_Deny exceeded") 2
  | deny {f : Filter} {e : Entry} (hf : f ∈ prefs.denyFilters) (hpos : f.isNegative = false)
      (he : e ∈ hdr.msgEntries) (hmatch : f.matched regexec e.line = true) :
      Reason w hdr (bytes "\"" ++ f.expression ++ bytes "\" matches \"" ++ e.line ++ bytes "\"") 2
  | normalised {f : Filter} {e : Entry} (hf : f ∈ prefs.denyFilters) (hpos : f.isNegative = false)
      (he : e ∈ hdr.msgEntries) (hmatch : normalMatched prefs regexec hdr f e = true) :
      Reason w hdr (bytes "\"" ++ f.expression ++ bytes "\" matches \"" ++ e.line ++
        bytes "\" (normalised)") 2
  | negative {f : Filter} (hf : f ∈ prefs.denyFilters) (hneg : f.isNegative = true)
      (hnone : ∀ e ∈ hdr.msgEntries, subjectHit prefs regexec hdr f e = false)
      (hfirst : DeniedByAbsence prefs regexec w hdr) :
      Reason w hdr (bytes "Negative deny rule \"" ++ f.expression ++ bytes "\" did not match") 4
  | score (htally : TallyReached prefs regexec hdr) (hneg : ¬ NegativeDenied prefs regexec hdr) :
      Reason w hdr (bytes "Score: " ++ intToString
        (((sizeTally prefs hdr).toInt + ruleScore prefs regexec hdr).bmod (2 ^ 32))) 2

/-- What the log says of a deletion. -/
def denial (hdr : Header) (reason : Bytes) (level : ℤ) : LogCall :=
  printMsg (bytes "Deny: " ++ hdr.summary ++ bytes " [" ++ reason ++ bytes "].") level

/-- The log says of a message, for which the weeder had the given state, why it is deleted. -/
def Reports (x : Weeder × Header) (call : LogCall) : Prop :=
  ∃ reason level, Reason prefs regexec x.1 x.2 reason level ∧ call = denial x.2 reason level

/-- The messages that are condemned by a check with this result. -/
def condemnedBy (w : Weeder) (hdr : Header) (status : ℤ) : List (Weeder × Header) :=
  if status = 1 then [(w, hdr)] else []

/-- A check reports the message just when it condemns it. -/
def Tells (w : Weeder) (hdr : Header) (st : Status) : Prop :=
  List.Forall₂ (Reports prefs regexec) (condemnedBy w hdr st.1) (denials st.2)

end Reasons

section Checks

variable {prefs : Preferences} {regexec : Option Regex → Bytes → ℤ} {hdr : Header} {w : Weeder}
  {reason : Bytes} {level : ℤ} {st : Status}

/-- The level tells one kind of deletions from all others. -/
theorem Reason.level_eq (h : Reason prefs regexec w hdr reason level) :
    (DeniedByAbsence prefs regexec w hdr ∧ level = 4) ∨
      (¬ DeniedByAbsence prefs regexec w hdr ∧ level = 2) := by
  cases h with
  | negative _ _ _ hfirst => exact Or.inl ⟨hfirst, rfl⟩
  | duplicate h => exact Or.inr ⟨fun habs => habs.duplicate h, rfl⟩
  | maxsizeAllow hfriend _ => exact Or.inr ⟨fun habs => habs.friend hfriend, rfl⟩
  | maxlength he hset hlong => exact Or.inr ⟨fun habs => habs.overlong ⟨hset, _, he, hlong⟩, rfl⟩
  | maxsizeDeny hsize => exact Or.inr ⟨fun habs => habs.size hsize, rfl⟩
  | deny hf hpos he hmatch =>
    refine Or.inr ⟨fun habs => habs.positive ⟨_, hf, hpos, _, he, ?_⟩, rfl⟩
    rw [subjectHit, hmatch, Bool.true_or]
  | normalised hf hpos he hmatch =>
    refine Or.inr ⟨fun habs => habs.positive ⟨_, hf, hpos, _, he, ?_⟩, rfl⟩
    rw [subjectHit, hmatch, Bool.or_true]
  | score _ hneg => exact Or.inr ⟨fun habs => hneg habs.negative, rfl⟩

theorem denials_denial : denials [denial hdr reason level] = [denial hdr reason level] := by
  have hdeny : (denial hdr reason level).Denies := by
    refine ⟨rfl, ?_⟩
    show bytes "Deny: " <+: bytes "Deny: " ++ hdr.summary ++ bytes " [" ++ reason ++ bytes "]."
    simp only [List.append_assoc]
    exact List.prefix_append _ _
  simp [denials, hdeny]

/-! ### The five checks -/

theorem tells_denial (h : Reason prefs regexec w hdr reason level) :
    Tells prefs regexec w hdr (1, [denial hdr reason level]) := by
  unfold Tells
  rw [denials_denial]
  exact .cons ⟨reason, level, h, rfl⟩ .nil

/-- The same, with the brackets in the text. -/
theorem tells_text {text : Bytes} (h : Reason prefs regexec w hdr reason level)
    (htext : text = bytes " [" ++ reason ++ bytes "].") :
    Tells prefs regexec w hdr (1, [printMsg (bytes "Deny: " ++ hdr.summary ++ text) level]) := by
  have hdenial := tells_denial h
  unfold denial at hdenial
  rwa [htext, ← List.append_assoc, ← List.append_assoc]

theorem tells_nothing {status : ℤ} {calls : List LogCall} (hstatus : status ≠ 1)
    (hcalls : denials calls = []) : Tells prefs regexec w hdr (status, calls) := by
  unfold Tells condemnedBy
  rw [if_neg hstatus, hcalls]
  exact .nil

/-- What is no report can be said before. -/
theorem Tells.behind {calls : List LogCall} (h : Tells prefs regexec w hdr st)
    (hcalls : denials calls = []) : Tells prefs regexec w hdr (st.1, calls ++ st.2) := by
  unfold Tells
  rwa [denials_append, hcalls, List.nil_append]

/-- A check that condemns nothing is silent. -/
theorem Tells.denials_eq (h : Tells prefs regexec w hdr st) (hst : st.1 ≠ 1) : denials st.2 = [] := by
  unfold Tells condemnedBy at h
  rw [if_neg hst] at h
  exact List.forall₂_nil_left_iff.mp h

theorem tells_getD {o : Option Status} {status : ℤ} (h : ∀ st ∈ o, Tells prefs regexec w hdr st)
    (hstatus : status ≠ 1) : Tells prefs regexec w hdr (o.getD (status, [])) := by
  cases o with
  | none => exact tells_nothing hstatus rfl
  | some st => exact h st rfl

theorem checkDuplicates_tells : Tells prefs regexec w hdr
    ((checkDuplicates prefs hdr w).1, (checkDuplicates prefs hdr w).2.2) := by
  have hstatus : (checkDuplicates prefs hdr w).1 = _ := checkDuplicates_status w
  by_cases hdup : Duplicate prefs hdr w
  · have hlen : ¬ hdr.msgID.length ≤ 0 := fun h => hdup.1 (List.length_eq_zero_iff.mp (by omega))
    have hseen : (w.msgIds.any (hdr.msgID = ·)) = true := by simpa using hdup.2.2
    unfold checkDuplicates
    rw [if_neg hlen, if_pos hdup.2.1, if_pos hseen]
    exact tells_text (.duplicate hdup) rfl
  · rw [if_neg hdup] at hstatus
    refine tells_nothing (by omega) ?_
    unfold checkDuplicates at hstatus ⊢
    split_ifs at hstatus ⊢
    · rfl
    · cases hstatus
    · rfl
    · rfl

/-- Behind the bracket stands the reason. -/
theorem bracket_quote : bytes " [\"" = bytes " [" ++ bytes "\"" := rfl

theorem checkMaxlength_tells : Tells prefs regexec w hdr (checkMaxlength prefs hdr) := by
  have hclosing : bytes "\" exceeded maxlength]." = bytes "\" exceeded maxlength" ++ bytes "]." := rfl
  unfold checkMaxlength
  split_ifs with hset
  · exact tells_nothing (by omega) rfl
  refine tells_getD (fun st hst => ?_) (by omega)
  obtain ⟨e, he, hfound⟩ := List.exists_of_findSome?_eq_some hst
  rw [Option.ite_none_right_eq_some] at hfound
  obtain ⟨hlong, hfound⟩ := hfound
  cases hfound
  have hreason : Reason prefs regexec w hdr _ 2 := .maxlength he hset hlong
  have h := tells_denial hreason
  simpa only [denial, bracket_quote, hclosing, List.append_assoc] using h

/-- A friend is condemned for its size only. -/
theorem checkAllowRules_tells : Tells prefs regexec w hdr (checkAllowRules prefs regexec hdr) := by
  have hallow {text : Bytes} (htext : bytes "Allow: " <+: text) : denials [printMsg text 4] = [] :=
    denials_of_not (not_denies (bytes "Allow: ") htext (by decide) (by decide))
  refine tells_getD (fun st hst => ?_) (by omega)
  rcases Option.or_eq_some_iff.mp hst with hfound | ⟨-, hfound⟩
  · obtain ⟨e, he, f, hf, hfound⟩ := nested_eq_some hfound
    rw [Option.ite_none_right_eq_some] at hfound
    obtain ⟨hmatch, hfound⟩ := hfound
    rw [Bool.and_eq_true, Bool.not_eq_true'] at hmatch
    have hfriend : PositiveFriend prefs regexec hdr := ⟨f, hf, hmatch.1, e, he, hmatch.2⟩
    dsimp only at hfound
    split_ifs at hfound with hsize
    · cases hfound
      exact (tells_text (.maxsizeAllow hfriend hsize) rfl).behind (hallow (by simp))
    · cases hfound
      exact tells_nothing (by omega) (hallow (by simp))
  · rw [Option.ite_none_right_eq_some] at hfound
    obtain ⟨f, hf, hfound⟩ := List.exists_of_findSome?_eq_some hfound.2
    rw [Option.ite_none_right_eq_some] at hfound
    cases (lastUnmatched_eq_some hfound.2).1
    exact tells_nothing (by omega) (hallow (by simp))

/-- The DENY rules, when none of the checks before condemned the message. -/
theorem checkDenyRules_tells (hdup : ¬ Duplicate prefs hdr w) (hfriend : ¬ PositiveFriend prefs regexec hdr)
    (hlong : ¬ Overlong prefs hdr) : Tells prefs regexec w hdr (checkDenyRules prefs regexec hdr) := by
  have hmatches : bytes "\"]." = bytes "\"" ++ bytes "]." := rfl
  have hnormal : bytes "\" (normalised)]." = bytes "\" (normalised)" ++ bytes "]." := rfl
  have hopening : bytes " [Negative deny rule \"" = bytes " [" ++ bytes "Negative deny rule \"" := rfl
  have hclosing : bytes "\" did not match]." = bytes "\" did not match" ++ bytes "]." := rfl
  unfold checkDenyRules
  by_cases hsize : Exceeds prefs.maxSizeDeny hdr.msgSize
  · rw [if_pos hsize]
    exact tells_text (.maxsizeDeny hsize) rfl
  rw [if_neg hsize]
  refine tells_getD (fun st hst => ?_) (by omega)
  rcases Option.or_eq_some_iff.mp hst with hfound | ⟨hnone, hfound⟩
  · obtain ⟨e, he, f, hf, hfound⟩ := nested_eq_some hfound
    split_ifs at hfound with hmatch hmatch'
    · cases hfound
      rw [Bool.and_eq_true, Bool.not_eq_true'] at hmatch
      have h := tells_denial (w := w) (.deny hf hmatch.1 he hmatch.2)
      simpa only [denial, bracket_quote, hmatches, List.append_assoc] using h
    · cases hfound
      rw [Bool.and_eq_true, Bool.not_eq_true'] at hmatch'
      have h := tells_denial (w := w) (.normalised hf hmatch'.1 he hmatch'.2)
      simpa only [denial, bracket_quote, hnormal, List.append_assoc] using h
  · have hpos : ¬ PositiveDenied prefs regexec hdr := by
      obtain ⟨-, st, h, -⟩ | ⟨h, -⟩ := deny_positive hnone (fun _ _ => rfl) fun _ _ => rfl
      · cases h
      · exact h
    rw [Option.ite_none_right_eq_some] at hfound
    obtain ⟨hcount, hfound⟩ := hfound
    obtain ⟨f, hf, hfound⟩ := List.exists_of_findSome?_eq_some hfound
    rw [Option.ite_none_right_eq_some] at hfound
    obtain ⟨rfl, hne, hall⟩ := lastUnmatched_eq_some hfound.2
    have hfirst : DeniedByAbsence prefs regexec w hdr :=
      ⟨⟨hcount, hne, f, hf, hfound.1, hall⟩, hdup, hfriend, hlong, hsize, hpos⟩
    have h := tells_denial (.negative hf hfound.1 hall hfirst)
    simpa only [denial, hopening, hclosing, List.append_assoc] using h

/-! ### Scores -/

/-- What is printed about a score. -/
theorem denials_score {calls : List LogCall} {text : Bytes} {level : ℤ} (hcalls : denials calls = [])
    (htext : bytes "Score: " <+: text) : denials (calls ++ [printMsg text level]) = [] := by
  rw [denials_log (not_denies (bytes "Score: ") htext (by decide) (by decide)), hcalls]

theorem positiveTally_denials {t : Tally} (ht : denials t.2 = []) :
    denials (positiveTally prefs regexec hdr t).2 = [] := by
  refine List.foldlRecOn (motive := fun t : Tally => denials t.2 = []) _ _ ht fun t ht e _ => ?_
  refine List.foldlRecOn (motive := fun t : Tally => denials t.2 = []) _ _ ht fun t ht s _ => ?_
  split_ifs
  · refine denials_score ht (List.IsPrefix.trans (show _ <+: bytes "Score: \"" by decide) ?_)
    simp
  · exact ht

theorem negativeTally_denials {t : Tally} (ht : denials t.2 = []) :
    denials (negativeTally prefs regexec hdr t).2 = [] := by
  refine List.foldlRecOn (motive := fun t : Tally => denials t.2 = []) _ _ ht fun t ht s _ => ?_
  split_ifs
  · cases hunmatched : lastUnmatched _ _ hdr.msgEntries with
    | none => exact ht
    | some t' =>
      obtain ⟨rfl, -⟩ := lastUnmatched_eq_some hunmatched
      refine denials_score ht (List.IsPrefix.trans (show _ <+: bytes "Score: <> \"" by decide) ?_)
      simp
  · exact ht

theorem checkScores_tells (hneg : ¬ NegativeDenied prefs regexec hdr) :
    Tells prefs regexec w hdr (checkScores prefs regexec hdr) := by
  have hquiet : denials (negativeTally prefs regexec hdr
      (positiveTally prefs regexec hdr (sizeTally prefs hdr, []))).2 = [] :=
    negativeTally_denials (positiveTally_denials rfl)
  have htally : (negativeTally prefs regexec hdr
      (positiveTally prefs regexec hdr (sizeTally prefs hdr, []))).1.toInt =
        ((sizeTally prefs hdr).toInt + ruleScore prefs regexec hdr).bmod (2 ^ 32) := by
    rw [tally_represents, Int32.toInt_ofInt]
    rfl
  have hopening : bytes " [Score: " = bytes " [" ++ bytes "Score: " := rfl
  unfold checkScores
  dsimp only
  split_ifs with hhigh
  · have hreached : TallyReached prefs regexec hdr := by
      rw [TallyReached, ← htally]
      exact Int32.le_iff_toInt_le.mp hhigh
    have h := (tells_denial (w := w) (.score hreached hneg)).behind hquiet
    simpa only [denial, hopening, htally, List.append_assoc] using h
  · have hpass : bytes "Pass: " <+: bytes "Pass: " ++ hdr.summary ++ bytes " [Score: " ++
      intToString (negativeTally prefs regexec hdr
        (positiveTally prefs regexec hdr (sizeTally prefs hdr, []))).1.toInt ++ bytes "]." := by simp
    refine tells_nothing (by omega) ?_
    rw [denials_log (not_denies (bytes "Pass: ") hpass (by decide) (by decide)), hquiet]

/-! ### The decision -/

/-- What is decided about a message is reported. -/
def Told (prefs : Preferences) (regexec : Option Regex → Bytes → ℤ) (w : Weeder) (hdr : Header)
    (r : ℤ × Weeder × List LogCall) : Prop :=
  Tells prefs regexec w hdr (r.1, r.2.2)

/-- The next check in the row. -/
theorem Told.check {w' : Weeder} {calls : List LogCall} {rest : ℤ × Weeder × List LogCall}
    (h : Tells prefs regexec w hdr st) (hcalls : denials calls = [])
    (hrest : st.1 ≠ 1 → denials (calls ++ st.2) = [] → Told prefs regexec w hdr rest) :
    Told prefs regexec w hdr (if st.1 = 1 then (1, w', calls ++ st.2) else rest) := by
  by_cases hst : st.1 = 1
  · have htold := h.behind hcalls
    rw [hst] at htold
    rwa [if_pos hst]
  · rw [if_neg hst]
    refine hrest hst ?_
    rw [denials_append, hcalls, h.denials_eq hst, List.append_nil]

/-- A way out without condemning the message. -/
theorem Told.leave {c : Prop} [Decidable c] {status : ℤ} {w' : Weeder} {calls : List LogCall}
    {rest : ℤ × Weeder × List LogCall} (hstatus : status ≠ 1) (hcalls : denials calls = [])
    (hrest : ¬ c → Told prefs regexec w hdr rest) :
    Told prefs regexec w hdr (if c then (status, w', calls) else rest) := by
  split_ifs with hc
  · exact tells_nothing hstatus hcalls
  · exact hrest hc

/-- **The weeder** reports a message just when it condemns it, with a reason. -/
theorem isWeed_told (hdr : Header) (w : Weeder) :
    Told prefs regexec w hdr (isWeed prefs regexec hdr w) := by
  have hdup : Tells prefs regexec w hdr _ := checkDuplicates_tells
  have hcopy : (checkDuplicates prefs hdr w).1 ≠ 1 → ¬ Duplicate prefs hdr w := fun h1 hcopy =>
    h1 ((checkDuplicates_status w).trans (if_pos hcopy))
  have hfriend : (checkAllowRules prefs regexec hdr).1 ≠ 1 → (checkAllowRules prefs regexec hdr).1 ≠ 0 →
      ¬ PositiveFriend prefs regexec hdr := fun h1 h0 hfriend => by
    have hstatus := checkAllowRules_positive hfriend
    split_ifs at hstatus <;> contradiction
  have hover : (checkMaxlength prefs hdr).1 ≠ 1 → ¬ Overlong prefs hdr := fun h1 hover =>
    h1 (checkMaxlength_status.trans (if_pos hover))
  have hnegative : (checkDenyRules prefs regexec hdr).1 ≠ 1 → ¬ NegativeDenied prefs regexec hdr :=
    fun h1 hneg => h1 (checkDenyRules_formula.trans (if_pos (Or.inr (Or.inr hneg))))
  unfold isWeed
  generalize checkDuplicates prefs hdr w = dup at hdup hcopy ⊢
  obtain ⟨dup, w', calls⟩ := dup
  -- the checks, one after the other, with the ways out behind them
  refine Told.check hdup (show denials [] = [] from rfl) fun h₁ hcalls => Told.leave h₁ hcalls fun _ => ?_
  refine Told.check checkAllowRules_tells hcalls fun h₂ hcalls =>
    Told.leave (by omega) hcalls fun hallowed => Told.leave h₂ hcalls fun _ => ?_
  refine Told.check checkMaxlength_tells hcalls fun h₃ hcalls => ?_
  refine Told.check (checkDenyRules_tells (hcopy h₁) (hfriend h₂ hallowed) (hover h₃)) hcalls
    fun h₄ hcalls => Told.leave h₄ hcalls fun _ => ?_
  exact Told.check (checkScores_tells (hnegative h₄)) hcalls fun _ hcalls =>
    tells_nothing (by omega) hcalls

end Checks

/-! ### Sockets -/

namespace Socket

variable {ω : Type} {os : Os ω} {d : List LogCall}

/-- These deletions were reported. -/
def Reported (d : List LogCall) (w : Wire (Socket ω)) : Prop := denials w.log = d

theorem sys_quiet {α : Type} (f : ω → α × ω) : Preserves (Reported d) (sys f) :=
  Triple.of_exec fun _ hw => hw

theorem say_quiet {call : LogCall} (h : ¬ call.Denies) :
    Preserves (Reported d) (say call : Call ω Unit) :=
  Preserves.modify fun _ hw => (denials_log h).trans hw

theorem err_quiet (text : Bytes) : Preserves (Reported d) (say (printErr text) : Call ω Unit) :=
  say_quiet fun h => absurd h.1 (by simp [printErr])

theorem debug_quiet {text : Bytes} (htext : bytes "Debugging: " <+: text) :
    Preserves (Reported d) (say (printMsg text 6) : Call ω Unit) :=
  say_quiet (not_denies (bytes "Debugging: ") htext (by decide) (by decide))

theorem failed_quiet {α : Type} (text : Bytes) (a : α) :
    Preserves (Reported d) (do say (printErr text); pure a : Call ω α) :=
  (err_quiet text).bind fun _ => Preserves.pure a

theorem guarded_quiet {call : OpenCall} {next : Bool → Call ω Int32}
    (hnext : ∀ ok, Preserves (Reported d) (next ok)) : Preserves (Reported d) (guarded os call next) := by
  refine (sys_quiet _).bind fun result => ?_
  cases result with
  | done ok => exact hnext ok
  | alarmed => exact failed_quiet _ _

theorem opened_quiet : Preserves (Reported d) (opened os) :=
  (sys_quiet _).bind fun _ => Preserves.pure _

theorem openFailure_quiet (text : Bytes) : Preserves (Reported d) (openFailure os text) :=
  (err_quiet text).bind fun _ => (sys_quiet _).bind fun _ => Preserves.pure _

theorem negotiate_quiet (hostName : Bytes) : Preserves (Reported d) (negotiate os hostName) := by
  refine guarded_quiet fun _ => Preserves.ite ((err_quiet _).bind fun _ => Preserves.throw _) ?_
  refine guarded_quiet fun _ => Preserves.ite (failed_quiet _ _) ?_
  exact guarded_quiet fun _ => Preserves.ite (failed_quiet _ _) opened_quiet

theorem cOpen_quiet (hostName : Bytes) (port : ℤ) (timeOut : Int32) (protocol : ℕ) :
    Preserves (Reported d) (cOpen os hostName port timeOut protocol) := by
  refine Preserves.bind (Preserves.modify fun _ hw => hw) fun _ => (sys_quiet _).bind fun result => ?_
  match result with
  | .alarmed => exact failed_quiet _ _
  | .done false => exact failed_quiet _ _
  | .done true =>
    refine guarded_quiet fun _ => ?_
    have hconnect : Preserves (Reported d) (guarded os .socket fun ok =>
        if !ok then openFailure os (bytes "DNS look up error; is the hostname correct?")
        else guarded os (.gethostbyname hostName) fun ok =>
          if !ok then openFailure os (bytes "DNS look up error; is the hostname correct?")
          else guarded os (.connect port) fun ok =>
            if !ok then openFailure os (bytes "Server connection could not be established.")
            else do
              if ← Program.gets fun w => w.net.sslUsed then negotiate os hostName else opened os) := by
      refine guarded_quiet fun _ => Preserves.ite (openFailure_quiet _) ?_
      refine guarded_quiet fun _ => Preserves.ite (openFailure_quiet _) ?_
      refine guarded_quiet fun _ => Preserves.ite (openFailure_quiet _) ?_
      exact (Preserves.gets _).bind fun _ => Preserves.ite (negotiate_quiet _) opened_quiet
    refine Preserves.ite ((debug_quiet (by decide)).bind fun _ => ?_)
      ((debug_quiet (by decide)).bind fun _ => hconnect)
    exact Preserves.bind (Preserves.modify fun _ hw => hw) fun _ => hconnect

theorem cClose_quiet : Preserves (Reported d) (cClose os) :=
  (Preserves.gets _).bind fun _ =>
    Preserves.ite ((sys_quiet _).bind fun _ => sys_quiet _) (sys_quiet _)

theorem cWrite_quiet (msg : Bytes) : Preserves (Reported d) (cWrite os msg) := by
  refine (Preserves.gets _).bind fun _ => (sys_quiet _).bind fun sent => ?_
  have hlogged : Preserves (Reported d) (if !(bytes "PASS ").isPrefixOf (cstr msg) then do
        say (printMsg (bytes "Debugging: Wrote: " ++ cstr msg) 6)
        pure sent
      else do
        say (printMsg (bytes "Debugging: Wrote: PASS *****") 6)
        pure sent : Call ω Int32) := by
    have hwrote : bytes "Debugging: " <+: bytes "Debugging: Wrote: " := by decide
    exact Preserves.ite ((debug_quiet (hwrote.trans (List.prefix_append _ _))).bind fun _ => Preserves.pure _)
      ((debug_quiet (by decide)).bind fun _ => Preserves.pure _)
  exact Preserves.ite ((Preserves.gets _).bind fun _ => (err_quiet _).bind fun _ => hlogged) hlogged

theorem sysFailure_quiet : Preserves (Reported d) (sysFailure os) :=
  (Preserves.gets _).bind fun _ => failed_quiet _ _

theorem receiveOnce_quiet : Preserves (Reported d) (receiveOnce os) := by
  refine (Preserves.gets _).bind fun _ =>
    Preserves.ite ?_ ((sys_quiet _).bind fun _ => Preserves.pure _)
  refine (Preserves.gets _).bind fun _ => Preserves.ite ?_ (failed_quiet _ _)
  refine (sys_quiet _).bind fun result => ?_
  have hwarned {text : Bytes} (htext : bytes "Debugging: " <+: text) : Preserves (Reported d)
      (do say (printMsg text 6); pure (.chunk result.1) : Call ω Received) :=
    (debug_quiet htext).bind fun _ => Preserves.pure _
  rcases result with ⟨c, _ | _ | _ | _ | _⟩
  · exact Preserves.pure _
  · exact hwarned (by decide)
  · exact hwarned (by decide)
  · exact hwarned (by decide)
  · exact failed_quiet _ _

theorem receive_quiet (readHeader : Bool) (fuel : ℕ) (input : Bytes) :
    Preserves (Reported d) (receive os readHeader fuel input) := by
  induction fuel generalizing input with
  | zero => exact Preserves.throw _
  | succ fuel ih =>
    refine receiveOnce_quiet.bind fun received => ?_
    cases received with
    | failure => exact Preserves.pure _
    | chunk c =>
      refine Preserves.ite (ih _) (Preserves.ite (Preserves.pure _) ?_)
      cases headerOpen input with
      | none => exact Preserves.throw _
      | some isOpen =>
        cases isOpen with
        | true => exact ih input
        | false => exact Preserves.pure _

theorem cRead_quiet (fuel : ℕ) (readHeader : Bool) : Preserves (Reported d) (cRead os fuel readHeader) := by
  refine (sys_quiet _).bind fun flags => ?_
  cases flags with
  | none => exact sysFailure_quiet
  | some flags =>
    refine (sys_quiet _).bind fun _ => Preserves.ite sysFailure_quiet ?_
    refine (Preserves.gets _).bind fun _ => (sys_quiet _).bind fun selected => ?_
    match selected with
    | .error => exact sysFailure_quiet
    | .timedOut => exact failed_quiet _ _
    | .ready false => exact Preserves.pure _
    | .ready true =>
      refine (receive_quiet readHeader fuel []).bind fun received => ?_
      cases received with
      | none => exact Preserves.pure _
      | some input =>
        have hread : bytes "Debugging: " <+: bytes "Debugging: Read: " := by decide
        refine Preserves.ite (Preserves.throw _) ?_
        refine (debug_quiet (hread.trans (List.prefix_append _ _))).bind fun _ => ?_
        refine (sys_quiet _).bind fun _ => Preserves.ite sysFailure_quiet ?_
        exact Preserves.bind (Preserves.modify fun _ hw => hw) fun _ => Preserves.pure _

end Socket

/-! ### Whole runs -/

/-- The messages that were condemned, with the state of the weeder before. -/
def condemned (trace : List Event) : List (Weeder × Header) := trace.flatMap fun
  | .weed before hdr verdict => condemnedBy before hdr verdict
  | _ => []

theorem condemned_append (trace trace' : List Event) :
    condemned (trace ++ trace') = condemned trace ++ condemned trace' :=
  List.flatMap_append

/-- What was condemned was reported. -/
def Accounted {σ : Type} (env : Env) (s : World σ) : Prop :=
  List.Forall₂ (Reports env.prefs env.regexec) (condemned s.trace) (denials s.wire.log)

section Sessions

variable {σ ω : Type} {env : Env} {os : ℕ → Os ω} {fuel : ℕ}

theorem log_accounted {call : LogCall} (h : ¬ call.Denies) :
    Preserves (Accounted env) (log call : Run σ Unit) := by
  refine Preserves.modify fun s hs => ?_
  unfold Accounted
  rwa [denials_log h]

theorem record_accounted {α : Type} {e : World σ → Event} (he : ∀ s, condemned [e s] = []) (a : α) :
    Preserves (Accounted env) (do modify fun s => s.record (e s); pure a : Run σ α) := by
  refine record_preserves (fun s hs => ?_) a
  unfold Accounted World.record
  rwa [condemned_append, he, List.append_nil]

/-- Nothing is reported by a socket. -/
theorem onSocket_accounted {α : Type} {p : Socket.Call ω α}
    (hp : ∀ d, Preserves (Socket.Reported d) p) (sock : ℕ) :
    Preserves (Accounted env) (onWire (onSocket sock p)) := by
  have hsocket (d : List LogCall) : Preserves (fun w => denials w.log = d) (onSocket sock p) :=
    Triple.onPart (fun _ => hp d) (fun _ hw => hw) (fun _ _ _ _ h => h) fun _ _ _ _ h => h
  have hwire {s : World (Net ω)} {w : Wire (Net ω)} (hs : Accounted env s)
      (hw : denials w.log = denials s.wire.log) : Accounted env { s with wire := w } := by
    unfold Accounted
    rwa [hw]
  exact Triple.onPart (fun s => hsocket (denials s.wire.log)) (fun _ _ => rfl)
    (fun _ _ _ hs hw => hwire hs hw) fun _ _ _ hs hw => hwire hs hw

theorem weed_accounted (hdr : Header) : Preserves (Accounted env) (weed env hdr : Run σ ℤ) := by
  refine Triple.of_exec fun s hs => ?_
  show List.Forall₂ _ (condemned (s.trace ++ [.weed s.weeder hdr _])) (denials (s.wire.log ++ _))
  rw [condemned_append, denials_append]
  refine List.rel_append hs ?_
  rw [condemned, List.flatMap_singleton]
  exact isWeed_told hdr s.weeder

/-- The sessions keep account. -/
theorem networked_accounted (sock : ℕ) :
    Carries (networked os fuel sock) env (Accounted env) (Accounted env) := by
  have hread (header : Bool) : Preserves (Accounted env) (cRead (networked os fuel sock) header) :=
    (onSocket_accounted (fun _ => Socket.cRead_quiet fuel header) sock).bind fun ret =>
      record_accounted (fun _ => rfl) ret
  have herr {α : Type} (text : Bytes) (a : α) :
      Preserves (Accounted env) (do log (printErr text); pure a : Run (Net ω) α) :=
    (log_accounted fun h => absurd h.1 (by simp [printErr])).bind fun _ => Preserves.pure a
  refine ⟨fun _ => log_accounted, hread false, fun msg => ?_, ?_, ?_, weed_accounted⟩
  · refine Preserves.bind (Preserves.modify fun s hs => ?_) fun _ =>
      onSocket_accounted (fun _ => Socket.cWrite_quiet msg) sock
    unfold Accounted World.record
    rwa [condemned_append, show condemned [.write msg] = [] from rfl, List.append_nil]
  · simp only [ite_self]
    refine (hread true).bind fun _ => Preserves.ite ((Preserves.gets _).bind fun r => ?_) (Preserves.pure _)
    cases r <;> exact Preserves.pure _
  · refine Preserves.ite (reply_preserves.bind fun r => Preserves.bind ?_ fun _ =>
      Preserves.ite (herr _ _) (Preserves.pure _)) (Preserves.pure _)
    refine Triple.of_exec fun s hs => ?_
    obtain ⟨b, file, hrun⟩ := exec_printHeader env (cstr r) s
    rw [hrun]
    exact hs

theorem networked_sessions : SessionCarries (networked os fuel) env (Accounted env)
    fun _ => Accounted env where
  carried := networked_accounted
  opened sock host port timeOut protocol :=
    (onSocket_accounted (fun _ => Socket.cOpen_quiet host port timeOut protocol) sock).bind fun ret =>
      record_accounted (fun _ => rfl) ret
  closed sock := (onSocket_accounted (fun _ => Socket.cClose_quiet) sock).bind fun ret =>
    record_accounted (fun _ => rfl) ret
  counted _ _ hs := hs

end Sessions

section Main

variable {ω : Type} {host : Host} {opts : List Opt} {q : Preferences} {os : ℕ → Os ω} {fuel : ℕ}

/-- The user is told of the deletion: at verbosity 4 of all, at 2 and 3 not of those for the absence
of something. -/
def Visible (prefs : Preferences) (regexec : Option Regex → Bytes → ℤ) (x : Weeder × Header) : Prop :=
  4 ≤ prefs.verboseLevel.toInt ∨
    (2 ≤ prefs.verboseLevel.toInt ∧ ¬ DeniedByAbsence prefs regexec x.1 x.2)

instance (prefs : Preferences) (regexec : Option Regex → Bytes → ℤ) (x : Weeder × Header) :
    Decidable (Visible prefs regexec x) :=
  inferInstanceAs (Decidable (_ ∨ _))

theorem Reports.shown_iff {regexec : Option Regex → Bytes → ℤ} {x : Weeder × Header} {call : LogCall}
    (h : Reports q regexec x call) : call.shown q.verboseLevel = true ↔ Visible q regexec x := by
  obtain ⟨reason, level, hreason, rfl⟩ := h
  unfold Visible LogCall.shown denial printMsg
  rcases hreason.level_eq with ⟨habs, rfl⟩ | ⟨habs, rfl⟩
  · simp [habs]
  · simp [habs]
    omega

/-- **Every deletion is reported**: the reports in the log are those of the messages that were
condemned, one for each and in their order, and `Visible` says which of them the user sees. -/
theorem main_reports (hload : Loads host opts q) (net : Net ω) :
    ∃ result s, exec (main host (networked os fuel) opts) (World.new net) = (result, s) ∧
      List.Forall₂ (Reports q host.regexec) (condemned s.trace) (denials s.wire.log) ∧
      List.Forall₂ (Reports q host.regexec)
        ((condemned s.trace).filter fun x => Visible q host.regexec x)
        (denials (s.wire.log.filter (LogCall.shown q.verboseLevel))) := by
  have hstart : Accounted (host.env q) (World.new net) := .nil
  have hkeeps : Preserves (Accounted (host.env q)) (main host (networked os fuel) opts) :=
    networked_sessions.main hload
  have hrun := hkeeps.exec hstart
  refine ⟨_, _, rfl, hrun, ?_⟩
  unfold denials
  rw [List.filter_comm]
  refine List.rel_filter (fun x call hreports => ?_) hrun
  simpa using hreports.shown_iff.symm

theorem main_reports_postConns :
    ∃ result s, exec (main smallHost (postConns (smallHost.env postPrefs)) []) (World.new offline) =
        (result, s) ∧
      List.Forall₂ (Reports postPrefs smallHost.regexec) (condemned s.trace) (denials s.wire.log) ∧
      List.Forall₂ (Reports postPrefs smallHost.regexec)
        ((condemned s.trace).filter fun x => Visible postPrefs smallHost.regexec x)
        (denials (s.wire.log.filter (LogCall.shown postPrefs.verboseLevel))) :=
  main_reports postPrefs_loads offline

end Main

end Mailfilter
