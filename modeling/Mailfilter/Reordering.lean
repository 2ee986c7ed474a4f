import Mailfilter.Keywords
import Mailfilter.Order

/-!
# The order of the commands

Which permutations of an rcfile load the same preferences.

* `rulesOf`, the rules that a sequence of commands adds, each with the default of the last `REG_CASE`
  before it, and `Preferences.withRules`;
* `foldlM_apply`: loading a sequence is loading its other commands and adding its rules;
* `SameCases`: the rules that take the default take the same ones in two sequences;
* `load_reordered_iff`: permutations that keep the order of every keyword are all rejected, or load the
  same preferences just when their rules take the same defaults.
-/

namespace Mailfilter

/-! ### Rules of a sequence -/

/-- The rules that a sequence of commands adds. -/
structure RuleLists where
  allows : List Filter
  denies : List Filter
  scores : List Score

/-- The preferences with more rules. -/
def Preferences.withRules (p : Preferences) (r : RuleLists) : Preferences :=
  { p with
    allowFilters := p.allowFilters ++ r.allows
    denyFilters := p.denyFilters ++ r.denies
    scoreFilters := p.scoreFilters ++ r.scores
    negAllows := p.negAllows + r.allows.countP (·.isNegative)
    negDenies := p.negDenies + r.denies.countP (·.isNegative)
    negScores := p.negScores + r.scores.countP (·.isNegative) }

/-- The case flag for the keyword of a rule, given the default. -/
def ruleCaseOf (default : ℕ) (keyword caseWord nocaseWord : Bytes) : ℕ :=
  if cmpNoCase keyword caseWord = 0 then caseSensitive
  else if cmpNoCase keyword nocaseWord = 0 then caseInsensitive
  else default

namespace Command

def allowOf (default : ℕ) : Command → Option Filter
  | .allowRule keyword operat arg => some ⟨arg, none,
      ruleCaseOf default keyword (bytes "allow_case") (bytes "allow_nocase"),
      Preferences.negativity operat.text⟩
  | _ => none

def denyOf (default : ℕ) : Command → Option Filter
  | .denyRule keyword operat arg => some ⟨arg, none,
      ruleCaseOf default keyword (bytes "deny_case") (bytes "deny_nocase"),
      Preferences.negativity operat.text⟩
  | _ => none

def scoreOf (default : ℕ) : Command → Option Score
  | .score keyword givenScore operat arg => some
      { expression := arg
        compExp := none
        ccase := ruleCaseOf default keyword (bytes "score_case") (bytes "score_nocase")
        isNegative := Preferences.negativity operat.text
        score := givenScore }
  | _ => none

/-- The default after a command. -/
def caseAfter (default : ℕ) : Command → ℕ
  | .regCase arg => if Preferences.isYes arg then 0 else regIcase
  | _ => default

/-- The rule takes the default, because its keyword says nothing about the case. -/
def hasDefaultCase : Command → Bool
  | .allowRule keyword _ _ =>
    cmpNoCase keyword (bytes "allow_case") ≠ 0 && cmpNoCase keyword (bytes "allow_nocase") ≠ 0
  | .denyRule keyword _ _ =>
    cmpNoCase keyword (bytes "deny_case") ≠ 0 && cmpNoCase keyword (bytes "deny_nocase") ≠ 0
  | .score keyword _ _ _ =>
    cmpNoCase keyword (bytes "score_case") ≠ 0 && cmpNoCase keyword (bytes "score_nocase") ≠ 0
  | _ => false

end Command

/-- The rules of one kind in a sequence, each with the default of the last `REG_CASE` before it. -/
def collect {ρ : Type} (rule : ℕ → Command → Option ρ) (default : ℕ) : List Command → List ρ
  | [] => []
  | c :: cs => (rule default c).toList ++ collect rule (c.caseAfter default) cs

/-- The rules that a sequence adds, from a given default on. -/
def rulesOf (default : ℕ) (cs : List Command) : RuleLists :=
  ⟨collect Command.allowOf default cs, collect Command.denyOf default cs,
    collect Command.scoreOf default cs⟩

/-! ### Loading a sequence -/

section Load

variable {wordexp : Bytes → Option (List Bytes)}

theorem withRules_nil (p : Preferences) : p.withRules ⟨[], [], []⟩ = p := by
  simp [Preferences.withRules]

theorem withRules_withRules (p : Preferences) (r r' : RuleLists) :
    (p.withRules r).withRules r' =
      p.withRules ⟨r.allows ++ r'.allows, r.denies ++ r'.denies, r.scores ++ r'.scores⟩ := by
  simp [Preferences.withRules, List.append_assoc, Nat.add_assoc]

/-- The rules are not among the parts of the preferences. -/
theorem getPart_withRules (p : Preferences) (r : RuleLists) (k : Keyword) :
    (p.withRules r).getPart k = p.getPart k := by
  cases k <;> rfl

theorem putPart_withRules (p : Preferences) (r : RuleLists) (k : Keyword) (a : Part k) :
    (p.withRules r).putPart k a = (p.putPart k a).withRules r := by
  cases k <;> rfl

/-- A command that is not a rule does not see the rules. -/
theorem apply_withRules {c : Command} (hc : c.isRule = false) (p : Preferences) (r : RuleLists) :
    c.apply wordexp (p.withRules r) = (c.apply wordexp p).map (·.withRules r) := by
  rw [Command.apply_eq hc, Command.apply_eq hc, getPart_withRules]
  cases c.act wordexp (p.getPart c.keyword) with
  | error e => rfl
  | ok a => exact congrArg Except.ok (putPart_withRules p r c.keyword a)

theorem foldlM_withRules {cs : List Command} (hcs : ∀ c ∈ cs, c.isRule = false) (p : Preferences)
    (r : RuleLists) :
    cs.foldlM (Command.apply wordexp) (p.withRules r) =
      (cs.foldlM (Command.apply wordexp) p).map (·.withRules r) := by
  induction cs generalizing p with
  | nil => rfl
  | cons c cs ih =>
    rw [List.foldlM_cons, List.foldlM_cons, apply_withRules (hcs c (List.mem_cons_self ..))]
    cases c.apply wordexp p with
    | error e => rfl
    | ok q => exact ih (fun d hd => hcs d (List.mem_cons_of_mem _ hd)) q

/-- A rule adds itself. -/
theorem apply_rule {c : Command} (hc : c.isRule = true) (p : Preferences) :
    c.apply wordexp p = .ok (p.withRules (rulesOf p.defaultCase [c])) := by
  cases c with
  | allowRule keyword operat arg =>
    refine congrArg Except.ok ?_
    cases hneg : Preferences.negativity operat.text <;>
      simp [Preferences.withRules, rulesOf, collect, Command.allowOf, Command.denyOf,
        Command.scoreOf, Preferences.addAllowRule, Preferences.ruleCase, ruleCaseOf, hneg]
  | denyRule keyword operat arg =>
    refine congrArg Except.ok ?_
    cases hneg : Preferences.negativity operat.text <;>
      simp [Preferences.withRules, rulesOf, collect, Command.allowOf, Command.denyOf,
        Command.scoreOf, Preferences.addDenyRule, Preferences.ruleCase, ruleCaseOf, hneg]
  | score keyword givenScore operat arg =>
    refine congrArg Except.ok ?_
    cases hneg : Preferences.negativity operat.text <;>
      simp [Preferences.withRules, rulesOf, collect, Command.allowOf, Command.denyOf,
        Command.scoreOf, Preferences.addScore, Preferences.ruleCase, ruleCaseOf, hneg]
  | _ => exact absurd hc (by simp [Command.isRule])

/-- The default after a command. -/
theorem defaultCase_apply {c : Command} {p q : Preferences} (hq : c.apply wordexp p = .ok q) :
    q.defaultCase = c.caseAfter p.defaultCase := by
  by_cases hkey : .regCase = c.keyword
  · cases c with
    | regCase arg =>
      cases hq
      rfl
    | _ => exact absurd hkey (by simp [Command.keyword])
  · have hkeep : q.defaultCase = p.defaultCase := Command.getPart_apply hkey hq
    rw [hkeep]
    cases c with
    | regCase arg => exact absurd rfl hkey
    | _ => rfl

theorem rulesOf_cons (default : ℕ) (c : Command) (cs : List Command) :
    rulesOf default (c :: cs) = ⟨(rulesOf default [c]).allows ++ (rulesOf (c.caseAfter default) cs).allows,
      (rulesOf default [c]).denies ++ (rulesOf (c.caseAfter default) cs).denies,
      (rulesOf default [c]).scores ++ (rulesOf (c.caseAfter default) cs).scores⟩ := by
  simp [rulesOf, collect]

theorem rulesOf_other {c : Command} (hc : c.isRule = false) (default : ℕ) (cs : List Command) :
    rulesOf default (c :: cs) = rulesOf (c.caseAfter default) cs := by
  cases c with
  | allowRule keyword operat arg => exact absurd hc (by simp [Command.isRule])
  | denyRule keyword operat arg => exact absurd hc (by simp [Command.isRule])
  | score keyword givenScore operat arg => exact absurd hc (by simp [Command.isRule])
  | _ => rfl

/-- **Loading a sequence** is loading its other commands and adding its rules. -/
theorem foldlM_apply (cs : List Command) (p : Preferences) :
    cs.foldlM (Command.apply wordexp) p =
      ((cs.filter (!·.isRule)).foldlM (Command.apply wordexp) p).map
        (·.withRules (rulesOf p.defaultCase cs)) := by
  induction cs generalizing p with
  | nil =>
    show Except.ok p = .ok (p.withRules ⟨[], [], []⟩)
    rw [withRules_nil]
  | cons c cs ih =>
    rw [List.foldlM_cons]
    cases hc : c.isRule with
    | true =>
      have hdefault : c.caseAfter p.defaultCase = p.defaultCase :=
        (defaultCase_apply (@apply_rule wordexp c hc p)).symm
      have hothers : ∀ d ∈ cs.filter (!·.isRule), d.isRule = false := fun d hd => by
        simpa using (List.mem_filter.1 hd).2
      have hrules := rulesOf_cons p.defaultCase c cs
      rw [hdefault] at hrules
      rw [apply_rule hc, List.filter_cons_of_neg (by simp [hc]), hrules]
      show cs.foldlM _ (p.withRules (rulesOf p.defaultCase [c])) = _
      rw [ih, foldlM_withRules hothers]
      cases (cs.filter (!·.isRule)).foldlM (Command.apply wordexp) p with
      | error e => rfl
      | ok q => exact congrArg Except.ok (withRules_withRules q _ _)
    | false =>
      rw [List.filter_cons_of_pos (by simp [hc]), List.foldlM_cons]
      rcases hq : c.apply wordexp p with e | q
      · rfl
      · show cs.foldlM _ q = Except.map _ (List.foldlM _ q _)
        rw [ih, rulesOf_other hc, defaultCase_apply hq]

end Load

/-! ### Rules that take the default -/

section Cases

variable {ρ : Type}

/-- The rules of a kind, restricted to some commands. -/
def only (t : Command → Bool) (rule : ℕ → Command → Option ρ) (default : ℕ) (c : Command) :
    Option ρ :=
  if t c then rule default c else none

/-- Two sequences whose rules of one kind take the same defaults: the same rules with the keyword
that says nothing about the case, each with the last `REG_CASE` before it. -/
def SameDefaults (rule : ℕ → Command → Option ρ) (default : ℕ) (xs ys : List Command) : Prop :=
  (collect (only Command.hasDefaultCase rule) default xs).Perm
    (collect (only Command.hasDefaultCase rule) default ys)

/-- So do the rules of all kinds. -/
structure SameCases (default : ℕ) (xs ys : List Command) : Prop where
  allow : SameDefaults Command.allowOf default xs ys
  deny : SameDefaults Command.denyOf default xs ys
  score : SameDefaults Command.scoreOf default xs ys

/-- The rules of the chosen commands, and the others. -/
theorem collect_split (t : Command → Bool) (rule : ℕ → Command → Option ρ) (default : ℕ)
    (cs : List Command) : (collect rule default cs).Perm
      (collect (only t rule) default cs ++ collect (only (!t ·) rule) default cs) := by
  induction cs generalizing default with
  | nil => exact List.Perm.nil
  | cons c cs ih =>
    by_cases ht : t c = true
    · simp only [collect, only, ht, if_true, Bool.not_true, Bool.false_eq_true, if_false,
        Option.toList_none, List.nil_append, List.append_assoc]
      exact (ih _).append_left _
    · rw [Bool.not_eq_true] at ht
      simp only [collect, only, ht, Bool.false_eq_true, if_false, Bool.not_false, if_true,
        Option.toList_none, List.nil_append]
      exact ((ih _).append_left _).trans (List.perm_append_comm_assoc _ _ _)

/-- Rules that do not look at the default. -/
theorem collect_eq_filterMap {rule : ℕ → Command → Option ρ}
    (hrule : ∀ d d' c, rule d c = rule d' c) (default : ℕ) (cs : List Command) :
    collect rule default cs = cs.filterMap (rule 0) := by
  induction cs generalizing default with
  | nil => rfl
  | cons c cs ih =>
    rw [collect, ih, hrule default 0 c]
    cases h : rule 0 c <;> simp [h]

/-- In a permutation only the rules that take the default may change. -/
theorem collect_perm_iff {rule : ℕ → Command → Option ρ}
    (hrule : ∀ d d' c, c.hasDefaultCase = false → rule d c = rule d' c) {xs ys : List Command}
    (hperm : xs.Perm ys) (default : ℕ) :
    (collect rule default xs).Perm (collect rule default ys) ↔
      SameDefaults rule default xs ys := by
  have hothers : ∀ d d' c, only (!Command.hasDefaultCase ·) rule d c =
      only (!Command.hasDefaultCase ·) rule d' c := by
    intro d d' c
    unfold only
    cases hc : c.hasDefaultCase with
    | true => simp only [hc, Bool.not_true, Bool.false_eq_true, if_false]
    | false => simp only [hc, Bool.not_false, if_true, hrule d d' c hc]
  have hsame : (collect (only (!Command.hasDefaultCase ·) rule) default xs).Perm
      (collect (only (!Command.hasDefaultCase ·) rule) default ys) := by
    rw [collect_eq_filterMap hothers, collect_eq_filterMap hothers]
    exact hperm.filterMap _
  have hxs := collect_split Command.hasDefaultCase rule default xs
  have hys := collect_split Command.hasDefaultCase rule default ys
  constructor
  · intro h
    have hall := (hxs.symm.trans (h.trans hys)).trans (hsame.symm.append_left _)
    exact (List.perm_append_right_iff _).1 hall
  · intro h
    exact hxs.trans ((h.append hsame).trans hys.symm)

end Cases

/-! ### Permutations of an rcfile -/

section Permutations

variable {wordexp : Bytes → Option (List Bytes)} {xs ys : List Command} {p : Preferences}

theorem allowOf_explicit (d d' : ℕ) (c : Command) (hc : c.hasDefaultCase = false) :
    c.allowOf d = c.allowOf d' := by
  cases c with
  | allowRule keyword operat arg =>
    simp only [Command.hasDefaultCase, Bool.and_eq_false_iff, decide_eq_false_iff_not,
      not_not] at hc
    unfold Command.allowOf ruleCaseOf
    rcases hc with h | h <;> simp [h]
  | _ => rfl

theorem denyOf_explicit (d d' : ℕ) (c : Command) (hc : c.hasDefaultCase = false) :
    c.denyOf d = c.denyOf d' := by
  cases c with
  | denyRule keyword operat arg =>
    simp only [Command.hasDefaultCase, Bool.and_eq_false_iff, decide_eq_false_iff_not,
      not_not] at hc
    unfold Command.denyOf ruleCaseOf
    rcases hc with h | h <;> simp [h]
  | _ => rfl

theorem scoreOf_explicit (d d' : ℕ) (c : Command) (hc : c.hasDefaultCase = false) :
    c.scoreOf d = c.scoreOf d' := by
  cases c with
  | score keyword givenScore operat arg =>
    simp only [Command.hasDefaultCase, Bool.and_eq_false_iff, decide_eq_false_iff_not,
      not_not] at hc
    unfold Command.scoreOf ruleCaseOf
    rcases hc with h | h <;> simp [h]
  | _ => rfl

/-- Preferences with the same rules in another order. -/
theorem reordered_withRules_iff {r r' : RuleLists} :
    (p.withRules r).Reordered (p.withRules r') ↔ r'.allows.Perm r.allows ∧
      r'.denies.Perm r.denies ∧ r'.scores.Perm r.scores := by
  constructor
  · intro h
    exact ⟨(List.perm_append_left_iff _).1 h.allows, (List.perm_append_left_iff _).1 h.denies,
      (List.perm_append_left_iff _).1 h.scores⟩
  · rintro ⟨hallows, hdenies, hscores⟩
    refine ⟨hallows.append_left _, hdenies.append_left _, hscores.append_left _, ?_⟩
    simp only [Preferences.withRules, hallows.countP_eq, hdenies.countP_eq, hscores.countP_eq]

theorem sameCases_iff (hperm : xs.Perm ys) {default : ℕ} :
    SameCases default xs ys ↔ (rulesOf default ys).allows.Perm (rulesOf default xs).allows ∧
      (rulesOf default ys).denies.Perm (rulesOf default xs).denies ∧
      (rulesOf default ys).scores.Perm (rulesOf default xs).scores := by
  have hallow := collect_perm_iff allowOf_explicit hperm default
  have hdeny := collect_perm_iff denyOf_explicit hperm default
  have hscore := collect_perm_iff scoreOf_explicit hperm default
  rw [List.perm_comm] at hallow hdeny hscore
  exact ⟨fun h => ⟨hallow.2 h.allow, hdeny.2 h.deny, hscore.2 h.score⟩,
    fun h => ⟨hallow.1 h.1, hdeny.1 h.2.1, hscore.1 h.2.2⟩⟩

/-- **Keyword order.** A permutation that keeps the order of every keyword, and that of the commands
for accounts, is rejected like the original, or both are loaded, and then they give the same
preferences just when the rules that take the default of `REG_CASE` take the same ones. -/
theorem load_reordered_iff (wordexp : Bytes → Option (List Bytes))
    (horder : SameOrder Command.keyword xs ys) (p : Preferences) :
    Alike (fun _ _ => True) (fun q q' => q.Reordered q' ↔ SameCases p.defaultCase xs ys)
      (Rcfile.load wordexp ⟨xs, none⟩ p) (Rcfile.load wordexp ⟨ys, none⟩ p) := by
  have hisRule : ∀ {cs : List Command}, ∀ c ∈ cs.filter (!·.isRule), c.isRule = false :=
    fun c hc => by simpa using (List.mem_filter.1 hc).2
  have hothers : SameResult ((xs.filter (!·.isRule)).foldlM (Command.apply wordexp) p)
      ((ys.filter (!·.isRule)).foldlM (Command.apply wordexp) p) :=
    foldlM_sameOrder (fun c hc d hd hne q =>
      Command.apply_comm (hisRule c hc) (hisRule d hd) hne q) (horder.filter (!·.isRule)) p
  rw [load_none, load_none, foldlM_apply xs, foldlM_apply ys]
  generalize (xs.filter (!·.isRule)).foldlM (Command.apply wordexp) p = x at hothers
  generalize (ys.filter (!·.isRule)).foldlM (Command.apply wordexp) p = y at hothers
  rcases x with e | q <;> rcases y with e' | q'
  · exact trivial
  · exact hothers.elim
  · exact hothers.elim
  · cases hothers
    exact reordered_withRules_iff.trans (sameCases_iff horder.perm).symm

/-- `ALLOW` before or after `REG_CASE`: the rule is compiled with other flags. -/
theorem allow_before_regCase : ¬∀ (xs ys : List Command) (p : Preferences),
    SameOrder Command.keyword xs ys →
    Alike (fun _ _ => True) Preferences.Reordered (Rcfile.load (fun _ => none) ⟨xs, none⟩ p)
      (Rcfile.load (fun _ => none) ⟨ys, none⟩ p) := by
  intro h
  have hswap := h [.regCase ⟨bytes "yes", by decide⟩, .allowRule ⟨bytes "ALLOW", by decide⟩ .equal
      ⟨bytes "friend", by decide⟩]
    [.allowRule ⟨bytes "ALLOW", by decide⟩ .equal ⟨bytes "friend", by decide⟩,
      .regCase ⟨bytes "yes", by decide⟩] (Preferences.new ⟨0, 0⟩ 0) (SameOrder.swap (by decide))
  have hallows := hswap.allows
  revert hallows
  decide

/-- `DENY` before or after `HIGHSCORE`. -/
theorem load_reordered_iff_highscore : Alike (fun _ _ => True) Preferences.Reordered
    (Rcfile.load (fun _ => none) ⟨[.denyRule ⟨bytes "DENY", by decide⟩ .equal
      ⟨bytes "spam", by decide⟩, .highscore 100], none⟩ (Preferences.new ⟨0, 0⟩ 0))
    (Rcfile.load (fun _ => none) ⟨[.highscore 100, .denyRule ⟨bytes "DENY", by decide⟩ .equal
      ⟨bytes "spam", by decide⟩], none⟩ (Preferences.new ⟨0, 0⟩ 0)) := by
  have horder : SameOrder Command.keyword
      [.denyRule ⟨bytes "DENY", by decide⟩ .equal ⟨bytes "spam", by decide⟩, .highscore 100]
      [.highscore 100, .denyRule ⟨bytes "DENY", by decide⟩ .equal ⟨bytes "spam", by decide⟩] :=
    SameOrder.swap (by decide)
  have hloaded := load_reordered_iff (fun _ => none) horder (Preferences.new ⟨0, 0⟩ 0)
  exact Iff.mpr hloaded ⟨.refl _, .refl _, .refl _⟩

end Permutations

end Mailfilter
