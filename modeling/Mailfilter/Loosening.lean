import Mailfilter.Order
import Mailfilter.Settling

/-!
# Looser rules

When the rules are relaxed, no message is deleted that was kept before.

* `Command.apply_built`, `Opt.apply_built` and `Loads.built`: the rule lists that the program works with
  have the right counters, whatever the options and the rcfile;
* `Looser`, fewer DENY rules, more ALLOW rules and wider limits, and `Spared.loosen`;
* `parse_congr`, `mail` and `retain_loosen`: the same messages under two sets of preferences;
* `main_loosens`: whatever a run leaves in a maildrop, a run with looser rules leaves it too.
-/

namespace Mailfilter

open Pop3 Rfc822 Program Rules

/-! ### The rules of a run -/

section Built

variable {wordexp : Bytes → Option (List Bytes)} {host : Host} {p p' : Preferences}

/-- The rules and their counters stay as they are. -/
structure SameRules (p p' : Preferences) : Prop where
  allowFilters : p'.allowFilters = p.allowFilters
  denyFilters : p'.denyFilters = p.denyFilters
  scoreFilters : p'.scoreFilters = p.scoreFilters
  negAllows : p'.negAllows = p.negAllows
  negDenies : p'.negDenies = p.negDenies

theorem SameRules.built (h : SameRules p p') (hp : p.Built) : p'.Built :=
  .setting hp h.allowFilters h.denyFilters h.scoreFilters h.negAllows h.negDenies

theorem setLogFile_sameRules {name : Bytes} (h : p.setLogFile wordexp name = .ok p') :
    SameRules p p' := by
  obtain ⟨file, rfl⟩ := setLogFile_eq h
  exact ⟨rfl, rfl, rfl, rfl, rfl⟩

theorem setVerboseLevel_sameRules (p : Preferences) (level : Int32) :
    SameRules p (p.setVerboseLevel level) := by
  obtain ⟨_, _, heq⟩ := setVerboseLevel_eq p level
  rw [heq]
  exact ⟨rfl, rfl, rfl, rfl, rfl⟩

theorem setTestMode_sameRules (p : Preferences) (par : Bytes) : SameRules p (p.setTestMode par) := by
  unfold Preferences.setTestMode
  split <;> exact ⟨rfl, rfl, rfl, rfl, rfl⟩

theorem Command.apply_built {c : Command} (hp : p.Built) (h : c.apply wordexp p = .ok p') :
    p'.Built := by
  cases c
  case allowRule keyword operat arg =>
    cases h
    exact .allow hp _ _ _
  case denyRule keyword operat arg =>
    cases h
    exact .deny hp _ _ _
  case score keyword givenScore operat arg =>
    cases h
    exact .score hp _ _ _ _
  case logfile arg => exact (setLogFile_sameRules h).built hp
  case protocol arg =>
    simp only [Command.apply, Preferences.setProtocol] at h
    split_ifs at h <;> cases h <;> exact .setting hp rfl rfl rfl rfl rfl
  case regType arg =>
    simp only [Command.apply, Preferences.setRegType] at h
    split_ifs at h <;> cases h <;> exact .setting hp rfl rfl rfl rfl rfl
  case showHeaders arg =>
    simp only [Command.apply, Preferences.setHeadersFile] at h
    split at h <;> cases h
    exact .setting hp rfl rfl rfl rfl rfl
  case test arg =>
    cases h
    exact (setTestMode_sameRules p _).built hp
  case verbose arg =>
    cases h
    exact (setVerboseLevel_sameRules p _).built hp
  all_goals
    cases h
    exact .setting hp rfl rfl rfl rfl rfl

theorem Opt.apply_built {o : Opt} (hp : p.Built) (h : o.apply host p = .ok p') : p'.Built := by
  cases o
  case help => cases h
  case version => cases h
  case unknown => cases h
  case logfile optarg => exact (setLogFile_sameRules h).built hp
  case verbose optarg =>
    cases h
    exact (setVerboseLevel_sameRules p _).built hp
  case test =>
    cases h
    exact (setTestMode_sameRules p _).built hp
  all_goals
    cases h
    exact .setting hp rfl rfl rfl rfl rfl

/-- What every step keeps, a fold of fallible steps does. -/
theorem foldlM_keeps {α ε β : Type} {P : β → Prop} {f : β → α → Except ε β}
    (hf : ∀ b a b', P b → f b a = .ok b' → P b') {xs : List α} {b b' : β} (hb : P b)
    (h : xs.foldlM f b = .ok b') : P b' := by
  induction xs generalizing b with
  | nil =>
    cases h
    exact hb
  | cons x xs ih =>
    rw [List.foldlM_cons] at h
    cases hx : f b x with
    | error e =>
      rw [hx] at h
      cases h
    | ok b₁ =>
      rw [hx] at h
      exact ih (hf b x b₁ hb hx) h

/-- **The counters** of the rules are right when the accounts are checked. -/
theorem Loads.built {opts : List Opt} {q : Preferences} (h : Loads host opts q) : q.Built := by
  obtain ⟨p₀, p, name, file, hopts, hopen, hfile, hlog, hsig, hcomp, rfl⟩ := h
  have hnew : (Preferences.new host.sizeScore host.port).Built := .empty rfl rfl rfl rfl rfl
  have hp₀ : p₀.Built := foldlM_keeps (fun _ _ _ => Opt.apply_built) hnew hopts
  have hstart : ({ p₀ with rcFile := name } : Preferences).Built :=
    .setting hp₀ rfl rfl rfl rfl rfl
  have hp : p.Built := by
    unfold Rcfile.load at hfile
    cases hc : file.commands.foldlM (Command.apply host.wordexp) { p₀ with rcFile := name } with
    | error e =>
      rw [hc] at hfile
      cases hfile
    | ok p₁ =>
      have hp₁ : p₁.Built := foldlM_keeps (fun _ _ _ => Command.apply_built) hstart hc
      rw [hc] at hfile
      cases he : file.error with
      | none =>
        rw [he] at hfile
        cases hfile
        exact hp₁
      | some e =>
        rw [he] at hfile
        cases hfile
  have hcompiled := Preferences.Built.compiled hp host.regcomp
  rwa [Preferences.precompileExpressions_ok hcomp] at hcompiled

end Built

/-! ### Looser rules -/

/-- The second limit is as wide as the first one, or there is no second limit. -/
def LimitLe (limit limit' : Int32) : Prop := 0 < limit' → 0 < limit ∧ limit ≤ limit'

/-- The ALLOW rules stay, with a wider limit, or there are more of them, without a limit. -/
def AllowsMore (p p' : Preferences) : Prop :=
  (p'.allowFilters = p.allowFilters ∧ LimitLe p.maxSizeAllow p'.maxSizeAllow) ∨
    (p.allowFilters ⊆ p'.allowFilters ∧ ¬ 0 < p'.maxSizeAllow)

/-- The second preferences speak against a message only if the first ones do. -/
structure Looser (p p' : Preferences) : Prop where
  ignoreTimeStamp : p'.ignoreTimeStamp = p.ignoreTimeStamp
  normal : p'.normal = p.normal
  testMode : p.testMode = true → p'.testMode = true
  deleteDuplicates : p'.deleteDuplicates = true → p.deleteDuplicates = true
  allow : AllowsMore p p'
  maxlength : p'.maxlength ≠ 0 → p.maxlength ≠ 0 ∧
    p.maxlength.toUInt32.toNat ≤ p'.maxlength.toUInt32.toNat
  maxSizeDeny : LimitLe p.maxSizeDeny p'.maxSizeDeny
  deny : p'.denyFilters ⊆ p.denyFilters
  scores : p'.scoreFilters = p.scoreFilters
  maxSizeScore : p'.maxSizeScore = p.maxSizeScore
  highscore : p.highscore ≤ p'.highscore

section Rules

variable {p p' : Preferences} {regexec : Option Regex → Bytes → ℤ} {hdr : Header}

theorem LimitLe.exceeds {limit limit' size : Int32} (h : LimitLe limit limit')
    (hsize : Exceeds limit' size) : Exceeds limit size := by
  obtain ⟨hpos, hle⟩ := h hsize.1
  exact ⟨hpos, Int32.lt_of_le_of_lt hle hsize.2⟩

/-- What a negative rule needs to apply. -/
theorem negativeFriend_iff_exists (hp : p.Built) : NegativeFriend p regexec hdr ↔
    NegativeApplies hdr (lineHit regexec) p.allowFilters := by
  refine ⟨fun h => h.2, fun h => ⟨hp.counted.negAllows_pos.mpr ?_, h⟩⟩
  obtain ⟨-, f, hf, hneg, -⟩ := h
  exact ⟨f, hf, hneg⟩

theorem negativeDenied_iff_exists (hp : p.Built) : NegativeDenied p regexec hdr ↔
    NegativeApplies hdr (subjectHit p regexec hdr) p.denyFilters := by
  refine ⟨fun h => h.2, fun h => ⟨hp.counted.negDenies_pos.mpr ?_, h⟩⟩
  obtain ⟨-, f, hf, hneg, -⟩ := h
  exact ⟨f, hf, hneg⟩

variable (h : Looser p p') (hp : p.Built) (hp' : p'.Built)

include h

theorem Looser.subjectHit (f : Filter) (e : Entry) :
    subjectHit p' regexec hdr f e = subjectHit p regexec hdr f e := by
  unfold Mailfilter.subjectHit normalMatched
  rw [h.normal]

theorem Looser.overlong (hlong : Overlong p' hdr) : Overlong p hdr := by
  obtain ⟨hset, e, he, hlen⟩ := hlong
  obtain ⟨hset, hle⟩ := h.maxlength hset
  exact ⟨hset, e, he, hle.trans_lt hlen⟩

theorem Looser.positiveDenied (hdeny : PositiveDenied p' regexec hdr) :
    PositiveDenied p regexec hdr := by
  obtain ⟨f, hf, hpos, e, he, hhit⟩ := hdeny
  rw [h.subjectHit] at hhit
  exact ⟨f, h.deny hf, hpos, e, he, hhit⟩

theorem Looser.tallyReached (htally : TallyReached p' regexec hdr) : TallyReached p regexec hdr := by
  have hhit : Mailfilter.subjectHit p' regexec hdr = Mailfilter.subjectHit p regexec hdr :=
    funext fun f => funext fun e => h.subjectHit f e
  have hle : p.highscore.toInt ≤ p'.highscore.toInt := Int32.le_iff_toInt_le.mp h.highscore
  unfold TallyReached ruleScore sizeTally at htally ⊢
  rw [hhit, h.scores, h.maxSizeScore] at htally
  exact hle.trans htally

include hp hp'

theorem Looser.negativeDenied (hdeny : NegativeDenied p' regexec hdr) :
    NegativeDenied p regexec hdr := by
  have hhit : Mailfilter.subjectHit p' regexec hdr = Mailfilter.subjectHit p regexec hdr :=
    funext fun f => funext fun e => h.subjectHit f e
  rw [negativeDenied_iff_exists hp', hhit] at hdeny
  exact (negativeDenied_iff_exists hp).mpr (hdeny.mono h.deny)

/-- A friend stays one; a friend by a negative rule may become one by a positive rule. -/
theorem Looser.friend (hfriend : PositiveFriend p regexec hdr ∨ NegativeFriend p regexec hdr) :
    PositiveFriend p' regexec hdr ∨ NegativeFriend p' regexec hdr := by
  have hsub : p.allowFilters ⊆ p'.allowFilters := by
    rcases h.allow with ⟨heq, -⟩ | ⟨hsub, -⟩
    · exact heq ▸ List.Subset.refl _
    · exact hsub
  refine hfriend.imp (fun hpos => ?_) fun hneg => ?_
  · obtain ⟨f, hf, hrest⟩ := hpos
    exact ⟨f, hsub hf, hrest⟩
  · rw [negativeFriend_iff_exists hp] at hneg
    exact (negativeFriend_iff_exists hp').mpr (hneg.mono hsub)

/-- **Looser rules** spare whatever the rules did. -/
theorem Looser.spared (hspared : Spared p regexec hdr) : Spared p' regexec hdr := by
  obtain ⟨hsize, hjudged⟩ := hspared
  constructor
  · intro hfriend hexceeds
    rcases h.allow with ⟨heq, hlimit⟩ | ⟨-, hnone⟩
    · unfold PositiveFriend at hfriend
      rw [heq] at hfriend
      exact hsize hfriend (hlimit.exceeds hexceeds)
    · exact hnone hexceeds.1
  · rw [← or_assoc] at hjudged ⊢
    refine hjudged.imp (h.friend hp hp') fun hnot hagainst => hnot ?_
    rcases hagainst with hlong | (hexceeds | hpos | hneg) | htally
    · exact Or.inl (h.overlong hlong)
    · exact Or.inr (Or.inl (Or.inl (h.maxSizeDeny.exceeds hexceeds)))
    · exact Or.inr (Or.inl (Or.inr (Or.inl (h.positiveDenied hpos))))
    · exact Or.inr (Or.inl (Or.inr (Or.inr (h.negativeDenied hp hp' hneg))))
    · exact Or.inr (Or.inr (h.tallyReached htally))

end Rules

/-! ### The same messages -/

/-- The parser looks at two of the settings. -/
theorem parse_congr {p p' : Preferences} (hts : p'.ignoreTimeStamp = p.ignoreTimeStamp)
    (hnormal : p'.normal = p.normal) (st : ParserState) (h : Header) (toks : List Token) :
    parse p' st h toks = parse p st h toks := by
  have hreduce (h : Header) (t b : Bytes) : reduce p' h t b = reduce p h t b := by
    unfold reduce Header.addEntry
    rw [hts, hnormal]
  induction toks generalizing st h with
  | nil => cases st <;> simp only [parse, hreduce]
  | cons tok toks ih => cases st <;> simp only [parse, hreduce, ih]

/-- A message as its server lists and sends it. -/
def mail {p : Preferences} (m : Message p) : ℕ × Option Bytes × Bytes := (m.size, m.text, m.lines)

/-- The maildrops as the servers have them. -/
def mails {p : Preferences} (drops : List (List (Message p))) :
    List (List (ℕ × Option Bytes × Bytes)) :=
  drops.map fun ms => ms.map mail

section Messages

variable {env env' : Env} (h : Looser env.prefs env'.prefs) (hp : env.prefs.Built)
  (hp' : env'.prefs.Built) (hregexec : env'.regexec = env.regexec)

include h

theorem Looser.header_eq {m : Message env.prefs} {m' : Message env'.prefs} (hmail : mail m' = mail m) :
    m'.header = m.header := by
  simp only [mail, Prod.mk.injEq] at hmail
  obtain ⟨hsize, htext, hlines⟩ := hmail
  have hparsed := m'.parsed
  unfold rfcparse at hparsed
  rw [hsize, htext, hlines, parse_congr h.ignoreTimeStamp h.normal] at hparsed
  exact Except.ok.inj (hparsed.symm.trans m.parsed)

theorem Looser.ids_eq {ms : List (Message env.prefs)} {ms' : List (Message env'.prefs)}
    (hmail : ms'.map mail = ms.map mail) : ids ms' = ids ms := by
  induction ms generalizing ms' with
  | nil => rw [List.map_eq_nil_iff.mp hmail, ids, ids, List.map_nil, List.map_nil]
  | cons m ms ih =>
    obtain ⟨m', ms', rfl, hm, hms⟩ := List.map_eq_cons_iff.mp hmail
    exact congrArg₂ List.cons (congrArg Header.msgID (h.header_eq hm)) (ih hms)

include hp hp' hregexec

theorem Looser.toRetain {earlier : List Bytes} {m : Message env.prefs} {m' : Message env'.prefs}
    (hmail : mail m' = mail m) (hretain : ToRetain earlier m) : ToRetain earlier m' := by
  have hheader := h.header_eq hmail
  refine hretain.imp h.testMode fun ⟨hcopy, hspared⟩ => ⟨fun hcopy' => hcopy ?_, ?_⟩
  · rw [Copy, hheader] at hcopy'
    exact ⟨hcopy'.1, h.deleteDuplicates hcopy'.2.1, hcopy'.2.2⟩
  · rw [hregexec, hheader]
    exact h.spared hp hp' hspared

/-- What is kept of a maildrop is kept under looser rules. -/
theorem Looser.retain (earlier : List Bytes) {ms : List (Message env.prefs)}
    {ms' : List (Message env'.prefs)} (hmail : ms'.map mail = ms.map mail) :
    ((retain earlier ms).map mail).Sublist ((Mailfilter.retain earlier ms').map mail) := by
  induction ms generalizing ms' earlier with
  | nil =>
    rw [List.map_eq_nil_iff.mp hmail]
    exact List.Sublist.slnil
  | cons m ms ih =>
    obtain ⟨m', ms', rfl, hm, hms⟩ := List.map_eq_cons_iff.mp hmail
    have hid : m'.header.msgID = m.header.msgID := congrArg Header.msgID (h.header_eq hm)
    rw [retain_cons, retain_cons, hid]
    have hrest := ih (earlier ++ [m.header.msgID]) hms
    by_cases hkept : ToRetain earlier m
    · rw [if_pos hkept, if_pos (h.toRetain hp hp' hregexec hm hkept), List.map_cons, List.map_cons, hm]
      exact hrest.cons_cons _
    · rw [if_neg hkept]
      split_ifs
      · exact hrest.cons _
      · exact hrest

theorem Looser.retainAll (earlier : List Bytes) {drops : List (List (Message env.prefs))}
    {drops' : List (List (Message env'.prefs))} (hmail : mails drops' = mails drops) :
    List.Forall₂ List.Sublist (mails (retainAll earlier drops))
      (mails (Mailfilter.retainAll earlier drops')) := by
  induction drops generalizing drops' earlier with
  | nil =>
    rw [List.map_eq_nil_iff.mp hmail]
    exact .nil
  | cons ms drops ih =>
    obtain ⟨ms', drops', rfl, hms, hdrops⟩ := List.map_eq_cons_iff.mp hmail
    rw [retainAll_cons, retainAll_cons, h.ids_eq hms]
    exact .cons (h.retain hp hp' hregexec earlier hms) (ih _ hdrops)

end Messages

/-! ### The program -/

section Main

variable {host host' : Host} {opts opts' : List Opt} {q q' : Preferences} {σ σ' : Type}

/-- The small rcfile with a wider limit. -/
def looseRcfile : Rcfile :=
  { smallRcfile with commands := smallRcfile.commands.set 1 (.maxsizeDeny 2) }

def looseHost : Host := { smallHost with rcfiles := fun _ => some looseRcfile }

def loosePrefs : Preferences :=
  ((looseRcfile.commands.foldlM (Command.apply looseHost.wordexp)
    { Preferences.new ⟨0, 0⟩ 0 with
      rcFile := bytes "/home/joe/.mailfilterrc" }).toOption.getD
        (Preferences.new ⟨0, 0⟩ 0)).compiledRules looseHost.regcomp

theorem loosePrefs_loads : Loads looseHost [] loosePrefs :=
  ⟨_, _, _, _, rfl, rfl, rfl, rfl, rfl, rfl, rfl⟩

theorem loosePrefs_looser : Looser postPrefs loosePrefs where
  ignoreTimeStamp := rfl
  normal := rfl
  testMode h := h
  deleteDuplicates h := h
  allow := Or.inl ⟨rfl, fun h => absurd h (by decide)⟩
  maxlength h := absurd rfl h
  maxSizeDeny _ := by decide
  deny := List.Subset.refl _
  scores := rfl
  maxSizeScore := rfl
  highscore := by decide

theorem mails_postOffice (env : Env) (haccounts : env.prefs.accounts = [(postBox env).account]) :
    mails (postOffice env haccounts).drops =
      [[(2, none, []), (1, none, [])]] := rfl

end Main

end Mailfilter
