import Mailfilter.Alike
import Mailfilter.Bookkeeping
import Mailfilter.Main
import Mailfilter.Order

/-!
# What the memory held before

The constructor of `Preferences` leaves `size_score` as the memory had it, and `init`, which would set
it, is never called.

* `prepare`: the preferences with which the accounts are checked, if the rcfile is accepted;
* `Preferences.refill`: the same preferences for other contents of the memory, and
  `prepare_refill`: without MAXSIZE_SCORE nothing else depends on them;
* `Decided` and `Unscored`: a check before `check_scores` decides about a header, or its score
  cannot matter;
* `verdicts_memory_iff`: the verdicts of a run depend on the contents of the memory, unless all of its
  headers are unscored.
-/

namespace Mailfilter

/-! ### Loading -/

/-- The memory of the object where the constructor assigns nothing. -/
structure Memory where
  sizeScore : SizeScore
  port : ℤ

/-- The same host, with other contents of the memory. -/
def Host.withMemory (host : Host) (m : Memory) : Host :=
  { host with sizeScore := m.sizeScore, port := m.port }

/-- `main` up to the loop over the accounts, for the file that is opened: the preferences after the
command line, the rcfile and the compilation of the rules, if all of them succeed. -/
def prepare (host : Host) (opts : List Opt) (name : Bytes) (file : Rcfile) : Option Preferences :=
  match getOpts host opts (Preferences.new host.sizeScore host.port) with
  | .error _ => none
  | .ok p =>
    match file.load host.wordexp { p with rcFile := name } with
    | .error _ => none
    | .ok p =>
      if (p.precompileExpressions host.regcomp).1 ≠ 0 then none
      else some (p.precompileExpressions host.regcomp).2.1

/-- The command is MAXSIZE_SCORE. -/
def Command.isMaxsizeScore : Command → Bool
  | .maxsizeScore _ _ => true
  | _ => false

/-! ### Two loadings -/

/-- The same preferences, for other contents of the memory. -/
def Preferences.refill (p : Preferences) (m : Memory) : Preferences :=
  { p with maxSizeScore := m.sizeScore, curAccount := { p.curAccount with port := m.port } }

/-- The second preferences are the first ones, but for the size score and the port of the current
account. -/
def Refilled (s : SizeScore) (p q : Preferences) : Prop := ∃ x, q = p.refill ⟨s, x⟩

variable {s : SizeScore} {p q : Preferences}

theorem Refilled.setLogFile (h : Refilled s p q) (wordexp : Bytes → Option (List Bytes))
    (name : Bytes) : Alike Eq (Refilled s) (p.setLogFile wordexp name) (q.setLogFile wordexp name) := by
  obtain ⟨x, rfl⟩ := h
  refine Alike.ite ?_ ⟨x, rfl⟩
  rcases wordexp name with _ | _ | ⟨word, words⟩
  · exact rfl
  · exact rfl
  · exact ⟨x, rfl⟩

theorem Refilled.setHeadersFile (h : Refilled s p q) (wordexp : Bytes → Option (List Bytes))
    (name : Bytes) :
    Alike Eq (Refilled s) (p.setHeadersFile wordexp name) (q.setHeadersFile wordexp name) := by
  obtain ⟨x, rfl⟩ := h
  unfold Preferences.setHeadersFile
  rcases wordexp name with _ | _ | ⟨word, words⟩
  · exact rfl
  · exact rfl
  · exact ⟨x, rfl⟩

theorem Refilled.setVerboseLevel (h : Refilled s p q) (level : Int32) :
    Refilled s (p.setVerboseLevel level) (q.setVerboseLevel level) := by
  obtain ⟨x, rfl⟩ := h
  refine ⟨x, ?_⟩
  unfold Preferences.setVerboseLevel
  rw [apply_ite (Preferences.refill · _)]
  rfl

theorem Refilled.setTestMode (h : Refilled s p q) (par : Bytes) :
    Refilled s (p.setTestMode par) (q.setTestMode par) := by
  obtain ⟨x, rfl⟩ := h
  refine ⟨x, ?_⟩
  unfold Preferences.setTestMode
  rw [apply_ite (Preferences.refill · _)]
  rfl

theorem Refilled.setProtocol (h : Refilled s p q) (prot : Bytes) :
    Alike Eq (Refilled s) (p.setProtocol prot) (q.setProtocol prot) := by
  obtain ⟨x, rfl⟩ := h
  exact Alike.ite ⟨x, rfl⟩ (Alike.ite ⟨x, rfl⟩ (Alike.ite ⟨x, rfl⟩ (Alike.ite ⟨x, rfl⟩ rfl)))

/-- An option of the command line. -/
theorem Refilled.optApply {host : Host} {m : Memory} (h : Refilled s p q) (opt : Opt) :
    Alike Eq (Refilled s) (opt.apply host p) (opt.apply (host.withMemory m) q) := by
  cases opt with
  | logfile optarg => exact h.setLogFile host.wordexp optarg
  | verbose optarg => exact h.setVerboseLevel (atoi optarg)
  | test => exact h.setTestMode (bytes "yes")
  | help => exact rfl
  | version => exact rfl
  | unknown => exact rfl
  | timestamp =>
    obtain ⟨x, rfl⟩ := h
    exact ⟨x, rfl⟩
  | returnValue =>
    obtain ⟨x, rfl⟩ := h
    exact ⟨x, rfl⟩
  | skipSslVerify =>
    obtain ⟨x, rfl⟩ := h
    exact ⟨x, rfl⟩
  | mailfilterrc optarg =>
    obtain ⟨x, rfl⟩ := h
    exact ⟨x, rfl⟩

/-- A command of the rcfile other than MAXSIZE_SCORE. -/
theorem Refilled.commandApply (h : Refilled s p q) (wordexp : Bytes → Option (List Bytes))
    {c : Command} (hc : c.isMaxsizeScore = false) :
    Alike Eq (Refilled s) (c.apply wordexp p) (c.apply wordexp q) := by
  cases c with
  | logfile arg => exact h.setLogFile wordexp arg
  | showHeaders arg => exact h.setHeadersFile wordexp arg
  | verbose arg => exact h.setVerboseLevel arg
  | test arg => exact h.setTestMode arg
  | maxsizeScore givenScore size => exact absurd hc (by simp [Command.isMaxsizeScore])
  | protocol arg =>
    refine (h.setProtocol arg).bind fun p' q' hpq => ?_
    obtain ⟨x, rfl⟩ := hpq
    exact ⟨x, rfl⟩
  | port arg =>
    -- the port is assigned before the account is stored
    obtain ⟨x, rfl⟩ := h
    exact ⟨arg.toUInt32.toNat, rfl⟩
  | regType arg =>
    obtain ⟨x, rfl⟩ := h
    exact Alike.ite ⟨x, rfl⟩ (Alike.ite ⟨x, rfl⟩ rfl)
  | _ =>
    obtain ⟨x, rfl⟩ := h
    exact ⟨x, rfl⟩

theorem Refilled.load (h : Refilled s p q) (wordexp : Bytes → Option (List Bytes)) {file : Rcfile}
    (hno : ∀ c ∈ file.commands, c.isMaxsizeScore = false) :
    Alike Eq (Refilled s) (file.load wordexp p) (file.load wordexp q) := by
  refine (Alike.foldlM (fun c hc p' q' hpq => hpq.commandApply wordexp (hno c hc)) h).bind ?_
  intro p' q' hpq
  cases file.error with
  | none => exact hpq
  | some e => exact rfl

/-- What compiling the rules returns, and the preferences it leaves, up to the memory. -/
def CompiledAlike (s : SizeScore) (x y : ℤ × Preferences × List LogCall) : Prop :=
  y.1 = x.1 ∧ Refilled s x.2.1 y.2.1

theorem Refilled.precompileExpressions (h : Refilled s p q) (regcomp : Bytes → ℕ → ℤ) :
    CompiledAlike s (p.precompileExpressions regcomp) (q.precompileExpressions regcomp) := by
  obtain ⟨x, rfl⟩ := h
  exact ite_related (R := CompiledAlike s) ⟨rfl, x, rfl⟩ (ite_related (R := CompiledAlike s)
    ⟨rfl, x, rfl⟩ (ite_related (R := CompiledAlike s) ⟨rfl, x, rfl⟩ ⟨rfl, x, rfl⟩))

/-- **Without MAXSIZE_SCORE** the memory leaves its contents in the size score, and nowhere else. -/
theorem prepare_withMemory {host : Host} {opts : List Opt} {name : Bytes} {file : Rcfile}
    (hno : ∀ c ∈ file.commands, c.isMaxsizeScore = false)
    (hp : prepare host opts name file = some p) (m : Memory) :
    ∃ q, prepare (host.withMemory m) opts name file = some q ∧ Refilled m.sizeScore p q := by
  have hopts : Alike Eq (Refilled m.sizeScore)
      (getOpts host opts (Preferences.new host.sizeScore host.port))
      (getOpts (host.withMemory m) opts (Preferences.new m.sizeScore m.port)) :=
    Alike.foldlM (fun opt _ p q hpq => hpq.optApply opt) ⟨m.port, rfl⟩
  unfold prepare at hp
  split at hp
  · cases hp
  case h_2 p₁ hp₁ =>
  obtain ⟨q₁, hq₁, hr₁⟩ := hopts.ok_right hp₁
  have hload : Alike Eq (Refilled m.sizeScore) (file.load host.wordexp { p₁ with rcFile := name })
      (file.load host.wordexp { q₁ with rcFile := name }) := by
    refine Refilled.load ?_ host.wordexp hno
    obtain ⟨x, rfl⟩ := hr₁
    exact ⟨x, rfl⟩
  split at hp
  · cases hp
  case h_2 p₂ hp₂ =>
  obtain ⟨q₂, hq₂, hr₂⟩ := hload.ok_right hp₂
  obtain ⟨herr, hr₃⟩ := hr₂.precompileExpressions host.regcomp
  split_ifs at hp with hcomp
  cases hp
  refine ⟨_, ?_, hr₃⟩
  unfold prepare
  simp only [Host.withMemory] at hq₁ ⊢
  simp only [hq₁, hq₂]
  exact if_neg (not_not.2 (herr.trans (not_not.1 hcomp)))

/-! ### Verdicts -/

section Verdicts

variable (prefs : Preferences) (regexec : Option Regex → Bytes → ℤ) (hdr : Header)

/-- A check before that of the score decides about the header. -/
def Decided (w : Weeder) : Prop :=
  Duplicate prefs hdr w ∨ PositiveFriend prefs regexec hdr ∨ NegativeFriend prefs regexec hdr ∨
    Overlong prefs hdr ∨ Exceeds prefs.maxSizeDeny hdr.msgSize ∨
    PositiveDenied prefs regexec hdr ∨ NegativeDenied prefs regexec hdr

/-- The score of the size is not asked for, or cannot count: no limit is below the size of the
message, or every score reaches HIGHSCORE. -/
def Unscored (w : Weeder) : Prop :=
  Decided prefs regexec hdr w ∨ hdr.msgSize ≤ 1 ∨ prefs.highscore = Int32.minValue

instance (w : Weeder) : Decidable (Decided prefs regexec hdr w) :=
  inferInstanceAs (Decidable (_ ∨ _ ∨ _ ∨ _ ∨ _ ∨ _ ∨ _))

instance (w : Weeder) : Decidable (Unscored prefs regexec hdr w) :=
  inferInstanceAs (Decidable (_ ∨ _ ∨ _))

variable {prefs} {regexec} {hdr} {w : Weeder}

/-- A header about which no other check decides. -/
theorem isWeed_of_not_decided (h : ¬ Decided prefs regexec hdr w) :
    (isWeed prefs regexec hdr w).1 = if TallyReached prefs regexec hdr then 1 else 0 := by
  unfold Decided at h
  simp only [not_or] at h
  obtain ⟨hdup, hpos, hneg, hlong, hsize, hposd, hnegd⟩ := h
  simp only [isWeed_formula, hdup, hpos, hneg, hlong, hsize, hposd, hnegd, if_false, false_or]

/-- The checks before that of the score do not look at the score of the size. -/
theorem isWeed_of_decided (hdec : Decided prefs regexec hdr w) (m : Memory) :
    (isWeed (prefs.refill m) regexec hdr w).1 = (isWeed prefs regexec hdr w).1 := by
  rw [isWeed_formula, isWeed_formula]
  show (if Duplicate prefs hdr w then (1 : ℤ) else if PositiveFriend prefs regexec hdr then
      if Exceeds prefs.maxSizeAllow hdr.msgSize then 1 else 0
    else if NegativeFriend prefs regexec hdr then 0 else if Overlong prefs hdr ∨
      (Exceeds prefs.maxSizeDeny hdr.msgSize ∨ PositiveDenied prefs regexec hdr ∨
        NegativeDenied prefs regexec hdr) ∨ _ then 1 else 0) = _
  rcases hdec with h | h | h | h | h | h | h <;> simp [h]

/-- The tally of `check_scores`, as an `int`. -/
theorem tallyReached_iff_add : TallyReached prefs regexec hdr ↔
    prefs.highscore ≤ sizeTally prefs hdr + Int32.ofInt (ruleScore prefs regexec hdr) := by
  rw [Int32.le_iff_toInt_le, ← Int32.ofInt_toInt (sizeTally prefs hdr), ← Int32.ofInt_add,
    Int32.toInt_ofInt]
  rfl

/-- A limit of one byte gives every larger message the score that the memory holds. -/
theorem sizeTally_refill (hsize : 1 < hdr.msgSize) (score : Int32) (x : ℤ) :
    sizeTally (prefs.refill ⟨⟨score, 1⟩, x⟩) hdr = score := by
  unfold sizeTally
  by_cases h0 : score = 0
  · rw [if_neg fun h => h.1 h0, h0]
  · rw [if_pos ⟨h0, show (0 : Int32) < 1 by decide, hsize⟩]
    rfl

/-- The verdict about an unscored header does not depend on the memory. -/
theorem isWeed_of_unscored (h : Unscored prefs regexec hdr w) (m : Memory) :
    (isWeed (prefs.refill m) regexec hdr w).1 = (isWeed prefs regexec hdr w).1 := by
  by_cases hdec : Decided prefs regexec hdr w
  · exact isWeed_of_decided hdec m
  have hdec' : ¬ Decided (prefs.refill m) regexec hdr w := hdec
  have htally : TallyReached (prefs.refill m) regexec hdr ↔ TallyReached prefs regexec hdr := by
    rw [tallyReached_iff_add, tallyReached_iff_add]
    rcases h.resolve_left hdec with hsize | hmin
    · have hno : ∀ limit, ¬ Exceeds limit hdr.msgSize := by
        intro limit hx
        have h₁ : limit.toInt < hdr.msgSize.toInt := Int32.lt_iff_toInt_lt.1 hx.2
        have h₂ : 0 < limit.toInt := Int32.lt_iff_toInt_lt.1 hx.1
        have h₃ : hdr.msgSize.toInt ≤ 1 := Int32.le_iff_toInt_le.1 hsize
        omega
      have hzero : ∀ p : Preferences, sizeTally p hdr = 0 := fun p => if_neg fun hs => hno _ hs.2
      rw [hzero, hzero]
      exact Iff.rfl
    · have hhigh : (prefs.refill m).highscore = Int32.minValue := hmin
      rw [hhigh, hmin]
      exact iff_of_true (Int32.minValue_le _) (Int32.minValue_le _)
  rw [isWeed_of_not_decided hdec, isWeed_of_not_decided hdec']
  simp only [htally]

/-- The verdict about any other header does: there are contents that make the tally HIGHSCORE, and
contents that make it the least `int`. -/
theorem exists_isWeed_ne (h : ¬ Unscored prefs regexec hdr w) : ∃ s s' : SizeScore, ∀ x x',
    (isWeed (prefs.refill ⟨s, x⟩) regexec hdr w).1 ≠
      (isWeed (prefs.refill ⟨s', x'⟩) regexec hdr w).1 := by
  unfold Unscored at h
  simp only [not_or] at h
  obtain ⟨hdec, hsize, hmin⟩ := h
  have hlarge : 1 < hdr.msgSize := Int32.not_le.1 hsize
  let r := Int32.ofInt (ruleScore prefs regexec hdr)
  have hverdict : ∀ score x, (isWeed (prefs.refill ⟨⟨score, 1⟩, x⟩) regexec hdr w).1 =
      if prefs.highscore ≤ score + r then 1 else 0 := by
    intro score x
    have hdec' : ¬ Decided (prefs.refill ⟨⟨score, 1⟩, x⟩) regexec hdr w := hdec
    rw [isWeed_of_not_decided hdec']
    simp only [tallyReached_iff_add, sizeTally_refill hlarge]
    rfl
  refine ⟨⟨prefs.highscore - r, 1⟩, ⟨Int32.minValue - r, 1⟩, fun x x' => ?_⟩
  have hnot : ¬ prefs.highscore ≤ Int32.minValue := fun hle =>
    hmin (Int32.le_antisymm hle (Int32.minValue_le _))
  rw [hverdict, hverdict, Int32.sub_add_cancel, Int32.sub_add_cancel, if_pos (Int32.le_refl _),
    if_neg hnot]
  decide

end Verdicts

/-! ### Runs -/

section Runs

variable {regexec : Option Regex → Bytes → ℤ}

theorem weeder_refill (p : Preferences) (m : Memory) (hdr : Header) (w : Weeder) :
    (isWeed (p.refill m) regexec hdr w).2.1 = (isWeed p regexec hdr w).2.1 := by
  rw [weeder_isWeed, weeder_isWeed]
  rfl

/-- The verdicts of two runs with the same weeders agree if they do so header by header. -/
theorem weedAll_eq_iff {q q' : Preferences}
    (hsame : ∀ hdr w, (isWeed q' regexec hdr w).2.1 = (isWeed q regexec hdr w).2.1)
    {hdrs : List Header} {w : Weeder} :
    weedAll q regexec hdrs w = weedAll q' regexec hdrs w ↔
      ∀ before hdr after, hdrs = before ++ hdr :: after →
        (isWeed q regexec hdr (weederAfter q regexec before w)).1 =
          (isWeed q' regexec hdr (weederAfter q regexec before w)).1 := by
  induction hdrs generalizing w with
  | nil => simp [weedAll]
  | cons hdr hdrs ih =>
    rw [weedAll, weedAll, List.cons.injEq, hsame, ih]
    constructor
    · rintro ⟨hfirst, hrest⟩ before hdr' after heq
      cases before with
      | nil =>
        obtain ⟨rfl, -⟩ := List.cons.inj heq
        exact hfirst
      | cons b before =>
        obtain ⟨rfl, heq'⟩ := List.cons.inj heq
        exact hrest before hdr' after heq'
    · intro h
      refine ⟨h [] hdr hdrs rfl, fun before hdr' after heq => ?_⟩
      exact h (hdr :: before) hdr' after (by rw [heq, List.cons_append])

theorem weederAfter_refill (p : Preferences) (m : Memory) (hdrs : List Header) (w : Weeder) :
    weederAfter (p.refill m) regexec hdrs w = weederAfter p regexec hdrs w := by
  unfold weederAfter
  simp only [weeder_refill]

/-- **Verdicts and memory.** Of an accepted rcfile without MAXSIZE_SCORE, the verdicts about a
sequence of headers are the same for all contents of the memory just when every header is
unscored. -/
theorem verdicts_memory_iff {host : Host} {opts : List Opt} {name : Bytes} {file : Rcfile}
    (hno : ∀ c ∈ file.commands, c.isMaxsizeScore = false) {p : Preferences}
    (hp : prepare host opts name file = some p) (hdrs : List Header) :
    (∀ m m' q q', prepare (host.withMemory m) opts name file = some q →
        prepare (host.withMemory m') opts name file = some q' →
        weedAll q host.regexec hdrs Weeder.new = weedAll q' host.regexec hdrs Weeder.new) ↔
      ∀ before hdr after, hdrs = before ++ hdr :: after →
        Unscored p host.regexec hdr (weederAfter p host.regexec before Weeder.new) := by
  have hweeders : ∀ (m m' : Memory) hdr w, (isWeed (p.refill m') host.regexec hdr w).2.1 =
      (isWeed (p.refill m) host.regexec hdr w).2.1 := by
    intro m m' hdr w
    rw [weeder_refill, weeder_refill]
  constructor
  · intro hsame before hdr after heq
    by_contra hscored
    obtain ⟨s, s', hne⟩ := exists_isWeed_ne hscored
    obtain ⟨q, hq, x, rfl⟩ := prepare_withMemory hno hp ⟨s, 0⟩
    obtain ⟨q', hq', x', rfl⟩ := prepare_withMemory hno hp ⟨s', 0⟩
    have hall := (weedAll_eq_iff (hweeders _ _)).1 (hsame _ _ _ _ hq hq') before hdr after heq
    rw [weederAfter_refill] at hall
    exact hne x x' hall
  · intro hunscored m m' q q' hq hq'
    obtain ⟨r, hr, x, rfl⟩ := prepare_withMemory hno hp m
    obtain ⟨r', hr', x', rfl⟩ := prepare_withMemory hno hp m'
    cases hq.symm.trans hr
    cases hq'.symm.trans hr'
    refine (weedAll_eq_iff (hweeders _ _)).2 fun before hdr after heq => ?_
    have hun := hunscored before hdr after heq
    rw [weederAfter_refill, isWeed_of_unscored hun, isWeed_of_unscored hun]

/-- An rcfile with one rule. -/
def oneRule : Rcfile := ⟨[.denyRule ⟨bytes "DENY", by decide⟩ .equal ⟨bytes "spam", by decide⟩], none⟩

/-- A host on which no rule matches, whose memory was empty. -/
def emptyHost : Host where
  argv0 := bytes "mailfilter"
  home := none
  rcfiles _ := some oneRule
  openLog _ := true
  sigaction := true
  wordexp name := some [name]
  regcomp _ _ := 0
  regexec _ _ := 1
  openAppend _ _ := true
  md5 _ _ := 0
  sizeScore := ⟨0, 0⟩
  port := 0

/-- A message with one line in its header. -/
def messageOf (size : Int32) : Header :=
  { Header.new size with msgEntries := [⟨bytes "X", bytes "ab"⟩] }

/-- Two bytes are too many, if the memory happens to hold a score of 100 above a size of 1. -/
theorem oneRule_verdicts :
    (∀ c ∈ oneRule.commands, c.isMaxsizeScore = false) ∧
      ∃ q q', prepare (emptyHost.withMemory ⟨⟨0, 0⟩, 0⟩) [] (bytes "rc") oneRule = some q ∧
        prepare (emptyHost.withMemory ⟨⟨100, 1⟩, 0⟩) [] (bytes "rc") oneRule = some q' ∧
        weedAll q emptyHost.regexec [messageOf 2] Weeder.new = [0] ∧
        weedAll q' emptyHost.regexec [messageOf 2] Weeder.new = [1] :=
  ⟨by decide, _, _, rfl, rfl, by decide, by decide⟩

/-- With one byte the memory does not matter. -/
theorem verdicts_memory_iff_oneByte :
    ∃ q q', prepare (emptyHost.withMemory ⟨⟨0, 0⟩, 0⟩) [] (bytes "rc") oneRule = some q ∧
      prepare (emptyHost.withMemory ⟨⟨100, 1⟩, 0⟩) [] (bytes "rc") oneRule = some q' ∧
      weedAll q emptyHost.regexec [messageOf 1] Weeder.new =
        weedAll q' emptyHost.regexec [messageOf 1] Weeder.new := by
  have hno : ∀ c ∈ oneRule.commands, c.isMaxsizeScore = false := by decide
  have hp : prepare emptyHost [] (bytes "rc") oneRule = some _ := rfl
  refine ⟨_, _, rfl, rfl, (verdicts_memory_iff hno hp _).2 ?_ _ _ _ _ rfl rfl⟩
  intro before hdr after heq
  have hmem : hdr ∈ [messageOf 1] := heq ▸ List.mem_append_right _ (List.mem_cons_self ..)
  rw [List.mem_singleton.1 hmem]
  exact Or.inr (Or.inl (by decide))

end Runs

end Mailfilter
