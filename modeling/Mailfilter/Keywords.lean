import Mailfilter.Interleaving
import Mailfilter.Main

/-!
# Keywords and the parts of the preferences

What the commands of the rcfile have to do with each other.

* `Keyword`, with one value for all commands of an account block, and `Command.keyword`;
* `Part k`, the part of the preferences that the commands of a keyword read and write, with `getPart`
  and `putPart`; different parts are different fields;
* `apply_eq`: a command that is not a rule works on its own part, and `apply_comm`: commands of
  different keywords commute.
-/

namespace Mailfilter

/-- The keywords. The rules of one kind have several, the commands of an account block count as
one. -/
inductive Keyword
  | account
  | allow (spelling : Bytes)
  | deny (spelling : Bytes)
  | score (spelling : Bytes)
  | delDuplicates
  | highscore
  | logfile
  | maxlength
  | maxsizeAllow
  | maxsizeDeny
  | maxsizeScore
  | normal
  | regCase
  | regType
  | showHeaders
  | test
  | timeout
  | verbose
  deriving DecidableEq

/-- The keyword of a command. Keywords are not case-sensitive. -/
def Command.keyword : Command → Keyword
  | .allowRule keyword _ _ => .allow (keyword.val.map toupper)
  | .delDuplicates _ => .delDuplicates
  | .denyRule keyword _ _ => .deny (keyword.val.map toupper)
  | .highscore _ => .highscore
  | .logfile _ => .logfile
  | .maxlength _ => .maxlength
  | .maxsizeAllow _ => .maxsizeAllow
  | .maxsizeDeny _ => .maxsizeDeny
  | .maxsizeScore _ _ => .maxsizeScore
  | .normal _ => .normal
  | .server _ => .account
  | .user _ => .account
  | .pass _ => .account
  | .protocol _ => .account
  | .port _ => .account
  | .regCase _ => .regCase
  | .regType _ => .regType
  | .showHeaders _ => .showHeaders
  | .score keyword _ _ _ => .score (keyword.val.map toupper)
  | .test _ => .test
  | .timeout _ => .timeout
  | .verbose _ => .verbose

/-- The command adds a rule. -/
def Command.isRule : Command → Bool
  | .allowRule _ _ _ => true
  | .denyRule _ _ _ => true
  | .score _ _ _ _ => true
  | _ => false

/-! ### Parts -/

/-- What the commands of a keyword read and write; for rules see below. -/
def Part : Keyword → Type
  | .account => Account × List Account × ℕ
  | .allow _ => Unit
  | .deny _ => Unit
  | .score _ => Unit
  | .delDuplicates => Bool
  | .highscore => Int32
  | .logfile => Bytes
  | .maxlength => Int32
  | .maxsizeAllow => Int32
  | .maxsizeDeny => Int32
  | .maxsizeScore => SizeScore
  | .normal => Bool
  | .regCase => ℕ
  | .regType => ℕ
  | .showHeaders => Bytes
  | .test => Bool × Bool
  | .timeout => Int32
  | .verbose => Int32 × Bool

namespace Preferences

def getPart (p : Preferences) : (k : Keyword) → Part k
  | .account => (p.curAccount, p.accounts, p.sockets)
  | .allow _ => ()
  | .deny _ => ()
  | .score _ => ()
  | .delDuplicates => p.deleteDuplicates
  | .highscore => p.highscore
  | .logfile => p.logFile
  | .maxlength => p.maxlength
  | .maxsizeAllow => p.maxSizeAllow
  | .maxsizeDeny => p.maxSizeDeny
  | .maxsizeScore => p.maxSizeScore
  | .normal => p.normal
  | .regCase => p.defaultCase
  | .regType => p.regType
  | .showHeaders => p.headersFile
  | .test => (p.testMode, p.testChanged)
  | .timeout => p.timeOut
  | .verbose => (p.verboseLevel, p.verbosityChanged)

def putPart (p : Preferences) : (k : Keyword) → Part k → Preferences
  | .account, a => { p with curAccount := a.1, accounts := a.2.1, sockets := a.2.2 }
  | .allow _, _ => p
  | .deny _, _ => p
  | .score _, _ => p
  | .delDuplicates, a => { p with deleteDuplicates := a }
  | .highscore, a => { p with highscore := a }
  | .logfile, a => { p with logFile := a }
  | .maxlength, a => { p with maxlength := a }
  | .maxsizeAllow, a => { p with maxSizeAllow := a }
  | .maxsizeDeny, a => { p with maxSizeDeny := a }
  | .maxsizeScore, a => { p with maxSizeScore := a }
  | .normal, a => { p with normal := a }
  | .regCase, a => { p with defaultCase := a }
  | .regType, a => { p with regType := a }
  | .showHeaders, a => { p with headersFile := a }
  | .test, a => { p with testMode := a.1, testChanged := a.2 }
  | .timeout, a => { p with timeOut := a }
  | .verbose, a => { p with verboseLevel := a.1, verbosityChanged := a.2 }

/-- Writing one part leaves the others. -/
theorem getPart_putPart {j k : Keyword} (h : j ≠ k) (p : Preferences) (a : Part k) :
    (p.putPart k a).getPart j = p.getPart j := by
  cases k <;> cases j <;> first | rfl | exact absurd rfl h

/-- Different parts can be written in any order. -/
theorem putPart_comm {j k : Keyword} (h : j ≠ k) (p : Preferences) (a : Part k) (b : Part j) :
    (p.putPart k a).putPart j b = (p.putPart j b).putPart k a := by
  cases k <;> cases j <;> first | rfl | exact absurd rfl h

end Preferences

/-! ### Commands on their parts -/

section Commands

variable (wordexp : Bytes → Option (List Bytes))

/-- What a command makes of its part, tried out on other preferences. -/
def Command.act (c : Command) (a : Part c.keyword) : Except Halt (Part c.keyword) :=
  (c.apply wordexp ((Preferences.new ⟨0, 0⟩ 0).putPart c.keyword a)).map
    (·.getPart c.keyword)

variable {wordexp}

/-- A command that is not a rule reads and writes its own part only. -/
theorem Command.apply_eq {c : Command} (hc : c.isRule = false) (p : Preferences) :
    c.apply wordexp p = (c.act wordexp (p.getPart c.keyword)).map (p.putPart c.keyword) := by
  cases c with
  | allowRule keyword operat arg => exact absurd hc (by simp [isRule])
  | denyRule keyword operat arg => exact absurd hc (by simp [isRule])
  | score keyword givenScore operat arg => exact absurd hc (by simp [isRule])
  | logfile arg =>
    show p.setLogFile wordexp arg = Except.map _ (Except.map _ (Preferences.setLogFile _ wordexp arg))
    unfold Preferences.setLogFile
    rw [apply_ite (Except.map _), apply_ite (Except.map _)]
    refine ite_related (R := Eq) ?_ rfl
    rcases wordexp arg with _ | _ | ⟨word, words⟩ <;> rfl
  | showHeaders arg =>
    show p.setHeadersFile wordexp arg =
      Except.map _ (Except.map _ (Preferences.setHeadersFile _ wordexp arg))
    unfold Preferences.setHeadersFile
    rcases wordexp arg with _ | _ | ⟨word, words⟩ <;> rfl
  | protocol arg =>
    show (p.setProtocol arg >>= fun p => pure p.setConnection) = Except.map _ (Except.map _
      (Preferences.setProtocol _ arg >>= fun p => pure p.setConnection))
    unfold Preferences.setProtocol
    split_ifs <;> rfl
  | regType arg =>
    show p.setRegType arg = Except.map _ (Except.map _ (Preferences.setRegType _ arg))
    unfold Preferences.setRegType
    split_ifs <;> rfl
  | test arg =>
    refine congrArg Except.ok ?_
    exact ite_related (R := fun q r : Preferences => q = p.putPart .test (r.getPart .test)) rfl rfl
  | verbose arg =>
    refine congrArg Except.ok ?_
    exact ite_related (R := fun q r : Preferences => q = p.putPart .verbose (r.getPart .verbose)) rfl rfl
  | _ => rfl

/-- Commands of different keywords do not see each other. -/
theorem Command.apply_comm {c d : Command} (hc : c.isRule = false) (hd : d.isRule = false)
    (h : c.keyword ≠ d.keyword) (p : Preferences) :
    SameResult (c.apply wordexp p >>= fun q => d.apply wordexp q)
      (d.apply wordexp p >>= fun q => c.apply wordexp q) := by
  simp only [apply_eq hc, apply_eq hd]
  rcases hcp : c.act wordexp (p.getPart c.keyword) with e | a <;>
    rcases hdp : d.act wordexp (p.getPart d.keyword) with e' | b
  · exact trivial
  · show SameResult (.error e) ((c.act wordexp ((p.putPart d.keyword b).getPart c.keyword)).map _)
    rw [Preferences.getPart_putPart h, hcp]
    exact trivial
  · show SameResult ((d.act wordexp ((p.putPart c.keyword a).getPart d.keyword)).map _) (.error e')
    rw [Preferences.getPart_putPart h.symm, hdp]
    exact trivial
  · show SameResult ((d.act wordexp ((p.putPart c.keyword a).getPart d.keyword)).map _)
      ((c.act wordexp ((p.putPart d.keyword b).getPart c.keyword)).map _)
    rw [Preferences.getPart_putPart h, Preferences.getPart_putPart h.symm, hcp, hdp]
    exact Preferences.putPart_comm h.symm p a b

/-- A command leaves the parts of all other keywords alone. -/
theorem Command.getPart_apply {c : Command} {k : Keyword} (h : k ≠ c.keyword)
    {p q : Preferences} (hq : c.apply wordexp p = .ok q) : q.getPart k = p.getPart k := by
  cases hc : c.isRule with
  | false =>
    rw [apply_eq hc] at hq
    rcases hact : c.act wordexp (p.getPart c.keyword) with e | a
    · rw [hact] at hq
      cases hq
    · rw [hact] at hq
      cases hq
      exact Preferences.getPart_putPart h p a
  | true =>
    cases c with
    | allowRule keyword operat arg =>
      cases hq
      cases k <;> rfl
    | denyRule keyword operat arg =>
      cases hq
      cases k <;> rfl
    | score keyword givenScore operat arg =>
      cases hq
      cases k <;> rfl
    | _ => exact absurd hc (by simp [isRule])

end Commands

end Mailfilter
