import Mailfilter.Discretion
import Mailfilter.DryRun
import Mailfilter.Reading

/-!
# Nothing depends on the passwords

Two runs of the program whose rcfiles differ in the arguments of `PASS`, with the sockets over a system
that does not make a difference between passwords.

* `Preferences.withAccounts`: the sessions do not look at the list of accounts, nor at the account
  that the rcfile defined last;
* `Repassed`: the same preferences, but for the passwords, kept by options and commands;
* `main_discreet`: the two runs end alike, with the same log, the same file of headers and the same
  conversations, but for the passwords in `PASS`.
-/

namespace Mailfilter

open Pop3 Rfc822 Program

variable {σ : Type}

/-! ### Sessions and the list of accounts -/

/-- The same preferences with other accounts. -/
def Preferences.withAccounts (p : Preferences) (accounts : List Account) (cur : Account) :
    Preferences := { p with accounts := accounts, curAccount := cur }

def Env.withAccounts (env : Env) (accounts : List Account) (cur : Account) : Env :=
  { env with prefs := env.prefs.withAccounts accounts cur }

section WithAccounts

variable (accounts : List Account) (cur : Account) (env : Env)

theorem parse_withAccounts (p : Preferences) (st : ParserState) (h : Header) (toks : List Token) :
    parse (p.withAccounts accounts cur) st h toks = parse p st h toks := by
  induction toks generalizing st h with
  | nil => cases st <;> rfl
  | cons tok toks ih =>
    cases st <;> simp only [parse, ih]
    rfl

theorem judge_withAccounts (conn : Connection σ) (i : ℕ) (msgNo : Bytes) (size : Int32) :
    judge conn (env.withAccounts accounts cur) i msgNo size = judge conn env i msgNo size := by
  have hparser (b : Bytes) (h : Header) :
      invokeMsgParser (env.prefs.withAccounts accounts cur) b h = invokeMsgParser env.prefs b h := by
    simp only [invokeMsgParser, rfcparse, parse_withAccounts]
  unfold judge
  simp only [Env.withAccounts, hparser]
  rfl

theorem scanFrom_withAccounts (conn : Connection σ) (k i : ℕ) (msgNo : Bytes) :
    scanFrom conn (env.withAccounts accounts cur) k i msgNo = scanFrom conn env k i msgNo := by
  induction k generalizing i msgNo with
  | zero => rfl
  | succ k ih => simp only [scanFrom, examine, judge_withAccounts, ih]

theorem checkAccounts_withAccounts (conns : ℕ → Connection σ) (as : List Account) (returnVal : ℤ) :
    checkAccounts conns (env.withAccounts accounts cur) as returnVal =
      checkAccounts conns env as returnVal := by
  have hsession (a : Account) (sock : ℕ) (proto : Protocol) (psock : ℕ) :
      a.session conns (env.withAccounts accounts cur) sock proto psock =
        a.session conns env sock proto psock := by
    unfold Account.session scan
    simp only [scanFrom_withAccounts]
    rfl
  induction as generalizing returnVal with
  | nil => rfl
  | cons a as ih => simp only [checkAccounts, Account.check, hsession, ih]

end WithAccounts

/-! ### Two rcfiles -/

/-- No account logs in with a digest. -/
def Preferences.Plain (p : Preferences) : Prop := (∀ a ∈ p.accounts, a.Plain) ∧ p.curAccount.Plain

/-- The same preferences, but for the passwords. -/
def Repassed (p q : Preferences) : Prop :=
  (∃ accounts pass, List.Forall₂ Account.Repassed p.accounts accounts ∧
    q = p.withAccounts accounts { p.curAccount with passwd := pass }) ∧ p.Plain

/-- The same command, but for a password. -/
def Command.Repassed (c d : Command) : Prop := c = d ∨ ∃ x y, c = .pass x ∧ d = .pass y

/-- The command does not ask for the digest. -/
def Command.NoApop : Command → Prop
  | .protocol arg => cmpNoCase arg (bytes "APOP") ≠ 0 ∧ cmpNoCase arg (bytes "APOP/SSL") ≠ 0
  | _ => True

/-- The same rcfile, but for the passwords. -/
structure Rcfile.Repassed (file file' : Rcfile) : Prop where
  commands : List.Forall₂ Command.Repassed file.commands file'.commands
  noApop : ∀ c ∈ file.commands, c.NoApop
  error : file.error = file'.error

variable {p q : Preferences}

namespace Repassed

theorem setLogFile (h : Repassed p q) (wordexp : Bytes → Option (List Bytes)) (name : Bytes) :
    Alike Eq Repassed (p.setLogFile wordexp name) (q.setLogFile wordexp name) := by
  obtain ⟨⟨as, pass, has, rfl⟩, hplain⟩ := h
  refine Alike.ite ?_ ⟨⟨as, pass, has, rfl⟩, hplain⟩
  rcases wordexp name with _ | _ | ⟨word, words⟩
  · exact rfl
  · exact rfl
  · exact ⟨⟨as, pass, has, rfl⟩, hplain⟩

theorem setHeadersFile (h : Repassed p q) (wordexp : Bytes → Option (List Bytes)) (name : Bytes) :
    Alike Eq Repassed (p.setHeadersFile wordexp name) (q.setHeadersFile wordexp name) := by
  obtain ⟨⟨as, pass, has, rfl⟩, hplain⟩ := h
  unfold Preferences.setHeadersFile
  rcases wordexp name with _ | _ | ⟨word, words⟩
  · exact rfl
  · exact rfl
  · exact ⟨⟨as, pass, has, rfl⟩, hplain⟩

theorem setVerboseLevel (h : Repassed p q) (level : Int32) :
    Repassed (p.setVerboseLevel level) (q.setVerboseLevel level) := by
  obtain ⟨⟨as, pass, has, rfl⟩, hplain⟩ := h
  exact ite_related (R := Repassed) ⟨⟨as, pass, has, rfl⟩, hplain⟩ ⟨⟨as, pass, has, rfl⟩, hplain⟩

theorem setTestMode (h : Repassed p q) (par : Bytes) :
    Repassed (p.setTestMode par) (q.setTestMode par) := by
  obtain ⟨⟨as, pass, has, rfl⟩, hplain⟩ := h
  exact ite_related (R := Repassed) ⟨⟨as, pass, has, rfl⟩, hplain⟩ ⟨⟨as, pass, has, rfl⟩, hplain⟩

/-- A protocol object of the class `POP3`. -/
theorem withProtocol (h : Repassed p q) (ident : ℕ) :
    Repassed ({ p with curAccount := { p.curAccount with proto := some ⟨.pop3, ident, none⟩ } } :
        Preferences).setConnection
      ({ q with curAccount := { q.curAccount with proto := some ⟨.pop3, ident, none⟩ } } :
        Preferences).setConnection := by
  obtain ⟨⟨as, pass, has, rfl⟩, hplain⟩ := h
  refine ⟨⟨as, pass, has, rfl⟩, hplain.1, ?_⟩
  rintro proto hproto
  obtain rfl := Option.mem_some_iff.mp hproto
  rfl

theorem protocol (h : Repassed p q) (wordexp : Bytes → Option (List Bytes)) {arg : Text}
    (harg : (Command.protocol arg).NoApop) : Alike Eq Repassed
      ((Command.protocol arg).apply wordexp p) ((Command.protocol arg).apply wordexp q) := by
  obtain ⟨hapop, hapopSsl⟩ := harg
  simp only [Command.apply, Preferences.setProtocol, if_neg hapop, if_neg hapopSsl]
  by_cases hpop : cmpNoCase arg (bytes "POP3") = 0
  · rw [if_pos hpop, if_pos hpop]
    exact h.withProtocol protocolPop3
  · rw [if_neg hpop, if_neg hpop]
    by_cases hssl : cmpNoCase arg (bytes "POP3/SSL") = 0
    · rw [if_pos hssl, if_pos hssl]
      exact h.withProtocol (protocolPop3 ||| sslC)
    · rw [if_neg hssl, if_neg hssl]
      exact rfl

/-- The same option of the command line. -/
theorem optApply (h : Repassed p q) (host : Host) (opt : Opt) :
    Alike Eq Repassed (opt.apply host p) (opt.apply host q) := by
  cases opt with
  | logfile optarg => exact h.setLogFile host.wordexp optarg
  | verbose optarg => exact h.setVerboseLevel (atoi optarg)
  | test => exact h.setTestMode (bytes "yes")
  | help => exact rfl
  | version => exact rfl
  | unknown => exact rfl
  | _ =>
    obtain ⟨⟨as, pass, has, rfl⟩, hplain⟩ := h
    exact ⟨⟨as, pass, has, rfl⟩, hplain⟩

/-- The same command of the rcfile, or `PASS` with another password. -/
theorem commandApply (h : Repassed p q) (wordexp : Bytes → Option (List Bytes)) {c d : Command}
    (hcd : c.Repassed d) (hc : c.NoApop) :
    Alike Eq Repassed (c.apply wordexp p) (d.apply wordexp q) := by
  obtain rfl | ⟨x, y, rfl, rfl⟩ := hcd
  case inr =>
    obtain ⟨⟨as, pass, has, rfl⟩, hplain⟩ := h
    exact ⟨⟨as, y, has, rfl⟩, hplain⟩
  cases c with
  | logfile arg => exact h.setLogFile wordexp arg
  | showHeaders arg => exact h.setHeadersFile wordexp arg
  | verbose arg => exact h.setVerboseLevel arg
  | test arg => exact h.setTestMode arg
  | protocol arg => exact h.protocol wordexp hc
  | pass arg =>
    obtain ⟨⟨as, pass, has, rfl⟩, hplain⟩ := h
    exact ⟨⟨as, arg, has, rfl⟩, hplain⟩
  | port arg =>
    -- the account is stored, with its password
    obtain ⟨⟨as, pass, has, rfl⟩, hplain⟩ := h
    refine ⟨⟨_, pass, List.rel_append has (List.Forall₂.cons ⟨pass, rfl⟩ List.Forall₂.nil), rfl⟩,
      fun a ha => ?_, hplain.2⟩
    rcases List.mem_append.mp ha with ha | ha
    · exact hplain.1 a ha
    · obtain rfl := List.mem_singleton.mp ha
      exact hplain.2
  | regType arg =>
    obtain ⟨⟨as, pass, has, rfl⟩, hplain⟩ := h
    exact Alike.ite ⟨⟨as, pass, has, rfl⟩, hplain⟩
      (Alike.ite ⟨⟨as, pass, has, rfl⟩, hplain⟩ rfl)
  | _ =>
    obtain ⟨⟨as, pass, has, rfl⟩, hplain⟩ := h
    exact ⟨⟨as, pass, has, rfl⟩, hplain⟩

theorem load (h : Repassed p q) (wordexp : Bytes → Option (List Bytes)) {file file' : Rcfile}
    (hfile : file.Repassed file') : Alike Eq Repassed (file.load wordexp p) (file'.load wordexp q) := by
  obtain ⟨cs, error⟩ := file
  obtain ⟨ds, error'⟩ := file'
  obtain ⟨hcs, hno, herror⟩ := hfile
  dsimp only at hcs hno herror
  subst herror
  refine Alike.bind (R := Repassed) ?_ fun p' q' hpq => ?_
  · induction hcs generalizing p q with
    | nil => exact h
    | cons hcd _ ih =>
      refine (h.commandApply wordexp hcd (hno _ List.mem_cons_self)).bind fun p' q' hpq => ?_
      exact ih hpq fun c hc => hno c (List.mem_cons_of_mem _ hc)
  · cases error with
    | none => exact hpq
    | some e => exact rfl

/-- The rules are compiled alike. -/
theorem precompileExpressions (h : Repassed p q) (regcomp : Bytes → ℕ → ℤ) :
    (p.precompileExpressions regcomp).1 = (q.precompileExpressions regcomp).1 ∧
      (p.precompileExpressions regcomp).2.2 = (q.precompileExpressions regcomp).2.2 ∧
      Repassed (p.precompileExpressions regcomp).2.1 (q.precompileExpressions regcomp).2.1 := by
  obtain ⟨⟨as, pass, has, rfl⟩, hplain⟩ := h
  let R (x y : ℤ × Preferences × List LogCall) : Prop :=
    x.1 = y.1 ∧ x.2.2 = y.2.2 ∧ Repassed x.2.1 y.2.1
  have hnext {x y : ℤ × Preferences × List LogCall} (hxy : x.1 = y.1 ∧ x.2.2 = y.2.2)
      (hr : Repassed x.2.1 y.2.1) : R x y := ⟨hxy.1, hxy.2, hr⟩
  exact ite_related (R := R) (hnext ⟨rfl, rfl⟩ ⟨⟨as, pass, has, rfl⟩, hplain⟩)
    (ite_related (R := R) (hnext ⟨rfl, rfl⟩ ⟨⟨as, pass, has, rfl⟩, hplain⟩)
      (ite_related (R := R) (hnext ⟨rfl, rfl⟩ ⟨⟨as, pass, has, rfl⟩, hplain⟩)
        (hnext ⟨rfl, rfl⟩ ⟨⟨as, pass, has, rfl⟩, hplain⟩)))

end Repassed

/-! ### Two runs -/

section Main

variable {N : σ → σ → Prop} {conns : ℕ → Connection σ} {host : Host}
  {rcfiles : Bytes → Option Rcfile}

/-- The same files can be opened, and they are the same but for the passwords. -/
def SameFiles (rcfiles rcfiles' : Bytes → Option Rcfile) : Prop :=
  ∀ name, Option.Rel Rcfile.Repassed (rcfiles name) (rcfiles' name)

theorem openPrefs_repassed (hfiles : SameFiles host.rcfiles rcfiles) (name : Bytes) :
    (openPrefs host name).1 = (openPrefs { host with rcfiles := rcfiles } name).1 ∧
      Option.Rel Rcfile.Repassed (openPrefs host name).2
        (openPrefs { host with rcfiles := rcfiles } name).2 := by
  unfold openPrefs
  split_ifs
  · rcases host.home with _ | dir
    · exact ⟨rfl, Option.Rel.none⟩
    · have hdir := hfiles (dir ++ bytes "/.mailfilterrc")
      dsimp only
      revert hdir
      rcases host.rcfiles (dir ++ bytes "/.mailfilterrc") with _ | file <;>
        rcases rcfiles (dir ++ bytes "/.mailfilterrc") with _ | file' <;> intro hdir
      · exact ⟨rfl, Option.Rel.none⟩
      · cases hdir
      · cases hdir
      · exact ⟨rfl, hdir⟩
  · exact ⟨rfl, hfiles name⟩

theorem work_agree (h : ∀ sock, (conns sock).Discreet N) {p q : Preferences} (hpq : Repassed p q) :
    Agree (Indistinct N) (work host conns p) (work { host with rcfiles := rcfiles } conns q) := by
  obtain ⟨herr, hcalls, hnext⟩ := hpq.precompileExpressions host.regcomp
  have hlog : p.logFile = q.logFile := by
    obtain ⟨⟨as, pass, has, rfl⟩, hplain⟩ := hpq
    rfl
  unfold work
  dsimp only
  rw [← hlog, ← herr, ← hcalls]
  refine Agree.ite ((log_agree _).bind fun _ => Agree.pure _) (Agree.ite (Agree.throw _) ?_)
  refine (Agree.forM log_agree _).bind fun _ => Agree.ite (Agree.pure _) ?_
  revert hnext
  generalize (p.precompileExpressions host.regcomp).2.1 = p'
  generalize (q.precompileExpressions host.regcomp).2.1 = q'
  rintro ⟨⟨as, pass, has, rfl⟩, hplain⟩
  have hcheck : Agree (Indistinct N) (checkAccounts conns (host.env p') p'.accounts 0)
      (checkAccounts conns (host.env p') as 0) := checkAccounts_agree h hplain.1 has 0
  rw [← checkAccounts_withAccounts as { p'.curAccount with passwd := pass } (host.env p') conns as]
    at hcheck
  refine Agree.bind hcheck fun _ => Agree.ite ?_ (Agree.pure _)
  exact Agree.bind (Agree.gets fun _ _ hs => hs.status) fun _ => Agree.pure _

/-- **The program** with other passwords. -/
theorem main_agree (h : ∀ sock, (conns sock).Discreet N) (hfiles : SameFiles host.rcfiles rcfiles)
    (opts : List Opt) : Agree (Indistinct N) (main host conns opts)
      (main { host with rcfiles := rcfiles } conns opts) := by
  have hnew : Repassed (Preferences.new host.sizeScore host.port)
      (Preferences.new host.sizeScore host.port) :=
    ⟨⟨[], [], List.Forall₂.nil, rfl⟩, by simp [Preferences.new], by simp [Preferences.new, Account.Plain]⟩
  have hopts : Alike Eq Repassed (getOpts host opts (Preferences.new host.sizeScore host.port))
      (getOpts host opts (Preferences.new host.sizeScore host.port)) :=
    Alike.foldlM (fun opt _ p q hpq => hpq.optApply host opt) hnew
  have hsame : Opt.apply { host with rcfiles := rcfiles } = Opt.apply host := by
    funext p opt
    cases opt <;> rfl
  refine Agree.bind (Agree.modify fun _ _ hs => ⟨hs.wire, hs.weeder, rfl, hs.headerFile, hs.trace⟩)
    fun _ => ?_
  rw [show getOpts { host with rcfiles := rcfiles } opts = getOpts host opts by
    unfold getOpts; rw [hsame]]
  revert hopts
  rcases getOpts host opts (Preferences.new host.sizeScore host.port) with e | p <;> intro hp
  · exact Agree.throw e
  dsimp only
  obtain ⟨hname, hfile⟩ := openPrefs_repassed hfiles p.rcFile
  revert hname hfile
  rcases openPrefs host p.rcFile with ⟨name, o⟩
  rcases openPrefs { host with rcfiles := rcfiles } p.rcFile with ⟨name', o'⟩
  dsimp only
  rintro rfl hfile
  cases hfile with
  | none => exact (log_agree _).bind fun _ => Agree.pure _
  | @some file file' hfile =>
    have hnamed : Repassed { p with rcFile := name } { p with rcFile := name } := by
      obtain ⟨⟨as, pass, has, hrest⟩, hplain⟩ := hp
      exact ⟨⟨as, pass, has, congrArg (Preferences.setRcFile · name) hrest⟩, hplain⟩
    have hload := hnamed.load host.wordexp hfile
    dsimp only
    revert hload
    rcases file.load host.wordexp { p with rcFile := name } with e | p₁ <;>
      rcases file'.load host.wordexp { p with rcFile := name } with e' | p₂ <;> intro hload
    · obtain rfl : e = e' := hload
      exact Agree.throw e
    · exact hload.elim
    · exact hload.elim
    · exact work_agree h hload

end Main

/-- Two runs that look alike to everyone who does not see the passwords. -/
structure LookAlike (run run' : Except Halt ℤ × World σ) : Prop where
  result : run.1 = run'.1
  log : run.2.wire.log = run'.2.wire.log
  headerFile : run.2.headerFile = run'.2.headerFile
  trace : run.2.trace.map Event.hidden = run'.2.trace.map Event.hidden

/-- **Nothing depends on the passwords**: two runs whose rcfiles differ in the arguments of `PASS` end
alike, and log the same, over a system that does not make a difference between passwords, as long as
no account uses APOP. -/
theorem main_discreet {ω : Type} {os : ℕ → Os ω} {r : ω → ω → Prop}
    (hos : ∀ sock, (os sock).Discreet r) {host : Host} {rcfiles : Bytes → Option Rcfile}
    (hfiles : SameFiles host.rcfiles rcfiles) (fuel : ℕ) (opts : List Opt) {net net' : Net ω}
    (hnet : SameNet r net net') :
    LookAlike (exec (main host (networked os fuel) opts) (World.new net))
      (exec (main { host with rcfiles := rcfiles } (networked os fuel) opts) (World.new net')) := by
  have hstart : Indistinct (SameNet r) (World.new net) (World.new net') :=
    ⟨⟨hnet, rfl⟩, rfl, rfl, rfl, rfl⟩
  have h := (main_agree (networked_discreet hos fuel) hfiles opts).exec hstart
  exact ⟨h.1, h.2.wire.log, h.2.headerFile, h.2.trace⟩

/-- A system that delivers what is on a list, whatever is written. -/
def deafOs : Os (List (Option Chunk)) := { scriptOs with write := fun _ s => (1, s) }

theorem deafOs_discreet : deafOs.Discreet Eq := by
  have huniform {α : Type} (f : List (Option Chunk) → α × List (Option Chunk)) : Uniform Eq f := by
    rintro s t rfl
    exact ⟨rfl, rfl⟩
  constructor
  case write =>
    rintro _ _ _ s t rfl
    exact ⟨⟨Iff.rfl, Iff.rfl⟩, rfl⟩
  case sslWrite =>
    rintro _ _ _ s t rfl
    exact ⟨⟨Iff.rfl, Iff.rfl⟩, rfl⟩
  case sslShutdown => rintro s t rfl; rfl
  case sslSet => rintro s t rfl; rfl
  case strerror => rintro s t rfl; rfl
  all_goals intros; exact huniform _

/-- The small rcfile with another password. -/
def otherRcfile : Rcfile :=
  { smallRcfile with commands := smallRcfile.commands.set 5 (.pass ⟨bytes "sesame", by decide⟩) }

theorem otherRcfile_repassed : smallRcfile.Repassed otherRcfile where
  commands := .cons (.inl rfl) <| .cons (.inl rfl) <| .cons (.inl rfl) <| .cons (.inl rfl) <|
    .cons (.inl rfl) <| .cons (.inr ⟨_, _, rfl, rfl⟩) <| .cons (.inl rfl) <|
    .cons (.inl rfl) .nil
  noApop := by
    have hpop : (Command.protocol ⟨bytes "pop3", by decide⟩).NoApop := ⟨by decide, by decide⟩
    simpa [smallRcfile, Command.NoApop] using hpop
  error := rfl

/-- The login succeeds, and then the server is silent. -/
def welcoming : Net (List (Option Chunk)) where
  os := (List.replicate 3 [some ⟨bytes "+OK\r\n", Nat.le_of_ble_eq_true rfl⟩, none]).flatten
  members _ := ⟨0, none, false⟩

theorem main_discreet_otherRcfile :
    LookAlike (exec (main smallHost (networked (fun _ => deafOs) 9) [.test]) (World.new welcoming))
      (exec (main { smallHost with rcfiles := fun _ => some otherRcfile }
        (networked (fun _ => deafOs) 9) [.test]) (World.new welcoming)) :=
  main_discreet (fun _ => deafOs_discreet) (fun _ => Option.Rel.some otherRcfile_repassed) 9 [.test]
    ⟨rfl, rfl⟩

end Mailfilter
