import Mailfilter.Deletion
import Mailfilter.Invariants

/-!
# Dry runs

With the option `-t` the program writes no `DELE` command, whatever the rcfile says and however the
servers behave.

* `HasDele`, a message with a `DELE` line; `Wrote`, the invariant of the runs;
* `Simulated`, what the option does to the preferences, which every command of the rcfile keeps
  (`Command.apply_simulated`);
* `harmless_speech`: the messages of a session are harmless, and `sessions_harmless`, the sessions keep
  the invariant;
* `main_never_deletes`.
-/

namespace Mailfilter

open Pop3 Program

/-! ### Lines -/

/-- Some line of the message is a `DELE` command. -/
def HasDele (msg : Bytes) : Prop :=
  ∃ u v, msg = u ++ v ∧ (∀ c ∈ u.getLast?, c = chr '\n') ∧ isDele v = true

/-- A message of one line that is not a `DELE` command. -/
theorem not_hasDele {body : Bytes} (hlf : chr '\n' ∉ body) (hdele : isDele (body ++ crlf) = false) :
    ¬ HasDele (body ++ crlf) := by
  rintro ⟨u, v, hmsg, hu, hv⟩
  rcases u.eq_nil_or_concat with rfl | ⟨u', c, rfl⟩
  · rw [List.nil_append] at hmsg
    rw [hmsg, hv] at hdele
    cases hdele
  · obtain rfl : c = chr '\n' := hu c (by simp)
    rcases v.eq_nil_or_concat with rfl | ⟨v', d, rfl⟩
    · cases hv
    · -- the line end is the last character of the message, so that it cannot come before `v`
      have hsplit : body ++ [chr '\r'] = u' ++ [chr '\n'] ++ v' := by
        have h : (body ++ [chr '\r']) ++ [chr '\n'] = (u' ++ [chr '\n'] ++ v') ++ [d] := by
          simpa [show crlf = [chr '\r', chr '\n'] by decide] using hmsg
        exact (List.append_inj' h rfl).1
      have hmem : chr '\n' ∈ body ++ [chr '\r'] := by rw [hsplit]; simp
      rcases List.mem_append.1 hmem with h | h
      · exact hlf h
      · exact absurd (List.mem_singleton.1 h) (by decide)

theorem lf_notMem_decimal (n : ℕ) : chr '\n' ∉ decimal n := fun h =>
  absurd (decimal_isdigit h) (by decide)

theorem hexDigit_ne {d : UInt8} (h : d < 16) : Apop.hexDigit d ≠ chr '\n' := by
  have hlf : chr '\n' = 10 := by decide
  unfold Apop.hexDigit
  rw [hlf]
  split <;> grind

theorem lf_notMem_hexByte (c : UInt8) : chr '\n' ∉ Apop.hexByte c := by
  have hdiv : c / 16 < 16 := by
    have := c.toNat_lt
    rw [UInt8.lt_iff_toNat_lt, UInt8.toNat_div]
    show c.toNat / 16 < 16
    omega
  have hmod : c % 16 < 16 := by
    rw [UInt8.lt_iff_toNat_lt, UInt8.toNat_mod]
    show c.toNat % 16 < 16
    omega
  simp only [Apop.hexByte, List.mem_cons, List.not_mem_nil, or_false, not_or]
  exact ⟨(hexDigit_ne hdiv).symm, (hexDigit_ne hmod).symm⟩

theorem lf_notMem_cstr {b : Bytes} (h : chr '\n' ∉ b) : chr '\n' ∉ cstr b := fun hmem =>
  h (List.takeWhile_subset _ hmem)

/-! ### The commands -/

theorem statCommand_harmless : ¬ HasDele statCommand :=
  (not_hasDele (by decide) rfl : ¬ HasDele (bytes "STAT" ++ crlf))

theorem quitCommand_harmless : ¬ HasDele quitCommand :=
  (not_hasDele (by decide) rfl : ¬ HasDele (bytes "QUIT" ++ crlf))

theorem listCommand_harmless {msgNo : Bytes} (h : chr '\n' ∉ msgNo) :
    ¬ HasDele (listCommand msgNo) :=
  not_hasDele (by simpa using ⟨by decide, h⟩) rfl

theorem topCommand_harmless {msgNo : Bytes} (h : chr '\n' ∉ msgNo) : ¬ HasDele (topCommand msgNo) := by
  have heq : topCommand msgNo = (bytes "TOP " ++ msgNo ++ bytes " 0") ++ crlf := by
    simp [topCommand, show bytes " 0\r\n" = bytes " 0" ++ crlf by decide]
  rw [heq]
  exact not_hasDele (by simpa using ⟨by decide, h, by decide⟩) rfl

theorem userCommand_harmless {usr : Bytes} (h : chr '\n' ∉ usr) : ¬ HasDele (userCommand usr) :=
  not_hasDele (by simpa using ⟨by decide, h⟩) rfl

theorem passCommand_harmless {pass : Bytes} (h : chr '\n' ∉ pass) : ¬ HasDele (passCommand pass) :=
  not_hasDele (by simpa using ⟨by decide, h⟩) rfl

theorem apopCommand_harmless {env : Env} {usr : Bytes} (h : chr '\n' ∉ usr) (stamp pass : Bytes) :
    ¬ HasDele (Apop.apopCommand usr (Apop.getHash env stamp pass)) := by
  have hhash : chr '\n' ∉ Apop.getHash env stamp pass := fun hmem => by
    obtain ⟨c, -, hc⟩ := List.mem_flatMap.1 hmem
    exact lf_notMem_hexByte c hc
  exact not_hasDele (by simpa using ⟨by decide, h, by decide, hhash⟩) rfl

/-! ### The preferences -/

/-- User and password fit on a line. -/
def OneLine (a : Account) : Prop := chr '\n' ∉ a.usr ∧ chr '\n' ∉ a.passwd

/-- The accounts fit on lines, and a test mode that was set is on. -/
structure Tame (p : Preferences) : Prop where
  cur : OneLine p.curAccount
  accounts : ∀ a ∈ p.accounts, OneLine a
  test : p.testChanged = true → p.testMode = true

/-- The test mode was set, and will not be changed any more. -/
structure Simulated (p : Preferences) : Prop extends Tame p where
  changed : p.testChanged = true

theorem Simulated.testMode {p : Preferences} (h : Simulated p) : p.testMode = true := h.test h.changed

theorem Tame.new (sizeScore : SizeScore) (port : ℤ) : Tame (Preferences.new sizeScore port) :=
  ⟨⟨List.not_mem_nil, List.not_mem_nil⟩, fun _ ha => (nomatch ha), fun h => nomatch h⟩

/-- Nothing else matters. -/
theorem Tame.of_eq {p q : Preferences} (h : Tame p) (husr : q.curAccount.usr = p.curAccount.usr)
    (hpasswd : q.curAccount.passwd = p.curAccount.passwd) (hacc : q.accounts = p.accounts)
    (hmode : q.testMode = p.testMode) (hchanged : q.testChanged = p.testChanged) : Tame q :=
  ⟨⟨husr ▸ h.cur.1, hpasswd ▸ h.cur.2⟩, hacc ▸ h.accounts, hchanged ▸ hmode ▸ h.test⟩

theorem Simulated.of_eq {p q : Preferences} (h : Simulated p)
    (husr : q.curAccount.usr = p.curAccount.usr)
    (hpasswd : q.curAccount.passwd = p.curAccount.passwd) (hacc : q.accounts = p.accounts)
    (hmode : q.testMode = p.testMode) (hchanged : q.testChanged = p.testChanged) : Simulated q :=
  ⟨h.toTame.of_eq husr hpasswd hacc hmode hchanged, hchanged ▸ h.changed⟩

/-- Nor do the settings whose functions can fail. -/
theorem setLogFile_eq {wordexp : Bytes → Option (List Bytes)} {p q : Preferences} {name : Bytes}
    (h : p.setLogFile wordexp name = .ok q) : ∃ file, q = { p with logFile := file } := by
  unfold Preferences.setLogFile at h
  split at h
  · split at h
    · exact ⟨_, (Except.ok.inj h).symm⟩
    · cases h
  · exact ⟨p.logFile, (Except.ok.inj h).symm⟩

theorem setVerboseLevel_eq (p : Preferences) (level : Int32) :
    ∃ verboseLevel verbosityChanged, p.setVerboseLevel level =
      { p with verboseLevel := verboseLevel, verbosityChanged := verbosityChanged } := by
  unfold Preferences.setVerboseLevel
  split
  · exact ⟨_, _, rfl⟩
  · exact ⟨p.verboseLevel, p.verbosityChanged, rfl⟩

theorem setTestMode_of_changed {p : Preferences} (h : p.testChanged = true) (par : Bytes) :
    p.setTestMode par = p := by
  unfold Preferences.setTestMode
  rw [h]
  rfl

/-- **The option survives the rcfile.** -/
theorem Command.apply_simulated {wordexp : Bytes → Option (List Bytes)} {p q : Preferences}
    (h : Simulated p) {c : Command} (hc : c.apply wordexp p = .ok q) : Simulated q := by
  cases c
  case user arg =>
    cases hc
    exact ⟨⟨⟨arg.2.1, h.cur.2⟩, h.accounts, h.test⟩, h.changed⟩
  case pass arg =>
    cases hc
    exact ⟨⟨⟨h.cur.1, arg.2.1⟩, h.accounts, h.test⟩, h.changed⟩
  case port arg =>
    cases hc
    refine ⟨⟨h.cur, fun a ha => ?_, h.test⟩, h.changed⟩
    rcases List.mem_append.1 ha with ha | ha
    · exact h.accounts a ha
    · rw [List.mem_singleton.1 ha]
      exact h.cur
  case test arg =>
    cases hc
    rwa [setTestMode_of_changed h.changed]
  case protocol arg =>
    simp only [Command.apply, Preferences.setProtocol] at hc
    split_ifs at hc <;> cases hc <;> exact h.of_eq rfl rfl rfl rfl rfl
  case logfile arg =>
    obtain ⟨file, rfl⟩ := setLogFile_eq hc
    exact h.of_eq rfl rfl rfl rfl rfl
  case showHeaders arg =>
    simp only [Command.apply, Preferences.setHeadersFile] at hc
    split at hc <;> cases hc
    exact h.of_eq rfl rfl rfl rfl rfl
  case regType arg =>
    simp only [Command.apply, Preferences.setRegType] at hc
    split_ifs at hc <;> cases hc <;> exact h.of_eq rfl rfl rfl rfl rfl
  case verbose arg =>
    cases hc
    obtain ⟨_, _, heq⟩ := setVerboseLevel_eq p arg
    rw [heq]
    exact h.of_eq rfl rfl rfl rfl rfl
  all_goals
    cases hc
    exact h.of_eq rfl rfl rfl rfl rfl

theorem commands_simulated {wordexp : Bytes → Option (List Bytes)} {commands : List Command}
    {p q : Preferences} (h : Simulated p)
    (hq : commands.foldlM (Command.apply wordexp) p = .ok q) : Simulated q := by
  induction commands generalizing p with
  | nil => cases hq; exact h
  | cons c commands ih =>
    rw [List.foldlM_cons] at hq
    cases hc : c.apply wordexp p with
    | error e => rw [hc] at hq; cases hq
    | ok p' =>
      rw [hc] at hq
      exact ih (Command.apply_simulated h hc) hq

theorem load_simulated {wordexp : Bytes → Option (List Bytes)} {file : Rcfile} {p q : Preferences}
    (h : Simulated p) (hq : file.load wordexp p = .ok q) : Simulated q := by
  unfold Rcfile.load at hq
  cases hc : file.commands.foldlM (Command.apply wordexp) p with
  | error e => rw [hc] at hq; cases hq
  | ok p' =>
    rw [hc] at hq
    cases he : file.error with
    | none =>
      rw [he] at hq
      cases hq
      exact commands_simulated h hc
    | some e => rw [he] at hq; cases hq

variable {host : Host}

/-- An option keeps the test mode, and `-t` sets it. -/
theorem Opt.apply_tame {p q : Preferences} (h : Tame p) {o : Opt} (ho : o.apply host p = .ok q) :
    Tame q ∧ (p.testChanged = true ∨ o = .test → q.testChanged = true) := by
  cases o
  case help => cases ho
  case version => cases ho
  case unknown => cases ho
  case logfile optarg =>
    obtain ⟨file, rfl⟩ := setLogFile_eq ho
    exact ⟨h.of_eq rfl rfl rfl rfl rfl, fun hc => hc.elim id fun heq => nomatch heq⟩
  case verbose optarg =>
    cases ho
    obtain ⟨_, _, heq⟩ := setVerboseLevel_eq p (atoi optarg)
    rw [heq]
    exact ⟨h.of_eq rfl rfl rfl rfl rfl, fun hc => hc.elim id fun heq => nomatch heq⟩
  case test =>
    cases ho
    cases hchanged : p.testChanged with
    | true =>
      rw [setTestMode_of_changed hchanged]
      exact ⟨h, fun _ => hchanged⟩
    | false =>
      have heq : p.setTestMode (bytes "yes") = { p with testMode := true, testChanged := true } := by
        unfold Preferences.setTestMode
        rw [hchanged]
        rfl
      rw [heq]
      exact ⟨⟨h.cur, h.accounts, fun _ => rfl⟩, fun _ => rfl⟩
  all_goals
    cases ho
    exact ⟨h.of_eq rfl rfl rfl rfl rfl, fun hc => hc.elim id fun heq => nomatch heq⟩

theorem getOpts_tame {opts : List Opt} {p q : Preferences} (h : Tame p)
    (hq : getOpts host opts p = .ok q) :
    Tame q ∧ (p.testChanged = true ∨ .test ∈ opts → q.testChanged = true) := by
  induction opts generalizing p with
  | nil =>
    cases hq
    exact ⟨h, fun hc => hc.elim id fun hmem => nomatch hmem⟩
  | cons o opts ih =>
    rw [getOpts, List.foldlM_cons] at hq
    cases ho : o.apply host p with
    | error e => rw [ho] at hq; cases hq
    | ok p' =>
      rw [ho] at hq
      obtain ⟨hp', hchanged⟩ := Opt.apply_tame h ho
      obtain ⟨htame, hopts⟩ := ih hp' hq
      refine ⟨htame, fun hc => hopts ?_⟩
      rcases hc with hc | hc
      · exact Or.inl (hchanged (Or.inl hc))
      · rcases List.mem_cons.1 hc with rfl | hc
        · exact Or.inl (hchanged (Or.inr rfl))
        · exact Or.inr hc

/-- **The option `-t` sets the test mode.** -/
theorem getOpts_simulated {opts : List Opt} (htest : .test ∈ opts) {sizeScore : SizeScore} {port : ℤ}
    {p : Preferences} (hp : getOpts host opts (Preferences.new sizeScore port) = .ok p) :
    Simulated p := by
  obtain ⟨htame, hchanged⟩ := getOpts_tame (Tame.new sizeScore port) hp
  exact ⟨htame, hchanged (Or.inr htest)⟩

theorem precompile_simulated {p : Preferences} (h : Simulated p) (regcomp : Bytes → ℕ → ℤ) :
    Simulated (p.precompileExpressions regcomp).2.1 := by
  unfold Preferences.precompileExpressions
  simp only
  split_ifs <;> exact h.of_eq rfl rfl rfl rfl rfl

/-! ### The runs -/

section Runs

variable {σ : Type} {conn : Connection σ} {conns : ℕ → Connection σ} {env : Env}

/-- Nothing written so far contains a `DELE` line. -/
def Harmless (s : World σ) : Prop := ∀ msg, .write msg ∈ s.trace → ¬ HasDele msg

theorem Harmless.record {s : World σ} (hs : Harmless s) {e : Event}
    (he : ∀ msg, e = .write msg → ¬ HasDele msg) : Harmless (s.record e) := by
  intro msg hmsg
  rcases List.mem_append.1 hmsg with hmsg | hmsg
  · exact hs msg hmsg
  · exact he msg (List.mem_singleton.1 hmsg).symm

/-- The messages of a session are harmless in test mode. -/
theorem harmless_speech (htest : env.prefs.testMode = true) {a : Account} (ha : OneLine a) :
    Speech env (cstr a.usr) (cstr a.passwd) fun msg => ¬ HasDele msg where
  user := userCommand_harmless (lf_notMem_cstr ha.1)
  passwd := passCommand_harmless (lf_notMem_cstr ha.2)
  apop stamp := apopCommand_harmless (lf_notMem_cstr ha.1) stamp _
  stat := statCommand_harmless
  list i := listCommand_harmless (lf_notMem_decimal i)
  top i := topCommand_harmless (lf_notMem_decimal i)
  dele hsend := absurd (htest.symm.trans hsend) Bool.noConfusion
  quit := quitCommand_harmless

theorem onWire_harmless {α : Type} (p : Program Halt (Wire σ) α) : Preserves Harmless (onWire p) :=
  onWire_preserves (fun _ _ hs => hs) p

/-- Harmless messages are all that matters. -/
theorem sessions_harmless :
    SessionKeeps conns env (fun msg => ¬ HasDele msg) Harmless Harmless where
  kept psock := Keeps.of_blind (fun _ _ _ hs => hs)
    (fun s _ _ _ hs => hs.record fun _ he => nomatch he)
    (fun s _ hmsg hs => hs.record fun _ he => by cases he; exact hmsg)
    (fun s _ _ _ _ hs => hs.record fun _ he => nomatch he)
  opened sock host port protocol := (onWire_harmless _).bind fun ret =>
    record_preserves (fun s hs => hs.record fun _ he => nomatch he) ret
  closed sock := (onWire_harmless _).bind fun ret =>
    record_preserves (fun s hs => hs.record fun _ he => nomatch he) ret
  counted _ _ hs := hs
  halted _ hs := hs

theorem log_harmless (call : LogCall) : Preserves Harmless (log call : Run σ Unit) :=
  log_preserves (fun _ _ _ hs => hs) call

theorem checkAccounts_harmless (htest : env.prefs.testMode = true) {accounts : List Account}
    (h : ∀ a ∈ accounts, OneLine a) (returnVal : ℤ) :
    Preserves Harmless (checkAccounts conns env accounts returnVal) :=
  sessions_harmless.checkAccounts (fun a ha => harmless_speech htest (h a ha)) returnVal

theorem work_harmless {p : Preferences} (hp : Simulated p) :
    Preserves Harmless (work host conns p) := by
  have hq := precompile_simulated hp host.regcomp
  refine Preserves.ite ((log_harmless _).bind fun _ => Preserves.pure _)
    (Preserves.ite (Preserves.throw _) ?_)
  rcases hpre : p.precompileExpressions host.regcomp with ⟨compErr, q, calls⟩
  rw [hpre] at hq
  refine Preserves.bind (Preserves.forM fun call _ => log_harmless call) fun _ =>
    Preserves.ite (Preserves.pure _) ?_
  have htest : (host.env q).prefs.testMode = true := hq.testMode
  exact (checkAccounts_harmless htest hq.accounts 0).bind fun _ =>
    Preserves.ite ((Preserves.gets _).bind fun _ => Preserves.pure _) (Preserves.pure _)

theorem main_harmless {opts : List Opt} (htest : .test ∈ opts) :
    Preserves Harmless (main host conns opts) := by
  refine Preserves.bind (Preserves.modify fun _ hs => hs) fun _ => ?_
  split
  case h_1 => exact Preserves.throw _
  case h_2 p hp =>
    have hsim := getOpts_simulated htest hp
    split
    · exact (log_harmless _).bind fun _ => Preserves.pure _
    · split
      · exact Preserves.throw _
      · rename_i q hq
        refine work_harmless (load_simulated ?_ hq)
        exact hsim.of_eq rfl rfl rfl rfl rfl

end Runs

/-! ### The program -/

/-- **A dry run never deletes.**  If `-t` is among the options, no message that is handed to `c_write`
contains a `DELE` line, for every system, every rcfile and every connections. -/
theorem main_never_deletes {σ : Type} (host : Host) (conns : ℕ → Connection σ) {opts : List Opt}
    (htest : .test ∈ opts) (net : σ) :
    ∀ msg, .write msg ∈ (exec (main host conns opts) (World.new net)).2.trace → ¬ HasDele msg :=
  (main_harmless htest).exec fun _ hmsg => nomatch hmsg

/-- An rcfile with one account, a limit of one byte, and `TEST = "no"`. -/
def smallRcfile : Rcfile where
  commands := [.logfile ⟨bytes "log", by decide⟩, .maxsizeDeny 1, .test ⟨bytes "no", by decide⟩,
    .server ⟨bytes "host", by decide⟩, .user ⟨bytes "joe", by decide⟩,
    .pass ⟨bytes "secret", by decide⟩, .protocol ⟨bytes "pop3", by decide⟩, .port 110]
  error := none

def smallHost : Host where
  argv0 := bytes "mailfilter"
  home := some (bytes "/home/joe")
  rcfiles _ := some smallRcfile
  openLog _ := true
  sigaction := true
  wordexp name := some [name]
  regcomp _ _ := 0
  regexec _ _ := 1
  openAppend _ _ := true
  md5 _ _ := 0
  sizeScore := ⟨0, 0⟩
  port := 0

/-- A server with one message of two bytes. -/
def smallServer : List Bytes × Option Bytes :=
  ([bytes "+OK\r\n", bytes "+OK\r\n", bytes "+OK\r\n", bytes "+OK 1 2\r\n", bytes "+OK 1 2\r\n",
    bytes "+OK 1 2\r\n", bytes "+OK\r\n"], none)

theorem main_never_deletes_small :
    ¬ ∃ msg, .write msg ∈ (exec (main smallHost (fun _ => prepared) [.test])
      (World.new smallServer)).2.trace ∧ HasDele msg :=
  fun ⟨msg, hmem, hdele⟩ =>
    main_never_deletes smallHost (fun _ => prepared) (by decide) smallServer msg hmem hdele

/-- Without the option the message is deleted. -/
example : deletions (exec (main smallHost (fun _ => prepared) []) (World.new smallServer)).2.trace =
    [deleCommand 1] := by decide +kernel

end Mailfilter
