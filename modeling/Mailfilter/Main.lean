import Mailfilter.Account

/-!
# The program

The commands of the rcfile (the actions of `rcfile.yy`), the options of the command line and `main`
(`mailfilter.cc`).

* `Command` and `Command.apply`, one for each rule of the grammar; `Rcfile.load`;
* `Opt`, what `getopt_long` returns, and `Opt.apply`, the cases of `get_opts`;
* `Host`, the functions of the system that `main` depends on;
* `openPrefs` (`Preferences::open`), `checkAccounts` (the loop over the accounts) and `main`.
-/

namespace Mailfilter

variable {σ : Type}

/-! ### The rcfile -/

/-- The text of a token: the scanner ends a token at a line end, and its text is a C string. -/
abbrev Text := { b : Bytes // 10 ∉ b ∧ 0 ∉ b }

/-- `=` or `<>`. -/
inductive Operator
  | equal
  | notEqual
  deriving DecidableEq

def Operator.text : Operator → Bytes
  | .equal => bytes "="
  | .notEqual => bytes "<>"

/-- The commands of the grammar, with the values of the tokens that the actions use.  The keywords of
rules have several spellings. -/
inductive Command
  | allowRule (keyword : Text) (operat : Operator) (arg : Text)
  | delDuplicates (arg : Text)
  | denyRule (keyword : Text) (operat : Operator) (arg : Text)
  | highscore (arg : Int32)
  | logfile (arg : Text)
  | maxlength (arg : Int32)
  | maxsizeAllow (arg : Int32)
  | maxsizeDeny (arg : Int32)
  | maxsizeScore (givenScore size : Int32)
  | normal (arg : Text)
  | server (arg : Text)
  | user (arg : Text)
  | pass (arg : Text)
  | protocol (arg : Text)
  | port (arg : Int32)
  | regCase (arg : Text)
  | regType (arg : Text)
  | showHeaders (arg : Text)
  | score (keyword : Text) (givenScore : Int32) (operat : Operator) (arg : Text)
  | test (arg : Text)
  | timeout (arg : Int32)
  | verbose (arg : Int32)

/-- The action of a command. -/
def Command.apply (wordexp : Bytes → Option (List Bytes)) (p : Preferences) :
    Command → Except Halt Preferences
  | .allowRule keyword operat arg => .ok (p.addAllowRule keyword operat.text arg)
  | .delDuplicates arg => .ok (p.setDelDuplicates arg)
  | .denyRule keyword operat arg => .ok (p.addDenyRule keyword operat.text arg)
  | .highscore arg => .ok (p.setHighscore arg)
  | .logfile arg => p.setLogFile wordexp arg
  | .maxlength arg => .ok (p.setMaxlength arg)
  | .maxsizeAllow arg => .ok (p.setMaxSizeAllow arg)
  | .maxsizeDeny arg => .ok (p.setMaxSizeDeny arg)
  | .maxsizeScore givenScore size => .ok (p.setMaxSizeScore givenScore size)
  | .normal arg => .ok (p.setNormal arg)
  | .server arg => .ok (p.setServer arg)
  | .user arg => .ok (p.setUsr arg)
  | .pass arg => .ok (p.setPasswd arg)
  | .protocol arg => do
    let p ← p.setProtocol arg
    -- see `account.cc` for this rather misplaced call
    pure p.setConnection
  | .port arg => .ok (p.setPort arg.toUInt32.toNat)
  | .regCase arg => .ok (p.setDefaultCase arg)
  | .regType arg => p.setRegType arg
  | .showHeaders arg => p.setHeadersFile wordexp arg
  | .score keyword givenScore operat arg => .ok (p.addScore keyword givenScore operat.text arg)
  | .test arg => .ok (p.setTestMode arg)
  | .timeout arg => .ok (p.setTimeOut arg)
  | .verbose arg => .ok (p.setVerboseLevel arg)

/-- What scanner and parser make of an rcfile: its commands, and the error at which they stop, if
there is one. -/
@[ext] structure Rcfile where
  commands : List Command
  error : Option Halt

/-- `Preferences::load`, once the file is open. -/
def Rcfile.load (wordexp : Bytes → Option (List Bytes)) (file : Rcfile) (p : Preferences) :
    Except Halt Preferences := do
  let p ← file.commands.foldlM (Command.apply wordexp) p
  match file.error with
  | none => pure p
  | some h => throw h

/-- Without an error, the commands are all. -/
theorem load_none (wordexp : Bytes → Option (List Bytes)) (cs : List Command) (p : Preferences) :
    Rcfile.load wordexp ⟨cs, none⟩ p = cs.foldlM (Command.apply wordexp) p :=
  bind_pure _

/-! ### The command line -/

/-- What `getopt_long` returns. -/
inductive Opt
  | help
  | version
  | logfile (optarg : Bytes)
  | verbose (optarg : Bytes)
  | test
  | timestamp
  | returnValue
  | skipSslVerify
  | mailfilterrc (optarg : Bytes)
  | unknown
  deriving DecidableEq

/-- The system that the program runs on: the name it was called by, the environment variable `HOME`,
the rcfiles that can be opened, the functions of the C library, and what the memory of the
preferences held before their constructor was called. -/
structure Host where
  argv0 : Bytes
  home : Option Bytes
  rcfiles : Bytes → Option Rcfile
  openLog : Bytes → Bool
  sigaction : Bool
  wordexp : Bytes → Option (List Bytes)
  regcomp : Bytes → ℕ → ℤ
  regexec : Option Regex → Bytes → ℤ
  openAppend : Bytes → ℕ → Bool
  md5 : Bytes → Fin 16 → UInt8
  sizeScore : SizeScore
  port : ℤ

/-- What the rest of the program sees of it. -/
def Host.env (host : Host) (p : Preferences) : Env := ⟨p, host.regexec, host.openAppend, host.md5⟩

variable (host : Host)

/-- A round of `get_opts`. -/
def Opt.apply (p : Preferences) : Opt → Except Halt Preferences
  | .help => .error (.exit 0 [])
  | .version => .error (.exit 0 [])
  | .logfile optarg => p.setLogFile host.wordexp optarg
  | .verbose optarg => .ok (p.setVerboseLevel (atoi optarg))
  | .test => .ok (p.setTestMode (bytes "yes"))
  | .timestamp => .ok (p.setIgnoreTimeStamp true)
  | .returnValue => .ok (p.setReturnStatus true)
  | .skipSslVerify => .ok (p.setSkipSslVerify true)
  | .mailfilterrc optarg => .ok (p.setRcFile optarg)
  -- Command line option not recognised.
  | .unknown => .error (.exit (-1)
      (bytes "Try '" ++ host.argv0 ++ bytes " --help' for more information."))

/-- `get_opts` -/
def getOpts (opts : List Opt) (p : Preferences) : Except Halt Preferences :=
  opts.foldlM (Opt.apply host) p

/-! ### The main function -/

/-- `PACKAGE_VERSION` -/
def packageVersion : Bytes := bytes "0.8.9"

/-- `Preferences::open`: the name of the file, and the file if it can be opened.  Of the two names that
are tried in the user's home directory only the first one is ever opened. -/
def openPrefs (name : Bytes) : Bytes × Option Rcfile :=
  if name.length = 0 then
    match host.home with
    | some dir =>
      match host.rcfiles (dir ++ bytes "/.mailfilterrc") with
      | some file => (dir ++ bytes "/.mailfilterrc", some file)
      | none => (dir ++ bytes "/_mailfilterrc", none)
    | none => (name, none)
  else (name, host.rcfiles name)

/-- `Feedback::open` -/
def openLogFile (name : Bytes) : Bool := name.length ≠ 0 && host.openLog name

/-- The loop over the accounts, which keeps the return value. -/
def checkAccounts (conns : ℕ → Connection σ) (env : Env) : List Account → ℤ → Run σ ℤ
  | [], returnVal => pure returnVal
  | a :: accounts, returnVal => do
    log (printMsg (packageVersion ++ bytes " querying " ++ a.usr ++ bytes "@" ++ a.server ++
      bytes ".") 3)
    if (← a.check conns env) ≠ 0 then do
      log (printErr (bytes "Skipping account " ++ a.usr ++ bytes "@" ++ a.server ++
        bytes " due to earlier errors."))
      checkAccounts conns env accounts (-1)
    else checkAccounts conns env accounts returnVal

/-- `main`, once the preferences are loaded. -/
def work (conns : ℕ → Connection σ) (p : Preferences) : Run σ ℤ := do
  if !openLogFile host p.logFile then do
    log (errorMsg (if p.logFile.length ≠ 0 then
        bytes "Could not open log file '" ++ p.logFile ++ bytes "' for writing."
      else bytes "Could not locate log file."))
    pure (-1)
  else if !host.sigaction then
    throw (.exit (-1) (bytes "Signal handler could not be installed."))
  else do
    let (compErr, p, calls) := p.precompileExpressions host.regcomp
    calls.forM log
    if compErr ≠ 0 then pure (-1)
    else do
      let returnVal ← checkAccounts conns (host.env p) p.accounts 0
      if p.returnStatus then do
        let mailboxStatus ← Program.gets World.mailboxStatus
        pure mailboxStatus.toInt
      else pure returnVal

/-- `main`, for the options of the command line. -/
def main (conns : ℕ → Connection σ) (opts : List Opt) : Run σ ℤ := do
  modify fun w => { w with mailboxStatus := 0 }
  match getOpts host opts (Preferences.new host.sizeScore host.port) with
  | .error h => throw h
  | .ok p =>
    match openPrefs host p.rcFile with
    | (_, none) => do
      log (errorMsg (bytes "The rcfile could not be opened."))
      pure (-1)
    | (name, some file) =>
      match file.load host.wordexp { p with rcFile := name } with
      | .error h => throw h
      | .ok p => work host conns p

/-- The global objects when the program starts. -/
def World.new (net : σ) : World σ := ⟨⟨net, []⟩, Weeder.new, 0, ⟨0, false, []⟩, []⟩

end Mailfilter
