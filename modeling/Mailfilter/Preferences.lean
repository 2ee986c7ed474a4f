import Mailfilter.Feedback

/-!
# The preferences

The settings, the filters and the accounts that the rcfile defines (`preferences.cc`,
`filter.cc`, `score.cc` and the data of `account.cc`).

* `Filter`, `Score`, `Account`, `Preferences`, with the member functions of the source;
* `precompileExpressions` (`mailfilter.cc`);
* `Preferences.Built`: the preferences whose rule lists were made by `addAllowRule`,
  `addDenyRule` and `addScore`, whatever the other settings, and `Built.counted`: their counters
  of negative rules are right.

`regcomp` and `wordexp` are functions of the C library; they are parameters.
-/

namespace Mailfilter

/-! ### Filters -/

/-- `REG_EXTENDED` -/
def regExtended : ℕ := 1

/-- `REG_ICASE` -/
def regIcase : ℕ := 2

def caseDefault : ℕ := regIcase

def caseSensitive : ℕ := 0

def caseInsensitive : ℕ := regIcase

/-- A compiled expression: what was compiled, and with which flags. -/
structure Regex where
  expression : Bytes
  cflags : ℕ
  deriving DecidableEq

/-- A filter rule. `compExp` is `none` until the filter is compiled. -/
structure Filter where
  expression : Bytes
  compExp : Option Regex
  ccase : ℕ
  isNegative : Bool
  deriving DecidableEq

/-- A filter rule with a score. -/
structure Score extends Filter where
  score : Int32
  deriving DecidableEq

/-- A score attached to a size limit. -/
structure SizeScore where
  score : Int32
  size : Int32
  deriving DecidableEq

/-- `Filter::compile`: compile the expression; the result is the error code of `regcomp`. -/
def Filter.compile (regcomp : Bytes → ℕ → ℤ) (regType : ℕ) (f : Filter) : ℤ × Filter :=
  let cflags := regType ||| f.ccase
  let compErr := regcomp f.expression cflags
  if compErr ≠ 0 then (compErr, f)
  else (compErr, { f with compExp := some ⟨f.expression, cflags⟩ })

/-- `compile` of a `Score`, which it inherits. -/
def Score.compile (regcomp : Bytes → ℕ → ℤ) (regType : ℕ) (s : Score) : ℤ × Score :=
  let (compErr, f) := s.toFilter.compile regcomp regType
  (compErr, { s with toFilter := f })

/-! ### Accounts -/

def protocolPop3 : ℕ := 2

def protocolApop : ℕ := 4

def sslC : ℕ := 4096

/-- The classes that implement `Protocol`. -/
inductive ProtocolClass
  | pop3
  | apop
  deriving DecidableEq

/-- A protocol object.  A connection is known by the number of its `Socket` object. -/
structure Protocol where
  cls : ProtocolClass
  ident : ℕ
  conn : Option ℕ
  deriving DecidableEq

/-- An account. `none` stands for a pointer that was never assigned. -/
structure Account where
  server : Bytes
  usr : Bytes
  passwd : Bytes
  port : ℤ
  proto : Option Protocol
  conn : Option ℕ
  deriving DecidableEq

/-- `Account::set_protocol` -/
def Account.setProtocol (a : Account) (prot : ℕ) : Account :=
  let proto : Protocol :=
    if prot = protocolApop then ⟨.apop, protocolApop, none⟩
    else if prot = protocolApop ||| sslC then ⟨.apop, protocolApop ||| sslC, none⟩
    else if prot = protocolPop3 ||| sslC then ⟨.pop3, protocolPop3 ||| sslC, none⟩
    else ⟨.pop3, protocolPop3, none⟩
  { a with proto := some proto }

/-- `Account::set_connection`: a new `Socket`, passed on to the protocol object. -/
def Account.setConnection (a : Account) (sock : ℕ) : Account :=
  { a with conn := some sock, proto := a.proto.map fun p => { p with conn := some sock } }

/-! ### The preferences object -/

/-- The settings.  The source counts the negative rules of each kind in an `int`; a natural number is
exact below 2^31 of them. -/
structure Preferences where
  allowFilters : List Filter
  denyFilters : List Filter
  scoreFilters : List Score
  accounts : List Account
  curAccount : Account
  /-- The number of `Socket` objects made so far. -/
  sockets : ℕ
  rcFile : Bytes
  logFile : Bytes
  headersFile : Bytes
  defaultCase : ℕ
  normal : Bool
  testMode : Bool
  deleteDuplicates : Bool
  returnStatus : Bool
  ignoreTimeStamp : Bool
  skipSslVerify : Bool
  highscore : Int32
  timeOut : Int32
  maxSizeDeny : Int32
  maxSizeScore : SizeScore
  maxSizeAllow : Int32
  maxlength : Int32
  regType : ℕ
  verboseLevel : Int32
  negAllows : ℕ
  negDenies : ℕ
  negScores : ℕ
  verbosityChanged : Bool
  testChanged : Bool

/-- The constructor. The constructor leaves `size_score` and `cur_account.the_port` as the
memory of the object had them. -/
def Preferences.new (sizeScore : SizeScore) (port : ℤ) : Preferences where
  allowFilters := []
  denyFilters := []
  scoreFilters := []
  accounts := []
  curAccount := ⟨[], [], [], port, none, none⟩
  sockets := 0
  rcFile := []
  logFile := []
  headersFile := []
  defaultCase := caseDefault
  normal := false
  testMode := false
  deleteDuplicates := false
  returnStatus := false
  ignoreTimeStamp := false
  skipSslVerify := false
  highscore := 100
  timeOut := 30
  maxSizeDeny := 0
  maxSizeScore := sizeScore
  maxSizeAllow := 0
  maxlength := 0
  regType := 0
  verboseLevel := 3
  negAllows := 0
  negDenies := 0
  negScores := 0
  verbosityChanged := false
  testChanged := false

namespace Preferences

variable (p : Preferences)

/-- The case flag that the keyword of a rule asks for: that of `X_CASE`, of `X_NOCASE`, or the
default. -/
def ruleCase (keyword caseWord nocaseWord : Bytes) : ℕ :=
  if cmpNoCase keyword caseWord = 0 then caseSensitive
  else if cmpNoCase keyword nocaseWord = 0 then caseInsensitive
  else p.defaultCase

/-- The operators are `=` and `<>`; everything but `=` makes a rule negative. -/
def negativity (operat : Bytes) : Bool := operat ≠ bytes "="

def addDenyRule (keyword operat id : Bytes) : Preferences :=
  { p with
    negDenies := if negativity operat then p.negDenies + 1 else p.negDenies
    denyFilters := p.denyFilters ++
      [⟨id, none, p.ruleCase keyword (bytes "deny_case") (bytes "deny_nocase"),
        negativity operat⟩] }

def addAllowRule (keyword operat id : Bytes) : Preferences :=
  { p with
    negAllows := if negativity operat then p.negAllows + 1 else p.negAllows
    allowFilters := p.allowFilters ++
      [⟨id, none, p.ruleCase keyword (bytes "allow_case") (bytes "allow_nocase"),
        negativity operat⟩] }

def addScore (keyword : Bytes) (givenScore : Int32) (operat id : Bytes) : Preferences :=
  { p with
    negScores := if negativity operat then p.negScores + 1 else p.negScores
    scoreFilters := p.scoreFilters ++
      [{ expression := id
         compExp := none
         ccase := p.ruleCase keyword (bytes "score_case") (bytes "score_nocase")
         isNegative := negativity operat
         score := givenScore }] }

/-- The value of a `yes`/`no` argument. -/
def isYes (par : Bytes) : Bool := cmpNoCase par (bytes "yes") = 0

def setHeadersFile (wordexp : Bytes → Option (List Bytes)) (name : Bytes) :
    Except Halt Preferences :=
  match wordexp name with
  | some (word :: _) => .ok { p with headersFile := word }
  | _ => .error (.exit (-1) (bytes "Invalid headers store-file name: \x60" ++ name ++ bytes "'."))

/-- Only expand the name if none was already specified, e.g. on the command line. -/
def setLogFile (wordexp : Bytes → Option (List Bytes)) (name : Bytes) : Except Halt Preferences :=
  if p.logFile.length = 0 then
    match wordexp name with
    | some (word :: _) => .ok { p with logFile := word }
    | _ => .error (.exit (-1) (bytes "Invalid logfile name: \x60" ++ name ++ bytes "'."))
  else .ok p

def setRcFile (name : Bytes) : Preferences := { p with rcFile := name }

def setVerboseLevel (level : Int32) : Preferences :=
  if !p.verbosityChanged then { p with verboseLevel := level, verbosityChanged := true } else p

def setDefaultCase (newCase : Bytes) : Preferences :=
  { p with defaultCase := if isYes newCase then 0 else regIcase }

def setRegType (newType : Bytes) : Except Halt Preferences :=
  if cmpNoCase newType (bytes "extended") = 0 then .ok { p with regType := regExtended }
  else if cmpNoCase newType (bytes "basic") = 0 then .ok { p with regType := 0 }
  else .error (.exit (-1)
    (bytes "Regular expressions must either be of type 'extended', or 'basic'."))

def setServer (server : Bytes) : Preferences :=
  { p with curAccount := { p.curAccount with server := server } }

def setUsr (user : Bytes) : Preferences :=
  { p with curAccount := { p.curAccount with usr := user } }

def setPasswd (pass : Bytes) : Preferences :=
  { p with curAccount := { p.curAccount with passwd := pass } }

/-- The names of the protocols; those with SSL are known in a build that uses OpenSSL. -/
def setProtocol (prot : Bytes) : Except Halt Preferences :=
  if cmpNoCase prot (bytes "POP3") = 0 then
    .ok { p with curAccount := p.curAccount.setProtocol protocolPop3 }
  else if cmpNoCase prot (bytes "APOP") = 0 then
    .ok { p with curAccount := p.curAccount.setProtocol protocolApop }
  else if cmpNoCase prot (bytes "POP3/SSL") = 0 then
    .ok { p with curAccount := p.curAccount.setProtocol (protocolPop3 ||| sslC) }
  else if cmpNoCase prot (bytes "APOP/SSL") = 0 then
    .ok { p with curAccount := p.curAccount.setProtocol (protocolApop ||| sslC) }
  else .error (.exit (-1)
    (bytes "Only supported protocols are POP3 and APOP (SSL only if OpenSSL is available)."))

def setConnection : Preferences :=
  { p with curAccount := p.curAccount.setConnection p.sockets, sockets := p.sockets + 1 }

/-- Port is the last instruction in the server-defining block from the rcfile, hence the current
account is stored. -/
def setPort (port : ℤ) : Preferences :=
  { p with
    curAccount := { p.curAccount with port := port }
    accounts := p.accounts ++ [{ p.curAccount with port := port }] }

def setDelDuplicates (del : Bytes) : Preferences := { p with deleteDuplicates := isYes del }

def setTimeOut (val : Int32) : Preferences := { p with timeOut := val }

def setMaxSizeAllow (val : Int32) : Preferences := { p with maxSizeAllow := val }

def setMaxSizeDeny (val : Int32) : Preferences := { p with maxSizeDeny := val }

def setMaxSizeScore (score size : Int32) : Preferences := { p with maxSizeScore := ⟨score, size⟩ }

def setHighscore (val : Int32) : Preferences := { p with highscore := val }

def setNormal (par : Bytes) : Preferences := { p with normal := isYes par }

def setTestMode (par : Bytes) : Preferences :=
  if !p.testChanged then { p with testMode := isYes par, testChanged := true } else p

def setMaxlength (val : Int32) : Preferences := { p with maxlength := val }

def setReturnStatus (st : Bool) : Preferences := { p with returnStatus := st }

def setIgnoreTimeStamp (ts : Bool) : Preferences := { p with ignoreTimeStamp := ts }

def setSkipSslVerify (skip : Bool) : Preferences := { p with skipSslVerify := skip }

/-! ### Compiling the rules -/

/-- The loop of `precompile_expressions` over one list of rules: stop at the first error. -/
def compileAll {α : Type} (compile : α → ℤ × α) : List α → ℤ × List α
  | [] => (0, [])
  | f :: fs =>
    let head := compile f
    if head.1 ≠ 0 then (head.1, head.2 :: fs)
    else
      let tail := compileAll compile fs
      (tail.1, head.2 :: tail.2)

/-- `precompile_expressions`, which returns a value different to 0 upon error. -/
def precompileExpressions (regcomp : Bytes → ℕ → ℤ) : ℤ × Preferences × List LogCall :=
  let allows := compileAll (Filter.compile regcomp p.regType) p.allowFilters
  let denies := compileAll (Filter.compile regcomp p.regType) p.denyFilters
  let scores := compileAll (Score.compile regcomp p.regType) p.scoreFilters
  let p₁ := { p with allowFilters := allows.2 }
  let p₂ := { p₁ with denyFilters := denies.2 }
  let p₃ := { p₂ with scoreFilters := scores.2 }
  if allows.1 ≠ 0 then
    (allows.1, p₁, [errorMsg (bytes "Could not compile regular expression (allow).")])
  else if denies.1 ≠ 0 then
    (denies.1, p₂, [errorMsg (bytes "Could not compile regular expression (deny).")])
  else if scores.1 ≠ 0 then
    (scores.1, p₃, [errorMsg (bytes "Could not compile regular expression (score).")])
  else (0, p₃, [])

/-! ### Rules that compile -/

section Compiled

variable {p}

/-- Compiling without an error compiles every rule. -/
theorem compileAll_eq_map {α : Type} {compile : α → ℤ × α} {fs : List α}
    (hok : (compileAll compile fs).1 = 0) :
    (compileAll compile fs).2 = fs.map fun f => (compile f).2 := by
  induction fs with
  | nil => rfl
  | cons f fs ih =>
    rw [compileAll] at hok ⊢
    by_cases hf : (compile f).1 = 0
    · simp only [hf, ne_eq, not_true_eq_false, if_false] at hok ⊢
      rw [ih hok, List.map_cons]
    · simp only [hf, ne_eq, not_false_eq_true, if_true] at hok

/-- The rules before the last one were compiled without an error, if all of them were. -/
theorem compileAll_append {α : Type} {compile : α → ℤ × α} {fs gs : List α}
    (hok : (compileAll compile (fs ++ gs)).1 = 0) : (compileAll compile fs).1 = 0 := by
  induction fs with
  | nil => rfl
  | cons f fs ih =>
    rw [List.cons_append, compileAll] at hok
    rw [compileAll]
    by_cases hf : (compile f).1 = 0
    · simp only [hf, ne_eq, not_true_eq_false, if_false] at hok ⊢
      exact ih hok
    · simp only [hf, ne_eq, not_false_eq_true, if_true] at hok

/-- The preferences with all rules compiled. -/
def compiledRules (regcomp : Bytes → ℕ → ℤ) (p : Preferences) : Preferences :=
  { p with
    allowFilters := p.allowFilters.map fun f => (f.compile regcomp p.regType).2
    denyFilters := p.denyFilters.map fun f => (f.compile regcomp p.regType).2
    scoreFilters := p.scoreFilters.map fun f => (f.compile regcomp p.regType).2 }

theorem precompileExpressions_eq_zero_iff {regcomp : Bytes → ℕ → ℤ} :
    (p.precompileExpressions regcomp).1 = 0 ↔
      (compileAll (Filter.compile regcomp p.regType) p.allowFilters).1 = 0 ∧
      (compileAll (Filter.compile regcomp p.regType) p.denyFilters).1 = 0 ∧
      (compileAll (Score.compile regcomp p.regType) p.scoreFilters).1 = 0 := by
  unfold precompileExpressions
  simp only
  split_ifs with h₁ h₂ h₃
  · exact iff_of_false h₁ fun h => h₁ h.1
  · exact iff_of_false h₂ fun h => h₂ h.2.1
  · exact iff_of_false h₃ fun h => h₃ h.2.2
  · exact iff_of_true rfl ⟨not_not.1 h₁, not_not.1 h₂, not_not.1 h₃⟩

/-- Without an error, every rule was compiled, and nothing is printed. -/
theorem precompileExpressions_ok {regcomp : Bytes → ℕ → ℤ}
    (hok : (p.precompileExpressions regcomp).1 = 0) :
    p.precompileExpressions regcomp = (0, p.compiledRules regcomp, []) := by
  obtain ⟨h₁, h₂, h₃⟩ := precompileExpressions_eq_zero_iff.1 hok
  unfold precompileExpressions compiledRules
  simp only [h₁, h₂, h₃, ne_eq, not_true_eq_false, if_false, compileAll_eq_map h₁,
    compileAll_eq_map h₂, compileAll_eq_map h₃]

end Compiled

/-! ### Rule lists and their counters -/

/-- The preferences whose rules were added by `addAllowRule`, `addDenyRule` and `addScore`, and
perhaps compiled. Every setting that is not a rule list or a counter is arbitrary, and may change
in between. -/
inductive Built : Preferences → Prop
  | empty {p : Preferences} (hallow : p.allowFilters = []) (hdeny : p.denyFilters = [])
      (hscore : p.scoreFilters = []) (hna : p.negAllows = 0) (hnd : p.negDenies = 0) : Built p
  | allow {p : Preferences} (h : Built p) (keyword operat id : Bytes) :
      Built (p.addAllowRule keyword operat id)
  | deny {p : Preferences} (h : Built p) (keyword operat id : Bytes) :
      Built (p.addDenyRule keyword operat id)
  | score {p : Preferences} (h : Built p) (keyword : Bytes) (givenScore : Int32)
      (operat id : Bytes) : Built (p.addScore keyword givenScore operat id)
  | setting {p q : Preferences} (h : Built p) (hallow : q.allowFilters = p.allowFilters)
      (hdeny : q.denyFilters = p.denyFilters) (hscore : q.scoreFilters = p.scoreFilters)
      (hna : q.negAllows = p.negAllows) (hnd : q.negDenies = p.negDenies) : Built q
  | compiled {p : Preferences} (h : Built p) (regcomp : Bytes → ℕ → ℤ) :
      Built (p.precompileExpressions regcomp).2.1

/-- The counters of negative rules agree with the lists. -/
structure Counted : Prop where
  allows : p.negAllows = p.allowFilters.countP (·.isNegative)
  denies : p.negDenies = p.denyFilters.countP (·.isNegative)

variable {p}

theorem compile_isNegative (regcomp : Bytes → ℕ → ℤ) (regType : ℕ) (f : Filter) :
    (f.compile regcomp regType).2.isNegative = f.isNegative := by
  unfold Filter.compile
  simp only
  split_ifs <;> rfl

/-- Compiling changes neither the number nor the kinds of the rules. -/
theorem countP_compileAll {α : Type} {compile : α → ℤ × α} {neg : α → Bool}
    (h : ∀ f, neg (compile f).2 = neg f) (fs : List α) :
    (compileAll compile fs).2.countP neg = fs.countP neg := by
  induction fs with
  | nil => rfl
  | cons f fs ih =>
    simp only [compileAll]
    split_ifs
    · simp [List.countP_cons, h]
    · simp [List.countP_cons, h, ih]

theorem Counted.compiled (h : p.Counted) (regcomp : Bytes → ℕ → ℤ) :
    (p.precompileExpressions regcomp).2.1.Counted := by
  have hneg := fun fs => countP_compileAll (compile_isNegative regcomp p.regType) fs
  unfold precompileExpressions
  simp only
  split_ifs <;> exact ⟨by simp only [hneg, h.allows], by simp only [hneg, h.denies]⟩

theorem Built.counted (h : p.Built) : p.Counted := by
  induction h with
  | empty hallow hdeny hscore hna hnd => exact ⟨by rw [hallow, hna]; rfl, by rw [hdeny, hnd]; rfl⟩
  | allow h keyword operat id ih =>
    refine ⟨?_, ih.denies⟩
    cases hn : negativity operat <;> simp [addAllowRule, hn, ih.allows]
  | deny h keyword operat id ih =>
    refine ⟨ih.allows, ?_⟩
    cases hn : negativity operat <;> simp [addDenyRule, hn, ih.denies]
  | score h keyword givenScore operat id ih => exact ⟨ih.allows, ih.denies⟩
  | setting h hallow hdeny hscore hna hnd ih =>
    exact ⟨by rw [hna, hallow, ih.allows], by rw [hnd, hdeny, ih.denies]⟩
  | compiled h regcomp ih => exact ih.compiled regcomp

theorem Counted.negAllows_pos (h : p.Counted) :
    0 < p.negAllows ↔ ∃ f ∈ p.allowFilters, f.isNegative = true := by
  rw [h.allows, List.countP_pos_iff]

theorem Counted.negDenies_pos (h : p.Counted) :
    0 < p.negDenies ↔ ∃ f ∈ p.denyFilters, f.isNegative = true := by
  rw [h.denies, List.countP_pos_iff]

end Preferences

end Mailfilter
