import Mailfilter.Flex.Buffers
import Mailfilter.Main

/-!
# The scanner of the rcfile

The rules of `rcfile.ll`, as flex reads them with the option `-i` (letters match in both cases).

* `Word`, the keywords, and `Token`, the tokens of `rcfile.yy` with their values;
* `RuleName`, the rules in the order of the description, with their start conditions, patterns and
  actions; `RuleName.rule`;
* `Event`: the tokens, and what the actions do to the global variables;
* `rcScanner`, `rcFiles`, the files behind `INCLUDE`, and `rclex`, all events of an rcfile.
-/

namespace Mailfilter.Rc

open Flex

/-! ### Tokens -/

/-- The keywords, apart from `INCLUDE`. -/
inductive Word
  | allow
  | allowCase
  | allowNocase
  | delDuplicates
  | deny
  | denyCase
  | denyNocase
  | highscore
  | logfile
  | maxlength
  | maxsizeAllow
  | maxsizeDeny
  | maxsizeScore
  | normal
  | server
  | user
  | pass
  | protocol
  | port
  | regCase
  | regType
  | showHeaders
  | score
  | scoreCase
  | scoreNocase
  | test
  | timeout
  | verbose
  deriving DecidableEq

/-- The keywords in the order of their rules. -/
def words : List Word :=
  [.allow, .allowCase, .allowNocase, .delDuplicates, .deny, .denyCase, .denyNocase, .highscore,
    .logfile, .maxlength, .maxsizeAllow, .maxsizeDeny, .maxsizeScore, .normal, .server, .user,
    .pass, .protocol, .port, .regCase, .regType, .showHeaders, .score, .scoreCase, .scoreNocase,
    .test, .timeout, .verbose]

theorem mem_words (w : Word) : w ∈ words := by
  cases w <;> decide

/-- The definitions of the keywords. -/
def Word.text : Word → Bytes
  | .allow => bytes "allow"
  | .allowCase => bytes "allow_case"
  | .allowNocase => bytes "allow_nocase"
  | .delDuplicates => bytes "del_duplicates"
  | .deny => bytes "deny"
  | .denyCase => bytes "deny_case"
  | .denyNocase => bytes "deny_nocase"
  | .highscore => bytes "highscore"
  | .logfile => bytes "logfile"
  | .maxlength => bytes "maxlength"
  | .maxsizeAllow => bytes "maxsize_allow"
  | .maxsizeDeny => bytes "maxsize_deny"
  | .maxsizeScore => bytes "maxsize_score"
  | .normal => bytes "normal"
  | .server => bytes "server"
  | .user => bytes "user"
  | .pass => bytes "pass"
  | .protocol => bytes "protocol"
  | .port => bytes "port"
  | .regCase => bytes "reg_case"
  | .regType => bytes "reg_type"
  | .showHeaders => bytes "show_headers"
  | .score => bytes "score"
  | .scoreCase => bytes "score_case"
  | .scoreNocase => bytes "score_nocase"
  | .test => bytes "test"
  | .timeout => bytes "timeout"
  | .verbose => bytes "verbose"

/-- A token with its value in the union `rc`. -/
inductive Token
  | word (w : Word) (sval : Text)
  | operator (operat : Operator)
  | quote
  | numId (ival : Int32)
  | shellCmd (sval : Text)
  | envVar (sval : Text)
  | yesNoId (sval : Text)
  | textId (sval : Text)
  | ctrlChar (sval : Text)
  deriving DecidableEq

/-! ### Start conditions and events -/

/-- The start conditions: `INITIAL`, the inclusive `CTRL`, `PARAM_NUM` and `PARAM_BOOL`, and the
exclusive `INCL` and `PARAM`. -/
inductive StartCondition
  | initial
  | ctrl
  | incl
  | param
  | paramNum
  | paramBool
  deriving DecidableEq

def StartCondition.inclusive : StartCondition → Bool
  | .incl => false
  | .param => false
  | _ => true

/-- Why scanner or parser end the program. -/
inductive Failure
  | tooDeep
  | notFound (yytext : Bytes)
  | notOpened (subFile : Bytes)
  /-- `wordexp` succeeds without a word: the first one is a null pointer. -/
  | noWord
  | lexical (yytext : Bytes)
  | syntaxError
  | shell (h : Halt)
  deriving DecidableEq

/-- What an action does: it returns a token, changes the global variables, or ends the program. -/
inductive Event
  | token (t : Token)
  | newline
  | beginInclude
  | opened (subFile : Bytes)
  | closed
  | failed (f : Failure)
  deriving DecidableEq

/-! ### Patterns -/

abbrev lf : UInt8 := 10

abbrev quotation : UInt8 := 34

abbrev apostrophe : UInt8 := 39

abbrev backquote : UInt8 := 96

/-- `[ \t]`, which is `[[:blank:]]` in the C locale. -/
def isblank (c : UInt8) : Bool := c = 32 || c = 9

def isgraph (c : UInt8) : Bool := 33 ≤ c && c ≤ 126

/-- A constant, in either case. -/
def anyCase : Bytes → Pattern UInt8
  | [] => .epsilon
  | c :: s => .seq (.cls fun d => toupper d = toupper c) (anyCase s)

def blanks : Pattern UInt8 := .star (.cls isblank)

/-- `.` -/
def dot : Pattern UInt8 := .cls fun c => c ≠ lf

/-! ### Rules -/

/-- The rules, by what they recognise. -/
inductive RuleName
  | includeWord
  | inclBlanks
  | inclName
  | rem
  | word (w : Word)
  | equal
  | notEqual
  | openingQuote
  | numId
  | shellCmd
  | envVar
  | yesNoId
  | textId
  | closingQuote
  | ctrlChar
  | blank
  | newline
  | anyChar
  deriving DecidableEq

/-- The order of the description. -/
def ruleNames : List RuleName :=
  [.includeWord, .inclBlanks, .inclName, .rem] ++ words.map .word ++
    [.equal, .notEqual, .openingQuote, .numId, .shellCmd, .envVar, .yesNoId, .textId,
      .closingQuote, .ctrlChar, .blank, .newline, .anyChar]

namespace RuleName

/-- The start conditions of a rule; a rule without one is active in the inclusive ones. -/
def active : RuleName → StartCondition → Bool
  | inclBlanks, k => k = .incl
  | inclName, k => k = .incl
  | numId, k => k = .paramNum
  | shellCmd, k => k = .param
  | envVar, k => k = .param
  | yesNoId, k => k = .paramBool
  | textId, k => k = .param
  | closingQuote, k => k = .param || k = .paramBool
  | ctrlChar, k => k = .param
  | blank, _ => true
  | newline, _ => true
  | anyChar, _ => true
  | _, k => k.inclusive

/-- The patterns, without the anchor of `REM` and with the `\n` that the `$` of the closing quotation
mark stands for. -/
def pattern : RuleName → Pattern UInt8
  | includeWord => .seq (anyCase (bytes "include")) (.seq blanks (.lit (chr '=')))
  | inclBlanks => blanks
  | inclName => .plus (.cls fun c => !isblank c && c ≠ lf)
  | rem => .seq blanks (.seq (.lit (chr '#')) (.star dot))
  | word w => anyCase w.text
  | equal => .lit (chr '=')
  | notEqual => .seq (.lit (chr '<')) (.lit (chr '>'))
  | openingQuote => .lit quotation
  | numId => .seq (.cls fun c => c = chr '+' || c = chr '-' || isdigit c) (.star (.cls isdigit))
  | shellCmd =>
    .seq (.lit backquote) (.seq (.plus (.cls fun c => isgraph c || isblank c)) (.lit apostrophe))
  | envVar => .seq (.lit (chr '$')) (.plus (.cls fun c => isalnum c || c = chr '_'))
  | yesNoId => .alt (anyCase (bytes "yes")) (anyCase (bytes "no"))
  | textId => .plus (.cls isalnum)
  | closingQuote => .seq (.lit quotation) (.seq blanks (.lit lf))
  | ctrlChar => dot
  | blank => .cls isblank
  | newline => .lit lf
  | anyChar => dot

end RuleName

/-- `strdup (yytext)`. No rule with a value matches a line end, see `textOf_val`. -/
def textOf (yytext : Bytes) : Text :=
  ⟨yytext.takeWhile fun c => c ≠ 10 && c ≠ 0, fun h => by simpa using List.mem_takeWhile_imp h,
    fun h => by simpa using List.mem_takeWhile_imp h⟩

/-- `BEGIN` in the action of a keyword. -/
def Word.begins : Word → Option StartCondition
  | .delDuplicates => some .paramBool
  | .highscore => some .paramNum
  | .maxlength => some .paramNum
  | .maxsizeAllow => some .paramNum
  | .maxsizeDeny => some .paramNum
  | .maxsizeScore => some .paramNum
  | .normal => some .paramBool
  | .port => some .paramNum
  | .regCase => some .paramBool
  | .score => some .paramNum
  | .scoreCase => some .paramNum
  | .scoreNocase => some .paramNum
  | .test => some .paramBool
  | .timeout => some .paramNum
  | .verbose => some .paramNum
  | _ => none

/-- An action that emits an event. -/
def emit (e : Event) : Option (Reaction Event UInt8) := some ⟨0, .emit e⟩

namespace RuleName

/-- The actions: what they do, and the next start condition. -/
def action (yytext : Bytes) (k : StartCondition) :
    RuleName → Option (Reaction Event UInt8) × StartCondition
  | includeWord => (emit .beginInclude, .incl)
  | inclBlanks => (none, k)
  | inclName => (some ⟨0, .enter yytext⟩, .initial)
  | rem => (none, k)
  | word w => (emit (.token (.word w (textOf yytext))), w.begins.getD k)
  | equal => (emit (.token (.operator .equal)), k)
  | notEqual => (emit (.token (.operator .notEqual)), k)
  | openingQuote => (emit (.token .quote), if k ≠ .paramBool then .param else k)
  | numId => (emit (.token (.numId (atoi (cstr yytext)))), k)
  | shellCmd => (emit (.token (.shellCmd (textOf yytext))), k)
  | envVar => (emit (.token (.envVar (textOf yytext))), k)
  | yesNoId => (emit (.token (.yesNoId (textOf yytext))), k)
  | textId => (emit (.token (.textId (textOf yytext))), k)
  -- the line end is the trailing context
  | closingQuote => (some ⟨1, .emit (.token .quote)⟩, k)
  | ctrlChar => (emit (.token (.ctrlChar (textOf yytext))), k)
  | blank => (none, k)
  | newline => (emit .newline, .initial)
  | anyChar => (some ⟨0, .stop (.failed (.lexical yytext))⟩, k)

def rule (n : RuleName) : Rule StartCondition (Reaction Event UInt8) UInt8 where
  active := n.active
  bol := n = rem
  pattern := n.pattern
  action yytext k := n.action yytext k

end RuleName

/-! ### The scanner -/

def rcScanner : BufferScanner StartCondition Event UInt8 where
  rules := ruleNames.map RuleName.rule
  newline := lf
  back_lt := by
    rintro r hr text htext hne k reaction hreaction
    obtain ⟨n, -, rfl⟩ := List.mem_map.1 hr
    have hpos := List.length_pos_iff.2 hne
    cases n <;> cases hreaction <;> try exact hpos
    obtain ⟨u, hu, v, hv, rfl⟩ := Pattern.mem_seq.1 htext
    obtain ⟨b, -, c, hc, rfl⟩ := Pattern.mem_seq.1 hv
    rw [Pattern.mem_lit.1 hu, Pattern.mem_lit.1 hc]
    simp

/-- `MAX_INCLUDE_DEPTH` -/
def maxIncludeDepth : ℕ := 1

/-- The files behind `INCLUDE`: the name goes through `wordexp`, and the first word is the file. -/
def rcFiles (wordexp : Bytes → Option (List Bytes)) (files : Bytes → Option Bytes) :
    BufferScanner.Files Event UInt8 where
  tooDeep := .failed .tooDeep
  opened yytext :=
    match wordexp (cstr yytext) with
    | none => .error (.failed (.notFound yytext))
    | some [] => .error (.failed .noWord)
    | some (subFile :: _) =>
      match files subFile with
      | none => .error (.failed (.notOpened subFile))
      | some text => .ok (.opened subFile, text)
  closed := .closed

/-- `rclex`, called until it returns the end of the rcfile. -/
def rclex (wordexp : Bytes → Option (List Bytes)) (files : Bytes → Option Bytes) (text : Bytes) :
    List Event :=
  (rcScanner.scan (rcScanner.nested (rcFiles wordexp files) maxIncludeDepth) .initial true text).1

end Mailfilter.Rc
