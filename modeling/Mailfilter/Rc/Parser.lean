import Mailfilter.Rc.Scanner

/-!
# The parser of the rcfile

The grammar `rcfile.yy` with its actions, and `exec_shell` (`mailfilter.cc`).

* `Form`, the shape of the commands with a keyword, and `Word.command`, the call that the action makes;
* `stripShell` and `execShell`, for arguments in backquotes;
* `ParserState` and `ParserState.step`, the parser that bison makes of the grammar;
* `Globals` and `Failure.halt`, the text of the errors;
* `rcparse`, from events to commands, and `readRcfile`, from the text of the rcfile.
-/

namespace Mailfilter.Rc

open Flex

/-! ### Commands -/

/-- The argument of a command: `str_arg`, `yes_no_arg` or `num_arg`. -/
inductive ArgumentKind
  | str
  | yesNo
  | num
  deriving DecidableEq

/-- The shape of a command: `num_arg` before the operator, `NOT_EQUAL` as the operator, and the
argument behind it. -/
structure Form where
  scored : Bool
  notEqual : Bool
  argument : ArgumentKind

/-- The rules of the grammar for a keyword. -/
def Word.form : Word → Form
  | .allow => ⟨false, true, .str⟩
  | .allowCase => ⟨false, true, .str⟩
  | .allowNocase => ⟨false, true, .str⟩
  | .delDuplicates => ⟨false, false, .yesNo⟩
  | .deny => ⟨false, true, .str⟩
  | .denyCase => ⟨false, true, .str⟩
  | .denyNocase => ⟨false, true, .str⟩
  | .highscore => ⟨false, false, .num⟩
  | .logfile => ⟨false, false, .str⟩
  | .maxlength => ⟨false, false, .num⟩
  | .maxsizeAllow => ⟨false, false, .num⟩
  | .maxsizeDeny => ⟨false, false, .num⟩
  | .maxsizeScore => ⟨true, false, .num⟩
  | .normal => ⟨false, false, .yesNo⟩
  | .server => ⟨false, false, .str⟩
  | .user => ⟨false, false, .str⟩
  | .pass => ⟨false, false, .str⟩
  | .protocol => ⟨false, false, .str⟩
  | .port => ⟨false, false, .num⟩
  | .regCase => ⟨false, false, .yesNo⟩
  | .regType => ⟨false, false, .str⟩
  | .showHeaders => ⟨false, false, .str⟩
  | .score => ⟨true, true, .str⟩
  | .scoreCase => ⟨true, true, .str⟩
  | .scoreNocase => ⟨true, true, .str⟩
  | .test => ⟨false, false, .yesNo⟩
  | .timeout => ⟨false, false, .num⟩
  | .verbose => ⟨false, false, .num⟩

/-- A command up to its argument. -/
structure Opening where
  word : Word
  sval : Text
  score : Int32
  operat : Operator
  deriving DecidableEq

/-- What the action of the command calls, given the value of its argument. -/
def Opening.command (o : Opening) (sval : Text) (ival : Int32) : Command :=
  match o.word with
  | .allow => .allowRule o.sval o.operat sval
  | .allowCase => .allowRule o.sval o.operat sval
  | .allowNocase => .allowRule o.sval o.operat sval
  | .delDuplicates => .delDuplicates sval
  | .deny => .denyRule o.sval o.operat sval
  | .denyCase => .denyRule o.sval o.operat sval
  | .denyNocase => .denyRule o.sval o.operat sval
  | .highscore => .highscore ival
  | .logfile => .logfile sval
  | .maxlength => .maxlength ival
  | .maxsizeAllow => .maxsizeAllow ival
  | .maxsizeDeny => .maxsizeDeny ival
  | .maxsizeScore => .maxsizeScore o.score ival
  | .normal => .normal sval
  | .server => .server sval
  | .user => .user sval
  | .pass => .pass sval
  | .protocol => .protocol sval
  | .port => .port ival
  | .regCase => .regCase sval
  | .regType => .regType sval
  | .showHeaders => .showHeaders sval
  | .score => .score o.sval o.score o.operat sval
  | .scoreCase => .score o.sval o.score o.operat sval
  | .scoreNocase => .score o.sval o.score o.operat sval
  | .test => .test sval
  | .timeout => .timeout ival
  | .verbose => .verbose ival

/-! ### Arguments in backquotes -/

/-- A process of `popen`: what it writes, and whether `pclose` succeeds. -/
structure Process where
  output : Bytes
  pclose : Bool

/-- `strip_shell`: the text without its first and last character. -/
def stripShell (s : Text) : Bytes := s.val.tail.dropLast

/-- `exec_shell`: the first line that the command writes. -/
def execShell (popen : Bytes → Option Process) (command : Bytes) : Except Halt Text :=
  match popen command with
  | none => .ok ⟨[], by simp⟩
  | some process =>
    if process.output = [] then .error (.exit (-1) (bytes "popen failed."))
    else
      let curString := cstr (fgets process.output)
      if curString = [] then .error .undefined
      else if curString.getLast? ≠ some lf then .error (.exit (-1) (bytes "popen failed."))
      else if !process.pclose then .error (.exit (-1) (bytes "pclose failed."))
      else .ok (textOf curString)
where
  /-- `fgets` with a buffer of 256 bytes: up to the first line end, which is included. -/
  fgets (output : Bytes) : Bytes :=
    let buf := output.take 255
    let line := buf.takeWhile (· ≠ lf)
    buf.take (line.length + 1)

/-! ### The parser -/

/-- `strcat` -/
def catText (t t' : Text) : Text :=
  ⟨t.val ++ t'.val,
    fun h => (List.mem_append.1 h).elim t.property.1 t'.property.1,
    fun h => (List.mem_append.1 h).elim t.property.2 t'.property.2⟩

/-- What is on the stack behind `commands`: a command as far as it has been read. -/
inductive ParserState
  | commands
  | word (w : Word) (sval : Text)
  | scored (w : Word) (sval : Text) (score : Int32)
  | operator (o : Opening)
  | quote (o : Opening)
  | exps (o : Opening) (sval : Text)
  | yesNo (o : Opening) (sval : Text)
  deriving DecidableEq

section Parser

variable (popen : Bytes → Option Process)

/-- `exp` -/
def exp : Token → Except Failure Text
  | .shellCmd sval =>
    match execShell popen (stripShell sval) with
    | .ok t => .ok t
    | .error h => .error (.shell h)
  | .envVar sval => .ok sval
  | .textId sval => .ok sval
  | .ctrlChar sval => .ok sval
  | _ => .error .syntaxError

/-- Shift a token, with the reductions that need no look at the next one. Behind its argument a
command is complete, and its action is executed. -/
def ParserState.step : ParserState → Token → Except Failure (ParserState × Option Command)
  | .commands, .word w sval => .ok (.word w sval, none)
  | .word w sval, .numId n =>
    if w.form.scored then .ok (.scored w sval n, none) else .error .syntaxError
  | .word w sval, .operator operat =>
    if !w.form.scored && (operat = .equal || w.form.notEqual) then
      .ok (.operator ⟨w, sval, 0, operat⟩, none)
    else .error .syntaxError
  | .scored w sval score, .operator operat =>
    if operat = .equal || w.form.notEqual then .ok (.operator ⟨w, sval, score, operat⟩, none)
    else .error .syntaxError
  | .operator o, .quote =>
    if o.word.form.argument = .num then .error .syntaxError else .ok (.quote o, none)
  | .operator o, .numId n =>
    if o.word.form.argument = .num then .ok (.commands, some (o.command (textOf []) n))
    else .error .syntaxError
  | .quote o, token =>
    match o.word.form.argument, token with
    | .yesNo, .yesNoId sval => .ok (.yesNo o sval, none)
    | .str, token => (exp popen token).map fun sval => (.exps o sval, none)
    | _, _ => .error .syntaxError
  | .exps o sval, .quote => .ok (.commands, some (o.command sval 0))
  | .exps o sval, token => (exp popen token).map fun sval' => (.exps o (catText sval sval'), none)
  | .yesNo o sval, .quote => .ok (.commands, some (o.command sval 0))
  | _, _ => .error .syntaxError

/-- The global variables of scanner and parser. -/
structure Globals where
  numLines : ℕ
  tempNumLines : ℕ
  subFile : Bytes

/-- The assignments to them. -/
def Globals.after (g : Globals) : Event → Globals
  | .token _ => g
  | .newline => { g with numLines := g.numLines + 1 }
  | .beginInclude => { g with numLines := 0, tempNumLines := g.numLines }
  | .opened subFile => { g with subFile := subFile }
  | .closed => { g with numLines := g.tempNumLines, subFile := [] }
  | .failed _ => g

/-- How the program ends, with what is written behind its name to `cerr`. The message of the parser
is printed as a pointer, which is null. -/
def Failure.halt (g : Globals) : Failure → Halt
  | .tooDeep => .exit (-1) (bytes "Error: Files nested too deep.")
  | .notFound yytext =>
    .exit (-1) (bytes "Error: Nested rcfile '" ++ cstr yytext ++ bytes "' could not be found.")
  | .notOpened subFile =>
    .exit (-1) (bytes "Error: Nested rcfile '" ++ subFile ++ bytes "' could not be opened.")
  | .noWord => .undefined
  | .lexical yytext =>
    let place :=
      if g.subFile ≠ [] then bytes " of your rcfile '" ++ g.subFile ++ bytes "'."
      else bytes " of your main rcfile."
    .exit (-1) (bytes "Error: Lexicographical error in line " ++ intToString (g.numLines + 1) ++
      place ++ [lf] ++ bytes "mailfilter: The term '" ++ cstr yytext ++
      bytes "' could not be interpreted.")
  | .syntaxError =>
    let place := if g.subFile ≠ [] then bytes " in file " ++ g.subFile else bytes " in main rcfile"
    .exit (-1) (bytes "Error: 0" ++ place ++ bytes " in line " ++ intToString (g.numLines + 1) ++
      bytes ".")
  | .shell h => h

/-- `rcparse`: the commands, each called as soon as it is complete, and the error, if there is one. -/
def rcparse : ParserState → Globals → List Event → Rcfile
  | .commands, _, [] => ⟨[], none⟩
  | _, g, [] => ⟨[], some (Failure.syntaxError.halt g)⟩
  | st, g, .token t :: events =>
    match st.step popen t with
    | .error f => ⟨[], some (f.halt g)⟩
    | .ok (st', command) =>
      let rest := rcparse st' g events
      ⟨command.toList ++ rest.commands, rest.error⟩
  | _, g, .failed f :: _ => ⟨[], some (f.halt g)⟩
  | st, g, e :: events => rcparse st (g.after e) events

section Steps

variable {popen} {st : ParserState} {g : Globals} {t : Token} {f : Failure} {events : List Event}

theorem rcparse_token : rcparse popen st g (.token t :: events) =
    match st.step popen t with
    | .error f => ⟨[], some (f.halt g)⟩
    | .ok (st', command) => ⟨command.toList ++ (rcparse popen st' g events).commands,
        (rcparse popen st' g events).error⟩ := by
  cases st <;> rfl

theorem rcparse_newline :
    rcparse popen st g (.newline :: events) = rcparse popen st (g.after .newline) events := by
  cases st <;> rfl

theorem rcparse_failed :
    rcparse popen st g (.failed f :: events) = ⟨[], some (f.halt g)⟩ := by
  cases st <;> rfl

end Steps

/-- `RCParser::parse`, on the text of an rcfile. -/
def readRcfile (wordexp : Bytes → Option (List Bytes)) (files : Bytes → Option Bytes)
    (text : Bytes) : Rcfile :=
  rcparse popen .commands ⟨0, 0, []⟩ (rclex wordexp files text)

end Parser

end Mailfilter.Rc
