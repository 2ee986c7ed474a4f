import Mailfilter.Exchange
import Mailfilter.Main

/-!
# The command line

The function `getopt_long` (`getopt.c`, `getopt1.c`), with the option characters and the table of
`mailfilter.cc`, and the loop of `get_opts` around it.

* `State`, the static variables of `getopt.c`, and the elements of `argv`, which are permuted;
* `getoptLong`: `advance` goes to the next element, `longOption` and `shortOption` decode it;
* `Opt.ofReturn`, the cases of `get_opts`, and `getOptsFrom`, its loop.

The branches for a first character `-`, `+` or `:` of the option string, for options with an optional
argument and for `-W` cannot be reached with this option string.
-/

namespace Mailfilter.Getopt

/-! ### The options of the program -/

/-- The option characters; one that takes an argument is followed by a colon. -/
def optstring : Bytes := bytes "hL:M:Vv:tirs"

/-- `struct option`; none of the options has a flag. -/
structure LongOption where
  name : Bytes
  hasArg : Bool
  val : ℤ
  deriving DecidableEq

def valueHelp : ℤ := 1

def valueVerbose : ℤ := 2

def valueMailfilterrc : ℤ := 3

def valueLogfile : ℤ := 4

def valueVersion : ℤ := 5

def valueTest : ℤ := 6

def valueReturn : ℤ := 7

def valueTimestamp : ℤ := 8

def valueSkipSslVerify : ℤ := 9

/-- `long_options` -/
def longOptions : List LongOption :=
  [⟨bytes "help", false, valueHelp⟩, ⟨bytes "verbose", true, valueVerbose⟩,
    ⟨bytes "mailfilterrc", true, valueMailfilterrc⟩, ⟨bytes "logfile", true, valueLogfile⟩,
    ⟨bytes "ignore-time-stamps", false, valueTimestamp⟩, ⟨bytes "version", false, valueVersion⟩,
    ⟨bytes "test", false, valueTest⟩, ⟨bytes "return-value", false, valueReturn⟩,
    ⟨bytes "skip-ssl-verify", false, valueSkipSslVerify⟩]

/-! ### The elements of `argv` -/

/-- The variables that the calls share, and what was printed.  A null pointer `nextchar` is treated
like an empty string. -/
structure State where
  argv : List Bytes
  optind : ℕ
  firstNonopt : ℕ
  lastNonopt : ℕ
  nextchar : Bytes
  optarg : Option Bytes
  stderr : List Bytes
  deriving DecidableEq

/-- The first call: element 0 is the name of the program. -/
def State.init (argv : List Bytes) : State := ⟨argv, 1, 1, 1, [], none, []⟩

/-- `NONOPTION_P` -/
def isNonoption (arg : Bytes) : Bool := arg[0]? ≠ some (chr '-') || arg.length = 1

namespace State

variable (s : State)

def argc : ℕ := s.argv.length

/-- `argv[optind]` -/
def arg : Bytes := s.argv.getD s.optind []

/-- An error message begins with the name of the program. -/
def complain (text : Bytes) : State :=
  { s with stderr := s.stderr ++ [s.argv.headD [] ++ text ++ bytes "\n"] }

/-- `exchange`: the options that follow some elements that are no options come first. -/
def exchange : State :=
  { s with
    argv := Exchange.exchange s.firstNonopt s.lastNonopt s.optind s.argv
    firstNonopt := s.firstNonopt + (s.optind - s.lastNonopt)
    lastNonopt := s.optind }

/-- Skip any additional elements that are no options. -/
def skip : State :=
  let optind := s.optind + ((s.argv.drop s.optind).takeWhile isNonoption).length
  { s with optind := optind, lastNonopt := optind }

/-- `PERMUTE`: if some options have been processed behind elements that are no options, these change
places. -/
def permute : State :=
  if s.firstNonopt ≠ s.lastNonopt ∧ s.lastNonopt ≠ s.optind then s.exchange.skip
  else if s.lastNonopt ≠ s.optind then { s with firstNonopt := s.optind }.skip
  else s.skip

/-- The element `--` is skipped like an option, and everything else like no option. -/
def endOptions : State :=
  let s := { s with optind := s.optind + 1 }
  let s := if s.firstNonopt ≠ s.lastNonopt ∧ s.lastNonopt ≠ s.optind then s.exchange
    else if s.firstNonopt = s.lastNonopt then { s with firstNonopt := s.optind }
    else s
  { s with lastNonopt := s.argc, optind := s.argc }

/-- Back over any elements that were skipped and permuted. -/
def rewind : State :=
  if s.firstNonopt ≠ s.lastNonopt then { s with optind := s.firstNonopt } else s

/-- What the call returns at this element, unless it is an option. -/
def here : Option ℤ × State :=
  if s.optind = s.argc then (some (-1), s.rewind)
  else if isNonoption s.arg then (some (-1), s)
  else (none, { s with nextchar := s.arg.drop (if s.arg[1]? = some (chr '-') then 2 else 1) })

/-- The same, when `--` ends the options. -/
def next : Option ℤ × State :=
  (if s.optind ≠ s.argc ∧ s.arg = bytes "--" then s.endOptions else s).here

end State

/-- Advance to the next element. -/
def advance (posixlyCorrect : Bool) (s : State) : Option ℤ × State :=
  let s := { s with
    lastNonopt := min s.lastNonopt s.optind
    firstNonopt := min s.firstNonopt s.optind }
  (if posixlyCorrect then s else s.permute).next

/-! ### Long options -/

/-- What the search in the table comes to. -/
inductive Found
  | missing
  | ambiguous
  | found (p : LongOption)
  deriving DecidableEq

/-- Would a different value be returned, or a different number of arguments be taken? -/
def LongOption.differs (p q : LongOption) : Bool := q.hasArg ≠ p.hasArg || q.val ≠ p.val

/-- The loop over the table, with the first option that `name` abbreviates, and whether there was one
that differs from it. -/
def search (name : Bytes) : List LongOption → Option LongOption → Bool → Found
  | [], _, true => .ambiguous
  | [], none, false => .missing
  | [], some pfound, false => .found pfound
  | p :: ps, pfound, ambig =>
    if name.isPrefixOf p.name then
      if name.length = p.name.length then .found p
      else search name ps (some (pfound.getD p)) (ambig || pfound.any p.differs)
    else search name ps pfound ambig

/-- Is there an argument behind the name? -/
def isEquals (c : UInt8) : Bool := c = chr '='

/-- Decode an element that begins with `--`. -/
def longOption (s : State) : ℤ × State :=
  let next := { s with optind := s.optind + 1, nextchar := [] }
  match search (s.nextchar.takeWhile (!isEquals ·)) longOptions none false with
  | .ambiguous =>
    (schar (chr '?'), next.complain (bytes ": option \x60" ++ s.arg ++ bytes "' is ambiguous"))
  | .missing =>
    (schar (chr '?'), next.complain (bytes ": unrecognized option \x60--" ++ s.nextchar ++ bytes "'"))
  | .found p =>
    match s.nextchar.dropWhile (!isEquals ·) with
    | _ :: value =>
      if p.hasArg then (p.val, { next with optarg := some value })
      else (schar (chr '?'),
        next.complain (bytes ": option \x60--" ++ p.name ++ bytes "' doesn't allow an argument"))
    | [] =>
      if p.hasArg then
        if next.optind < next.argc then
          (p.val, { next with optarg := some next.arg, optind := next.optind + 1 })
        else (schar (chr '?'),
          next.complain (bytes ": option \x60" ++ s.arg ++ bytes "' requires an argument"))
      else (p.val, next)

/-! ### Option characters -/

/-- `my_index (optstring, c)` -/
def myIndex (c : UInt8) : Option Bytes :=
  match optstring.dropWhile (· ≠ c) with
  | [] => none
  | temp => some temp

/-- Take the next option character; the index is incremented when it is the last one. -/
def State.consume (s : State) : State :=
  { s with
    nextchar := s.nextchar.tail
    optind := if s.nextchar.tail = [] then s.optind + 1 else s.optind }

def invalidOption (posixlyCorrect : Bool) (c : UInt8) : Bytes :=
  (if posixlyCorrect then bytes ": illegal option -- " else bytes ": invalid option -- ") ++ [c]

/-- The argument of an option character is the rest of the element, or the next one. -/
def shortArgument (c : UInt8) (s : State) : ℤ × State :=
  if s.nextchar ≠ [] then
    (schar c, { s with optarg := some s.nextchar, optind := s.optind + 1, nextchar := [] })
  else if s.optind = s.argc then
    (schar (chr '?'), s.complain (bytes ": option requires an argument -- " ++ [c]))
  else (schar c, { s with optarg := some s.arg, optind := s.optind + 1 })

/-- Handle the next option character. -/
def shortOption (posixlyCorrect : Bool) (s : State) : ℤ × State :=
  let c := s.nextchar.headD 0
  let s := s.consume
  match myIndex c with
  | none => (schar (chr '?'), s.complain (invalidOption posixlyCorrect c))
  | some temp =>
    if c = chr ':' then (schar (chr '?'), s.complain (invalidOption posixlyCorrect c))
    else if temp[1]? = some (chr ':') then shortArgument c s
    else (schar c, s)

/-- Decode what is left of the current element. -/
def option (posixlyCorrect : Bool) (s : State) : ℤ × State :=
  if s.arg[1]? = some (chr '-') then longOption s else shortOption posixlyCorrect s

/-- `getopt_long`: an option character, the value of a long option, `?` or -1. -/
def getoptLong (posixlyCorrect : Bool) (s : State) : ℤ × State :=
  if s.argc < 1 then (-1, s)
  else
    let s := { s with optarg := none }
    if s.nextchar = [] then
      match advance posixlyCorrect s with
      | (some ret, s) => (ret, s)
      | (none, s) => option posixlyCorrect s
    else option posixlyCorrect s

/-! ### The loop over the options -/

/-- The cases of `get_opts`. -/
def ofReturn (option : ℤ) (optarg : Bytes) : Opt :=
  if option = schar (chr 'h') ∨ option = valueHelp then .help
  else if option = schar (chr 'V') ∨ option = valueVersion then .version
  else if option = schar (chr 'L') ∨ option = valueLogfile then .logfile optarg
  else if option = schar (chr 'v') ∨ option = valueVerbose then .verbose optarg
  else if option = schar (chr 't') ∨ option = valueTest then .test
  else if option = schar (chr 'i') ∨ option = valueTimestamp then .timestamp
  else if option = schar (chr 'r') ∨ option = valueReturn then .returnValue
  else if option = schar (chr 's') ∨ option = valueSkipSslVerify then .skipSslVerify
  else if option = schar (chr 'M') ∨ option = valueMailfilterrc then .mailfilterrc optarg
  else .unknown

/-- The loop of `get_opts`, with a bound on the number of its rounds. -/
def getOptsFrom (host : Host) (posixlyCorrect : Bool) : ℕ → State → Preferences →
    Except Halt Preferences
  | 0, _, _ => .error .looping
  | fuel + 1, s, p =>
    let (ret, s) := getoptLong posixlyCorrect s
    if ret = -1 then .ok p
    else do
      let p ← (ofReturn ret (s.optarg.getD [])).apply host p
      getOptsFrom host posixlyCorrect fuel s p

end Mailfilter.Getopt
