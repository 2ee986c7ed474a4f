import Mailfilter.CString

/-!
# Messages and the ends of a run

* `LogCall`: one message of the program, passed to `Feedback::print_msg`, `Feedback::print_err`
  or the macro `ERROR_MSG`.  The functions of the program give the calls they make; which of them
  print something depends on the verbosity.
* `Halt`: why a function does not return to its caller.
-/

namespace Mailfilter

/-- `GEN_FAILURE_FLAG`. -/
def genFailureFlag : ℤ := -1

/-- `MEM_FAILURE_FLAG`. -/
def memFailureFlag : ℤ := -2

/-- Where a message goes: the log and the terminal, as a message or as an error, or `cerr`. -/
inductive Channel
  | msg
  | err
  | cerr
  deriving DecidableEq

/-- A message of the program, with the least verbosity at which it is shown. -/
structure LogCall where
  channel : Channel
  text : Bytes
  level : ℤ
  deriving DecidableEq

/-- `print_msg (msg, min_verbose_level)`. -/
def printMsg (text : Bytes) (level : ℤ) : LogCall := ⟨.msg, text, level⟩

/-- `print_err (msg)`; the default level of errors is 1. -/
def printErr (text : Bytes) : LogCall := ⟨.err, text, 1⟩

/-- `ERROR_MSG (msg)`, which does not look at the verbosity. -/
def errorMsg (text : Bytes) : LogCall := ⟨.cerr, text, 0⟩

/-- Is a message written, for this verbosity? -/
def LogCall.shown (verboseLevel : Int32) (call : LogCall) : Bool :=
  match call.channel with
  | .cerr => true
  | _ => call.level ≤ verboseLevel.toInt

/-- Why the program does not return to its caller. -/
inductive Halt
  /-- `exit (code)`, after the text of an `ERROR_MSG` was written to `cerr`. -/
  | exit (code : ℤ) (message : Bytes)
  /-- A step to which C++ gives no meaning: an index outside a string, an uninitialised
  pointer, an overflowing loop counter. -/
  | undefined
  /-- The bound on the number of loop iterations is used up. -/
  | looping
  deriving DecidableEq

end Mailfilter
