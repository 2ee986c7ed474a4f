import Mailfilter.Program
import Mailfilter.Weeder

/-!
# Connections and the state of the program

The abstract class `Connection` (`connection.hh`), and the state that the classes above it share.

* `Wire`, what a connection works on: the network and the log;
* `Connection`, the five member functions of the class, over an arbitrary network;
* `World`, the global objects of the program, with a `trace` of what was passed to the connection
  and to the weeder, and of what came back;
* the calls that the classes above it make: `cOpen`, `cClose`, `cWrite`, `cRead`, `replyOk` (the macros `REPLY_OK` and
  `HEADER_OK`), `weed`, `printHeader`, and `log` for the messages.
-/

namespace Mailfilter

/-! ### Connections -/

/-- The network, and the messages that were logged. -/
structure Wire (σ : Type) where
  net : σ
  log : List LogCall

/-- The class `Connection`.  A call may read and change the network in any way, and `none` is a null
pointer. -/
structure Connection (σ : Type) where
  cOpen : Bytes → ℤ → Int32 → ℕ → Program Halt (Wire σ) Int32
  cClose : Program Halt (Wire σ) Int32
  cRead : Bool → Program Halt (Wire σ) Int32
  cWrite : Bytes → Program Halt (Wire σ) Int32
  cReply : σ → Option Bytes

/-! ### The state of the program -/

/-- What the program did that others can see. -/
inductive Event
  /-- A call of `c_open` has returned. -/
  | opened (sock : ℕ) (ret : Int32)
  /-- A call of `c_close` has returned. -/
  | closed (sock : ℕ) (ret : Int32)
  /-- The call `c_write (msg)`. -/
  | write (msg : Bytes)
  /-- A call of `c_read` has returned; `c_reply` then gives the reply. -/
  | read (header : Bool) (ret : Int32) (reply : Option Bytes)
  /-- The weeder was asked about a message, and gave a verdict. -/
  | weed (before : Weeder) (hdr : Header) (verdict : ℤ)
  deriving DecidableEq

/-- The stream `header_file`: how often it was opened without success, whether it is open, and the
text that was written to it. -/
structure HeaderFile where
  attempts : ℕ
  isOpen : Bool
  content : Bytes
  deriving DecidableEq

/-- The objects that live as long as the program. -/
structure World (σ : Type) where
  wire : Wire σ
  weeder : Weeder
  mailboxStatus : Int32
  headerFile : HeaderFile
  trace : List Event

/-- What does not change once the rcfile is loaded: the preferences, the matcher of the C library,
whether a file can be opened for appending at the given attempt, and the digest of MD5. -/
structure Env where
  prefs : Preferences
  regexec : Option Regex → Bytes → ℤ
  openAppend : Bytes → ℕ → Bool
  md5 : Bytes → Fin 16 → UInt8

/-- `header_file.open`, if the file is not open. -/
def HeaderFile.reopen (env : Env) (file : HeaderFile) : HeaderFile :=
  if file.isOpen then file
  else { file with
    attempts := file.attempts + 1
    isOpen := env.openAppend env.prefs.headersFile file.attempts }

/-- The program at work. -/
abbrev Run (σ α : Type) := Program Halt (World σ) α

variable {σ : Type}

/-- The world with one more event. -/
def World.record (w : World σ) (e : Event) : World σ := { w with trace := w.trace ++ [e] }

/-- A call of the connection. -/
def onWire {α : Type} (p : Program Halt (Wire σ) α) : Run σ α :=
  Program.onPart World.wire (fun wire w => { w with wire := wire }) p

/-- The message is logged, by `print_msg` or `print_err`. -/
def log (call : LogCall) : Run σ Unit :=
  modify fun w => { w with wire := { w.wire with log := w.wire.log ++ [call] } }

/-- `conn->c_open (..)`; a connection is known by the number of its socket. -/
def cOpen (conns : ℕ → Connection σ) (sock : ℕ) (host : Bytes) (port : ℤ) (timeOut : Int32)
    (protocol : ℕ) : Run σ Int32 := do
  let ret ← onWire ((conns sock).cOpen host port timeOut protocol)
  modify fun w => w.record (.opened sock ret)
  pure ret

/-- `conn->c_close ()` -/
def cClose (conns : ℕ → Connection σ) (sock : ℕ) : Run σ Int32 := do
  let ret ← onWire (conns sock).cClose
  modify fun w => w.record (.closed sock ret)
  pure ret

/-- `conn->c_write (msg)` -/
def cWrite (conn : Connection σ) (msg : Bytes) : Run σ Int32 := do
  modify fun w => w.record (.write msg)
  onWire (conn.cWrite msg)

/-- `conn->c_reply ()` -/
def cReply (conn : Connection σ) : Run σ (Option Bytes) :=
  Program.gets fun w => conn.cReply w.wire.net

/-- `conn->c_read (read_header)` -/
def cRead (conn : Connection σ) (readHeader : Bool) : Run σ Int32 := do
  let ret ← onWire (conn.cRead readHeader)
  modify fun w => w.record (.read readHeader ret (conn.cReply w.wire.net))
  pure ret

/-- `*conn->c_reply ()` -/
def reply (conn : Connection σ) : Run σ Bytes := do
  match ← cReply conn with
  | some reply => pure reply
  | none => throw .undefined

/-- `(conn->c_reply ()->c_str ())[0]` -/
def firstByte (reply : Bytes) : UInt8 := (cstr reply).headD 0

/-- `REPLY_OK`, or `HEADER_OK` when a whole header is to be read: true, if the server replied and
its status message was anything, but an error. -/
def replyOk (conn : Connection σ) (readHeader : Bool) : Run σ Bool := do
  let ret ← cRead conn readHeader
  if 0 < ret then
    match ← cReply conn with
    | some reply => pure (firstByte reply = chr '+')
    | none => pure false
  else pure false

/-- `!(conn->c_write (msg) == -1 || !REPLY_OK)` -/
def commandOk (conn : Connection σ) (readHeader : Bool) (msg : Bytes) : Run σ Bool := do
  let sent ← cWrite conn msg
  if sent = -1 then pure false else replyOk conn readHeader

/-- `weeder.is_weed (msg_header)` -/
def weed (env : Env) (hdr : Header) : Run σ ℤ := Program.step fun w =>
  let (verdict, weeder, calls) := isWeed env.prefs env.regexec hdr w.weeder
  (.ok verdict,
    { w with
      weeder := weeder
      wire := { w.wire with log := w.wire.log ++ calls }
      trace := w.trace ++ [.weed w.weeder hdr verdict] })

/-- `Feedback::print_header`: append a header and a line end to the file of `SHOW_HEADERS`, which is
opened first where it is not open yet. -/
def printHeader (env : Env) (msg : Bytes) : Run σ Bool := Program.step fun w =>
  let file := w.headerFile.reopen env
  if file.isOpen then
    (.ok true, { w with headerFile := { file with content := file.content ++ msg ++ bytes "\n" } })
  else (.ok false, { w with headerFile := file })

theorem exec_onWire {α : Type} (p : Program Halt (Wire σ) α) (w : World σ) :
    Program.exec (onWire p) w =
      ((Program.exec p w.wire).1, { w with wire := (Program.exec p w.wire).2 }) := rfl

theorem exec_printHeader (env : Env) (msg : Bytes) (w : World σ) :
    ∃ b file, Program.exec (printHeader env msg) w = (.ok b, { w with headerFile := file }) := by
  unfold printHeader
  simp only [Program.exec_step]
  split <;> exact ⟨_, _, rfl⟩

end Mailfilter
