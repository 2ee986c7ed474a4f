import Mailfilter.Connection
import Mailfilter.Rfc822.Parser

/-!
# The protocol POP3

The class `POP3` (`pop3.cc`): `login`, `status`, `scan`, `logout` and `removeMsg`.

The loop of `scan` is `scanFrom`, and `examine` is its body.  The stream `msg_no`, which renders the
message number, is cleared at the end of the body and passed from one round to the next.

`judge_preserves`: an invariant that does not look at the log is kept between the reply to `TOP` and
the next command, if the disposal of the message keeps it.
-/

namespace Mailfilter

open Rfc822

variable {σ : Type}

namespace Pop3

/-! ### Commands -/

def crlf : Bytes := bytes "\r\n"

def statCommand : Bytes := bytes "STAT\r\n"

def quitCommand : Bytes := bytes "QUIT\r\n"

/-- `LIST` for the message whose number is in the stream. -/
def listCommand (msgNo : Bytes) : Bytes := bytes "LIST " ++ msgNo ++ crlf

/-- `TOP` without lines of the body. -/
def topCommand (msgNo : Bytes) : Bytes := bytes "TOP " ++ msgNo ++ bytes " 0\r\n"

def deleCommand (num : ℕ) : Bytes := bytes "DELE " ++ decimal num ++ crlf

def userCommand (usr : Bytes) : Bytes := bytes "USER " ++ usr ++ crlf

def passCommand (pass : Bytes) : Bytes := bytes "PASS " ++ pass ++ crlf

/-! ### The member functions -/

/-- `login`, which first reads the greeting of the server. -/
def login (conn : Connection σ) (usr pass : Bytes) : Run σ Bool := do
  let greeting ← cRead conn false
  if greeting = -1 then pure false
  else if !(← commandOk conn false (userCommand usr)) then do
    log (printErr (bytes "Error occurred while sending username to server."))
    pure false
  else if !(← commandOk conn false (passCommand pass)) then do
    log (printErr (bytes "Error occurred while sending password to server."))
    pure false
  else pure true

/-- The second word of a reply; the extraction that fails leaves the word as it is. -/
def secondWord (response : Bytes) : Bytes :=
  let (noMsgs, rest) := extractWord response []
  (extractWord rest noMsgs).1

/-- `status`: the number of messages in the mailbox. -/
def status (conn : Connection σ) : Run σ Int32 := do
  let sent ← cWrite conn statCommand
  if sent = -1 then pure (-1)
  else if !(← replyOk conn false) then pure (-1)
  else do
    let response ← reply conn
    pure (atoi (secondWord (cstr response)))

/-- `invoke_msg_parser`: what it returns, the header it fills, and what it prints. -/
def invokeMsgParser (prefs : Preferences) (header : Bytes) (msgHeader : Header) :
    Except Halt (ℤ × Header × List LogCall) :=
  match rfcparse prefs msgHeader (rfclex header) with
  | .ok msgHeader => .ok (0, msgHeader, [])
  | .error (.thrown e) => .ok (memFailureFlag, msgHeader, e.printed)
  | .error (.halt h) => .error h

/-- `remove_msg` -/
def removeMsg (conn : Connection σ) (env : Env) (num : ℕ) : Run σ ℤ := do
  if env.prefs.testMode then do
    log (printMsg (bytes "Debugging: Simulating DELE command.") 6)
    pure 0
  else do
    let sent ← cWrite conn (deleCommand num)
    pure (if sent = -1 then genFailureFlag else 0)

/-- Store the header in a separate file, if the user has given a path via SHOW_HEADERS. -/
def showHeader (conn : Connection σ) (env : Env) : Run σ Unit := do
  if env.prefs.headersFile.length ≠ 0 then do
    let response ← reply conn
    if !(← printHeader env (cstr response)) then
      log (printErr (bytes "Could not write headers to separate file."))
    else pure ()
  else pure ()

/-- From the parsed header on: the weeder's decision, and what follows from it. -/
def dispose (conn : Connection σ) (env : Env) (i : ℕ) (msgHeader : Header) : Run σ Unit := do
  let verdict ← weed env msgHeader
  if verdict = 1 then do
    let _ ← removeMsg conn env i
    pure ()
  else pure ()

/-- The body of the loop behind the reply to `TOP`: parse the header and ask the weeder. -/
def judge (conn : Connection σ) (env : Env) (i : ℕ) (msgNo : Bytes) (size : Int32) : Run σ ℤ := do
  showHeader conn env
  -- Strip the topmost status line of the server reply.
  let message := substrAfterFirst (chr '\n') (← reply conn)
  match invokeMsgParser env.prefs message (Header.new size) with
  | .error h => throw h
  | .ok (error, msgHeader, calls) => do
    calls.forM log
    if error < 0 then do
      log (printErr (bytes "Parsing the header of message " ++ msgNo ++ bytes " failed."))
      pure genFailureFlag
    else do
      dispose conn env i msgHeader
      pure 0

/-- The body of the loop: 0, unless `scan` returns from within. -/
def examine (conn : Connection σ) (env : Env) (i : ℕ) (msgNo : Bytes) : Run σ ℤ := do
  if !(← commandOk conn false (listCommand msgNo)) then do
    log (printErr (bytes "Error occurred while sending LIST to server."))
    pure genFailureFlag
  else do
    let size := atoi (cstr (substrAfterLast (chr ' ') (← reply conn)))
    if !(← commandOk conn true (topCommand msgNo)) then do
      log (printErr (bytes "Error occurred while sending TOP to server."))
      pure genFailureFlag
    else judge conn env i msgNo size

/-- The rounds of the loop that are left, from message `i` on.  The counter is an `int`. -/
def scanFrom (conn : Connection σ) (env : Env) : ℕ → ℕ → Bytes → Run σ ℤ
  | 0, _, _ => pure 0
  | k + 1, i, msgNo => do
    let result ← examine conn env i (msgNo ++ decimal i)
    if result < 0 then pure result
    else if i = 2 ^ 31 - 1 then throw .undefined
    else scanFrom conn env k (i + 1) []

/-- `scan`: delete all spam messages in the account. -/
def scan (conn : Connection σ) (env : Env) : Run σ ℤ := do
  let numMessages ← status conn
  if numMessages < 0 then do
    log (printErr (bytes "Error occurred while sending STAT to server."))
    pure genFailureFlag
  else scanFrom conn env numMessages.toInt.toNat 1 []

/-- `logout` -/
def logout (conn : Connection σ) : Run σ Bool := do
  let sent ← cWrite conn quitCommand
  pure (sent ≠ -1)

/-! ### Invariants -/

/-- The invariant does not look at the log, nor at the file of headers. -/
def LogBlind (I : World σ → Prop) : Prop :=
  ∀ s log file, I s → I { s with wire := { s.wire with log := log }, headerFile := file }

section Invariants

open Program

variable {conn : Connection σ} {env : Env} {I : World σ → Prop}

theorem log_preserves (hI : LogBlind I) (call : LogCall) : Preserves I (log call : Run σ Unit) :=
  Preserves.modify fun s hs => hI s _ s.headerFile hs

theorem reply_preserves : Preserves I (reply conn) := by
  refine (Preserves.gets _).bind fun r => ?_
  cases r with
  | some r => exact Preserves.pure r
  | none => exact Preserves.throw _

theorem showHeader_preserves (hI : LogBlind I) : Preserves I (showHeader conn env) := by
  unfold showHeader
  refine Preserves.ite (reply_preserves.bind fun r => Preserves.bind ?_ fun ok => ?_)
    (Preserves.pure _)
  · refine Triple.of_exec fun s hs => ?_
    obtain ⟨b, file, hrun⟩ := exec_printHeader env (cstr r) s
    rw [hrun]
    exact hI s s.wire.log file hs
  · exact Preserves.ite (log_preserves hI _) (Preserves.pure _)

/-- What the disposal of a message keeps, the rest of the round does. -/
theorem judge_preserves (hI : LogBlind I) {i : ℕ} (hdispose : ∀ hdr, Preserves I (dispose conn env i hdr))
    (msgNo : Bytes) (size : Int32) : Preserves I (judge conn env i msgNo size) := by
  refine (showHeader_preserves hI).bind fun _ => reply_preserves.bind fun r => ?_
  dsimp only
  split
  · exact Preserves.throw _
  · refine (Preserves.forM fun call _ => log_preserves hI call).bind fun _ => Preserves.ite ?_ ?_
    · exact (log_preserves hI _).bind fun _ => Preserves.pure _
    · exact (hdispose _).bind fun _ => Preserves.pure _

end Invariants

end Pop3

end Mailfilter
