import Mailfilter.Pop3

/-!
# Accounts

The class `APOP` (`apop.cc`), which logs in with a digest instead of the password, and
`Account::check` (`account.cc`), the session with one account.

* `timestamp`, `getHash` and `Apop.login`;
* `Protocol.login`, which dispatches on the class of the protocol object;
* `Account.check`.
-/

namespace Mailfilter

open Pop3

variable {σ : Type}

/-! ### APOP -/

namespace Apop

/-- The timestamp in a greeting: from the first `<` to the next `>`. -/
def timestamp (greet : Bytes) : Option Bytes :=
  let ts := (cstr greet).dropWhile (· ≠ chr '<')
  if chr '>' ∈ ts then some (ts.takeWhile (· ≠ chr '>') ++ [chr '>']) else none

def hexDigit (d : UInt8) : UInt8 := if d < 10 then 48 + d else 87 + d

/-- `sprintf (.., "%02x", c)` -/
def hexByte (c : UInt8) : Bytes := [hexDigit (c / 16), hexDigit (c % 16)]

/-- `get_hash` -/
def getHash (env : Env) (stamp pass : Bytes) : Bytes :=
  (List.ofFn (env.md5 (stamp ++ pass))).flatMap hexByte

def apopCommand (usr hash : Bytes) : Bytes := bytes "APOP " ++ usr ++ bytes " " ++ hash ++ crlf

/-- `login`. Without a timestamp in the greeting the server does not support the protocol. -/
def login (conn : Connection σ) (env : Env) (usr pass : Bytes) : Run σ Bool := do
  let greeting ← cRead conn false
  if greeting = -1 then pure false
  else do
    let greet ← reply conn
    match timestamp greet with
    | none => pure false
    | some ts => do
      if !(← commandOk conn false (apopCommand usr (getHash env ts pass))) then do
        log (printErr (bytes "APOP protocol initialisation error."))
        pure false
      else pure true

end Apop

/-- `proto->login (..)` -/
def Protocol.login (proto : Protocol) (conn : Connection σ) (env : Env) (usr pass : Bytes) :
    Run σ Bool :=
  match proto.cls with
  | .pop3 => Pop3.login conn usr pass
  | .apop => Apop.login conn env usr pass

/-! ### The session with an account -/

/-- The number of messages is asked for again if it is the return value of the program. -/
def recount (conn : Connection σ) (env : Env) (messages : Int32) : Run σ Int32 :=
  if env.prefs.returnStatus then status conn else pure messages

/-- `Account::check`, given the objects behind the pointers of the account: its socket, and the
protocol object with the socket of its own. -/
def Account.session (conns : ℕ → Connection σ) (env : Env) (a : Account) (sock : ℕ)
    (proto : Protocol) (psock : ℕ) : Run σ ℤ := do
  let pconn := conns psock
  let port := (Int32.ofInt a.port).toInt
  let opened ← cOpen conns sock (cstr a.server) port env.prefs.timeOut proto.ident
  if opened ≠ 0 then do
    log (printErr (bytes "Could not establish network connection."))
    pure genFailureFlag
  else if !(← proto.login pconn env (cstr a.usr) (cstr a.passwd)) then do
    log (printErr (bytes "Server login failure."))
    let _ ← cClose conns sock
    pure genFailureFlag
  else do
    let messages ← status pconn
    if messages < 0 then do
      log (printErr (bytes "Could not determine mailbox status."))
      let _ ← logout pconn
      let _ ← cClose conns sock
      pure genFailureFlag
    else do
      log (printMsg (bytes "Examining " ++ intToString messages.toInt ++ bytes " message(s).") 3)
      if (← scan pconn env) < 0 then do
        log (printErr (bytes "Scanning of mail account failed."))
        let _ ← logout pconn
        let _ ← cClose conns sock
        pure genFailureFlag
      else do
        let messages ← recount pconn env messages
        if env.prefs.returnStatus && messages < 0 then do
          log (printErr (bytes "Could not determine mailbox status."))
          let _ ← logout pconn
          let _ ← cClose conns sock
          pure genFailureFlag
        else do
          modify fun w => { w with mailboxStatus := w.mailboxStatus + messages }
          -- `c_close` is called only after a successful logout
          if ← logout pconn then do
            let closed ← cClose conns sock
            pure (if closed = 0 then 0 else genFailureFlag)
          else pure genFailureFlag

/-- `Account::check` -/
def Account.check (conns : ℕ → Connection σ) (env : Env) (a : Account) : Run σ ℤ :=
  match a.conn, a.proto with
  | some sock, some proto =>
    match proto.conn with
    | some psock => Account.session conns env a sock proto psock
    | none => throw .undefined
  | _, _ => throw .undefined

end Mailfilter
