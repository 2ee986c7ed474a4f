import Mailfilter.Connection
import Mathlib.Data.List.Infix

/-!
# Sockets

The class `Socket` (`socket.cc`), in a build with OpenSSL.

* `Os`, the calls of the operating system and of OpenSSL that the class makes, over an arbitrary state
  of the system;
* `Socket.cOpen`, `Socket.cClose` and `Socket.cWrite`;
* `Socket.cRead`, with the receive loop `receive`, which takes a bound on the number of its rounds, and
  its end condition `headerOpen`;
* `Socket.connection`, the connection that these functions implement;
* `Socket.readOnce`, one call of `recv` or `SSL_read`, and `Socket.exec_receive_read`, what a round of
  the loop makes of it.
-/

namespace Mailfilter

/-! ### The system -/

/-- `MAX_BYTES` -/
def maxBytes : ℕ := 512

/-- What one call of `recv` can deliver. -/
abbrev Chunk := { b : Bytes // b.length ≤ maxBytes }

/-- `O_NONBLOCK` -/
def oNonblock : ℕ := 2048

/-- The calls of `Socket::c_open` that may fail, or that a signal may interrupt. -/
inductive OpenCall
  | sigaction
  | alarm (seconds : Int32)
  | socket
  | gethostbyname (host : Bytes)
  | connect (port : ℤ)
  | sslNew
  | bioNewSocket
  | sslConnect (host : Bytes)
  deriving DecidableEq

/-- What a call of `c_open` gives: it succeeds or fails, or `SIGALRM` comes first, whose handler jumps
out of it. -/
inductive OpenResult
  | done (ok : Bool)
  | alarmed
  deriving DecidableEq

/-- What `select` returns, and whether the descriptor is in the set. -/
inductive Selected
  | error
  | timedOut
  | ready (isSet : Bool)
  deriving DecidableEq

/-- What `SSL_get_error` returns; all but the first four are one case of the code. -/
inductive SslError
  | none
  | wantRead
  | wantWrite
  | zeroReturn
  | other
  deriving DecidableEq

/-- The system, on states `ω`.  A flag or a chunk that is `none` is the result -1. -/
structure Os (ω : Type) where
  openCall : OpenCall → ω → OpenResult × ω
  close : ω → Int32 × ω
  sslShutdown : ω → ω
  /-- Is the global pointer `ssl` set? -/
  sslSet : ω → Bool
  getFlags : ω → Option ℕ × ω
  setFlags : ℕ → ω → Bool × ω
  select : Int32 → ω → Selected × ω
  recv : ω → Option Chunk × ω
  sslRead : ω → (Option Chunk × SslError) × ω
  write : Bytes → ω → Int32 × ω
  sslWrite : Bytes → ω → Int32 × ω
  strerror : ω → Bytes

/-! ### The class -/

/-- The data members; the system stands for the descriptor. -/
structure Socket (ω : Type) where
  os : ω
  timeOut : Int32
  readBuffer : Option Bytes
  sslUsed : Bool

namespace Socket

variable {ω : Type} {α : Type} (os : Os ω)

/-- A member function at work. -/
abbrev Call (ω α : Type) := Program Halt (Wire (Socket ω)) α

/-- A call of the system. -/
def sys (f : ω → α × ω) : Call ω α := Program.step fun w =>
  (.ok (f w.net.os).1, { w with net := { w.net with os := (f w.net.os).2 } })

/-- `logger->print_msg (..)` and `logger->print_err (..)` -/
def say (call : LogCall) : Call ω Unit := modify fun w => { w with log := w.log ++ [call] }

/-- `logger->print_err (strerror (errno)); return GEN_FAILURE_FLAG;` -/
def sysFailure : Call ω Int32 := do
  let text ← Program.gets fun w => os.strerror w.net.os
  say (printErr text)
  pure (-1)

/-! ### Opening, closing and writing -/

/-- A call within the `sigsetjmp` block: the jump out of it ends in the `else` branch. -/
def guarded (call : OpenCall) (next : Bool → Call ω Int32) : Call ω Int32 := do
  match ← sys (os.openCall call) with
  | .done ok => next ok
  | .alarmed => do
    say (printErr (bytes "Timeout occurred."))
    pure (-1)

/-- The end of `c_open`: reset the alarm again. -/
def opened : Call ω Int32 := do
  let _ ← sys (os.openCall (.alarm 0))
  pure 0

/-- A failure for which the alarm is reset. -/
def openFailure (text : Bytes) : Call ω Int32 := do
  say (printErr text)
  let _ ← sys (os.openCall (.alarm 0))
  pure (-1)

/-- The SSL negotiation; its failures leave the alarm on. -/
def negotiate (hostName : Bytes) : Call ω Int32 :=
  guarded os .sslNew fun ok =>
    if !ok then do
      say (printErr (bytes "SSL connection structure could not be created."))
      throw (.exit (-1) [])
    else guarded os .bioNewSocket fun ok =>
      if !ok then do
        say (printErr (bytes "Socket-BIO could not be created."))
        pure (-1)
      else guarded os (.sslConnect hostName) fun ok =>
        if !ok then do
          say (printErr (bytes "SSL connection could not be established."))
          pure (-1)
        else opened os

/-- `c_open` -/
def cOpen (hostName : Bytes) (port : ℤ) (newTimeOut : Int32) (protocol : ℕ) : Call ω Int32 := do
  modify fun w => { w with net := { w.net with timeOut := newTimeOut } }
  match ← sys (os.openCall .sigaction) with
  | .done true =>
    guarded os (.alarm newTimeOut) fun _ => do
      if protocol = protocolPop3 ||| sslC || protocol = protocolApop ||| sslC then do
        say (printMsg (bytes "Debugging: Using SSL encrypted communication.") 6)
        modify fun w => { w with net := { w.net with sslUsed := true } }
      else say (printMsg (bytes "Debugging: Client-server communication is not encrypted.") 6)
      guarded os .socket fun ok =>
        if !ok then openFailure os (bytes "DNS look up error; is the hostname correct?")
        else guarded os (.gethostbyname hostName) fun ok =>
          if !ok then openFailure os (bytes "DNS look up error; is the hostname correct?")
          else guarded os (.connect port) fun ok =>
            if !ok then openFailure os (bytes "Server connection could not be established.")
            else do
              if ← Program.gets fun w => w.net.sslUsed then negotiate os hostName else opened os
  | _ => do
    say (printErr (bytes "Installation of signal handler failed."))
    pure (-1)

/-- `c_close` -/
def cClose : Call ω Int32 := do
  if ← Program.gets fun w => w.net.sslUsed then do
    sys fun s => ((), os.sslShutdown s)
    sys os.close
  else sys os.close

/-- `c_write`; the password is not logged. -/
def cWrite (msg : Bytes) : Call ω Int32 := do
  let msg := cstr msg
  let sslUsed ← Program.gets fun w => w.net.sslUsed
  let sent ← sys (if sslUsed then os.sslWrite msg else os.write msg)
  if sent < 0 then do
    let text ← Program.gets fun w => os.strerror w.net.os
    say (printErr text)
  else pure ()
  if !(bytes "PASS ").isPrefixOf msg then say (printMsg (bytes "Debugging: Wrote: " ++ msg) 6)
  else say (printMsg (bytes "Debugging: Wrote: PASS *****") 6)
  pure sent

/-! ### Reading -/

/-- What a call of `recv` or `SSL_read` gives, unless it makes `c_read` return. -/
inductive Received
  | chunk (c : Option Chunk)
  | failure

/-- Receive once. -/
def receiveOnce : Call ω Received := do
  if ← Program.gets fun w => w.net.sslUsed then do
    if ← Program.gets fun w => os.sslSet w.net.os then do
      let (c, error) ← sys os.sslRead
      match error with
      | .none => pure (.chunk c)
      | .wantRead => do
        say (printMsg (bytes "Debugging: Warning: Received SSL_ERROR_WANT_READ.") 6)
        pure (.chunk c)
      | .wantWrite => do
        say (printMsg (bytes "Debugging: Warning: Received SSL_ERROR_WANT_WRITE.") 6)
        pure (.chunk c)
      | .zeroReturn => do
        say (printMsg (bytes "Debugging: Warning: Received SSL_ERROR_ZERO_RETURN.") 6)
        pure (.chunk c)
      | .other => do
        say (printErr (bytes "SSL_read returned unknown error."))
        pure .failure
    else do
      say (printErr (bytes "For unknown reason the SSL connection was closed."))
      pure .failure
  else do
    let c ← sys os.recv
    pure (.chunk c)

/-- The bytes that were received; none at the end of the stream or upon an error. -/
def data : Option Chunk → Bytes
  | some c => c
  | none => []

/-- `input.append (buffer, bytes)`, or `input = buffer` while nothing was read: the buffer is then
taken for a C string. -/
def store (input chunk : Bytes) : Bytes :=
  if chunk.length = 0 then input
  else if input.length ≠ 0 then input ++ chunk
  else cstr chunk

/-- `input[input.length () - k]`, within the string. -/
def fromEnd (input : Bytes) (k : ℕ) : Option UInt8 :=
  if k ≤ input.length then input[input.length - k]? else none

/-- The end of an IMAP server reply. -/
def fetchCompleted : Bytes := bytes ")\r\na OK FETCH completed\r\n"

/-- Is the end of the header still to come?  The end is `.` and a line end, or that of an IMAP reply.
The conditions are looked at from left to right, and an index outside the string has no meaning. -/
def headerOpen (input : Bytes) : Option Bool := do
  let noFetch : Bool := ¬ fetchCompleted <:+: input
  if (← fromEnd input 1) ≠ chr '\n' then pure noFetch
  else if (← fromEnd input 2) ≠ chr '\r' then pure noFetch
  else if (← fromEnd input 3) ≠ chr '.' then pure noFetch
  else pure false

/-- The receive loop, from the input that was collected so far; `none`, if `c_read` returns from within
it.  The number bounds the rounds. -/
def receive (readHeader : Bool) : ℕ → Bytes → Call ω (Option Bytes)
  | 0, _ => throw .looping
  | fuel + 1, input => do
    match ← receiveOnce os with
    | .failure => pure none
    | .chunk c =>
      if 0 < (data c).length then receive readHeader fuel (store input (data c))
      else if !readHeader then pure (some input)
      else
        match headerOpen input with
        | none => throw .undefined
        | some true => receive readHeader fuel input
        | some false => pure (some input)

/-- The input with a line end, for the log. -/
def readText (input : Bytes) : Bytes :=
  if input.getLast? = some (chr '\n') then input else input ++ bytes "\n"

/-- `c_read`: the number of bytes read, or a negative integer. -/
def cRead (fuel : ℕ) (readHeader : Bool) : Call ω Int32 := do
  match ← sys os.getFlags with
  | none => sysFailure os
  | some flags => do
    if !(← sys (os.setFlags (flags ||| oNonblock))) then sysFailure os
    else do
      let timeOut ← Program.gets fun w => w.net.timeOut
      match ← sys (os.select timeOut) with
      | .error => sysFailure os
      | .timedOut => do
        say (printErr (bytes "Connection has timed out."))
        pure (-1)
      | .ready false => pure (-1)
      | .ready true => do
        match ← receive os readHeader fuel [] with
        | none => pure (-1)
        | some input => do
          -- the message below looks at the last byte
          if input.length = 0 then throw .undefined
          else do
            say (printMsg (bytes "Debugging: Read: " ++ readText input) 6)
            if !(← sys (os.setFlags flags)) then sysFailure os
            else do
              modify fun w => { w with net := { w.net with readBuffer := some input } }
              pure (Int32.ofNat input.length)

/-- The class `Socket` as a connection, with a bound on the rounds of the receive loop. -/
def connection (fuel : ℕ) : Connection (Socket ω) where
  cOpen := cOpen os
  cClose := cClose os
  cRead := cRead os fuel
  cWrite := cWrite os
  cReply s := s.readBuffer

end Socket

/-- The wire with another state of the system, and other messages. -/
def Wire.after {ω : Type} (w : Wire (Socket ω)) (s : ω) (log : List LogCall) : Wire (Socket ω) :=
  ⟨{ w.net with os := s }, log⟩

namespace Socket

open Program

/-! ### Rounds of the receive loop -/

variable {ω : Type}

theorem exec_sys {β : Type} (f : ω → β × ω) (w : Wire (Socket ω)) :
    exec (sys f) w = (.ok (f w.net.os).1, { w with net := { w.net with os := (f w.net.os).2 } }) := rfl

/-- A call of `recv` or `SSL_read`: what it delivers, unless it makes `c_read` return, and the system
afterwards. -/
def readOnce (os : Os ω) (ssl : Bool) (s : ω) : Option (Option Chunk) × ω :=
  if ssl then
    if os.sslSet s then
      (if (os.sslRead s).1.2 = .other then none else some (os.sslRead s).1.1, (os.sslRead s).2)
    else (none, s)
  else (some (os.recv s).1, (os.recv s).2)

/-- What the next read becomes. -/
def Received.of : Option (Option Chunk) → Received
  | none => .failure
  | some c => .chunk c

/-- Only a read over SSL is logged. -/
theorem exec_receiveOnce_read (os : Os ω) (w : Wire (Socket ω)) :
    ∃ log, (w.net.sslUsed = false → log = w.log) ∧
      exec (receiveOnce os) w = (.ok (Received.of (readOnce os w.net.sslUsed w.net.os).1),
        w.after (readOnce os w.net.sslUsed w.net.os).2 log) := by
  obtain ⟨⟨s, timeOut, buffer, ssl⟩, log⟩ := w
  cases ssl with
  | false => exact ⟨log, fun _ => rfl, rfl⟩
  | true =>
    simp only [receiveOnce, readOnce, exec_bind, exec_gets, if_true]
    cases hset : os.sslSet s with
    | false => exact ⟨_, (fun h => nomatch h), rfl⟩
    | true =>
      simp only [if_true, exec_bind, exec_sys]
      cases herror : (os.sslRead s).1.2 <;> exact ⟨_, (fun h => nomatch h), rfl⟩

/-- A round of the loop. -/
theorem exec_receive_read (os : Os ω) (readHeader : Bool) (q : Bytes) (w : Wire (Socket ω)) :
    ∃ log, (w.net.sslUsed = false → log = w.log) ∧
      ∀ fuel, exec (receive os readHeader (fuel + 1) q) w =
        let w' := w.after (readOnce os w.net.sslUsed w.net.os).2 log
        match (readOnce os w.net.sslUsed w.net.os).1 with
        | none => (.ok none, w')
        | some c =>
          if 0 < (data c).length then exec (receive os readHeader fuel (store q (data c))) w'
          else if !readHeader then (.ok (some q), w')
          else match headerOpen q with
            | none => (.error .undefined, w')
            | some true => exec (receive os readHeader fuel q) w'
            | some false => (.ok (some q), w') := by
  obtain ⟨log, hlog, honce⟩ := exec_receiveOnce_read os w
  refine ⟨log, hlog, fun fuel => ?_⟩
  rw [receive, exec_bind, honce]
  rcases (readOnce os w.net.sslUsed w.net.os).1 with _ | c
  · rfl
  · simp only [Received.of]
    by_cases hpos : 0 < (data c).length
    · simp only [if_pos hpos]
    · simp only [if_neg hpos]
      cases readHeader with
      | false => rfl
      | true => rcases headerOpen q with _ | _ | _ <;> rfl

end Socket

end Mailfilter
