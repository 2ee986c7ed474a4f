import Mailfilter.Invariants
import Mailfilter.Socket

/-!
# Several sockets

The sockets of the accounts, over one system.

* `Net`, the system and the data members of every socket, and `onSocket`, a member function of one of
  them;
* `Socket.receive_rule`, the rule of the receive loop: an invariant that relates the input so far and
  the system;
* `Os.Keeps`: the calls of the system behind `c_open` keep an invariant of the system; then `cClose`,
  `cWrite` and `cRead` keep it;
* `networked`: the connections of the accounts, and `networked_keeps`, what is kept while they are
  talked over.
-/

namespace Mailfilter

open Program

variable {ω α : Type} {os : Os ω} {J : ω → Prop}

/-! ### One socket -/

/-- The invariant is kept by all calls of the system but those of `c_open`. -/
structure Os.Keeps (os : Os ω) (J : ω → Prop) : Prop where
  close : ∀ s, J s → J (os.close s).2
  sslShutdown : ∀ s, J s → J (os.sslShutdown s)
  getFlags : ∀ s, J s → J (os.getFlags s).2
  setFlags : ∀ flags s, J s → J (os.setFlags flags s).2
  select : ∀ timeOut s, J s → J (os.select timeOut s).2
  recv : ∀ s, J s → J (os.recv s).2
  sslRead : ∀ s, J s → J (os.sslRead s).2
  write : ∀ msg s, J s → J (os.write msg s).2
  sslWrite : ∀ msg s, J s → J (os.sslWrite msg s).2

namespace Socket

/-- The system has the invariant. -/
def OnOs (J : ω → Prop) (w : Wire (Socket ω)) : Prop := J w.net.os

theorem sys_onOs {f : ω → α × ω} (hf : ∀ s, J s → J (f s).2) : Preserves (OnOs J) (sys f) :=
  Triple.of_exec fun _ hw => hf _ hw

theorem say_onOs (call : LogCall) : Preserves (OnOs J) (say call : Call ω Unit) :=
  Preserves.modify fun _ hw => hw

theorem sysFailure_onOs : Preserves (OnOs J) (sysFailure os) :=
  (Preserves.gets _).bind fun _ => (say_onOs _).bind fun _ => Preserves.pure _

section Receive

/-- The loop invariant `I` relates the input so far and the system; when `c_read` returns from within,
some input fits. -/
def AfterOnce (I : Bytes → ω → Prop) (input : Bytes) : Received → ω → Prop
  | .chunk c, s => I (store input (data c)) s
  | .failure, s => ∃ q, I q s

/-- The loop is left with this input, or from within. -/
def AfterLoop (I : Bytes → ω → Prop) : Option Bytes → ω → Prop
  | some q, s => I q s
  | none, s => ∃ q, I q s

variable {I : Bytes → ω → Prop}
  (hrecv : ∀ input s, I input s → I (store input (data (os.recv s).1)) (os.recv s).2)
  (hssl : ∀ input s, I input s → I (store input (data (os.sslRead s).1.1)) (os.sslRead s).2)

include hrecv hssl

theorem receiveOnce_rule (input : Bytes) :
    Triple (OnOs (I input)) (receiveOnce os) (fun r => OnOs (AfterOnce I input r))
      fun _ => OnOs fun s => ∃ q, I q s := by
  refine Triple.of_exec fun w hw => ?_
  obtain ⟨log, -, honce⟩ := exec_receiveOnce_read os w
  have hnext : ∀ ssl s, I input s →
      AfterOnce I input (.of (readOnce os ssl s).1) (readOnce os ssl s).2 := by
    intro ssl s hs
    have hdelivered := hssl input s hs
    unfold readOnce
    split_ifs
    · exact ⟨_, hdelivered⟩
    · exact hdelivered
    · exact ⟨input, hs⟩
    · exact hrecv input s hs
  rw [honce]
  exact hnext w.net.sslUsed w.net.os hw

/-- **The rule of the receive loop.** -/
theorem receive_rule (readHeader : Bool) (fuel : ℕ) (input : Bytes) :
    Triple (OnOs (I input)) (receive os readHeader fuel input) (fun r => OnOs (AfterLoop I r))
      fun _ => OnOs fun s => ∃ q, I q s := by
  induction fuel generalizing input with
  | zero => exact Triple.throw fun _ hw => ⟨input, hw⟩
  | succ fuel ih =>
    refine (receiveOnce_rule hrecv hssl input).bind fun received => ?_
    cases received with
    | failure => exact Triple.pure fun _ hw => hw
    | chunk c =>
      refine Triple.ite (fun _ => ih _) fun hempty => ?_
      have hstore : store input (data c) = input := if_pos (Nat.eq_zero_of_not_pos hempty)
      suffices h : Triple (OnOs (I input)) _ _ _ from h.weaken fun w hw => by
        rw [← hstore]
        exact hw
      refine Triple.ite (fun _ => Triple.pure fun _ hw => hw) fun _ => ?_
      cases headerOpen input with
      | none => exact Triple.throw fun _ hw => ⟨input, hw⟩
      | some isOpen =>
        cases isOpen with
        | true => exact ih input
        | false => exact Triple.pure fun _ hw => hw

end Receive

variable (h : os.Keeps J)

include h

theorem cClose_onOs : Preserves (OnOs J) (cClose os) := by
  refine (Preserves.gets _).bind fun _ => Preserves.ite ?_ (sys_onOs h.close)
  exact (sys_onOs h.sslShutdown).bind fun _ => sys_onOs h.close

theorem cWrite_onOs (msg : Bytes) : Preserves (OnOs J) (cWrite os msg) := by
  have hsend : ∀ ssl : Bool,
      Preserves (OnOs J) (sys (if ssl then os.sslWrite (cstr msg) else os.write (cstr msg))) := by
    intro ssl
    cases ssl with
    | true => exact sys_onOs (h.sslWrite _)
    | false => exact sys_onOs (h.write _)
  refine (Preserves.gets _).bind fun ssl => (hsend ssl).bind fun sent => ?_
  have hlogged : Preserves (OnOs J) (if !(bytes "PASS ").isPrefixOf (cstr msg) then do
        say (printMsg (bytes "Debugging: Wrote: " ++ cstr msg) 6)
        pure sent
      else do
        say (printMsg (bytes "Debugging: Wrote: PASS *****") 6)
        pure sent : Call ω Int32) :=
    Preserves.ite ((say_onOs _).bind fun _ => Preserves.pure _)
      ((say_onOs _).bind fun _ => Preserves.pure _)
  exact Preserves.ite ((Preserves.gets _).bind fun _ => (say_onOs _).bind fun _ => hlogged) hlogged

theorem receive_onOs (readHeader : Bool) (fuel : ℕ) (input : Bytes) :
    Preserves (OnOs J) (receive os readHeader fuel input) := by
  have hrule := @receive_rule ω os (fun _ => J) (fun _ => h.recv) (fun _ => h.sslRead) readHeader
    fuel input
  refine hrule.conseq (fun _ hw => hw) (fun r w hw => ?_) fun _ _ hw => hw.elim fun _ h => h
  cases r with
  | some q => exact hw
  | none => exact Exists.elim hw fun _ h => h

theorem cRead_onOs (fuel : ℕ) (readHeader : Bool) :
    Preserves (OnOs J) (cRead os fuel readHeader) := by
  refine (sys_onOs h.getFlags).bind fun flags => ?_
  cases flags with
  | none => exact sysFailure_onOs
  | some flags =>
    refine (sys_onOs (h.setFlags _)).bind fun _ => Preserves.ite sysFailure_onOs ?_
    refine (Preserves.gets _).bind fun timeOut => (sys_onOs (h.select _)).bind fun selected => ?_
    match selected with
    | .error => exact sysFailure_onOs
    | .timedOut => exact (say_onOs _).bind fun _ => Preserves.pure _
    | .ready false => exact Preserves.pure _
    | .ready true =>
      refine (receive_onOs h readHeader fuel []).bind fun received => ?_
      cases received with
      | none => exact Preserves.pure _
      | some input =>
        refine Preserves.ite (Preserves.throw _) ((say_onOs _).bind fun _ => ?_)
        refine (sys_onOs (h.setFlags _)).bind fun _ => Preserves.ite sysFailure_onOs ?_
        exact Preserves.bind (Preserves.modify fun _ hw => hw) fun _ => Preserves.pure _

end Socket

/-! ### The network -/

/-- The data members of a socket. -/
structure Members where
  timeOut : Int32
  readBuffer : Option Bytes
  sslUsed : Bool

/-- The system, and the sockets by their numbers. -/
structure Net (ω : Type) where
  os : ω
  members : ℕ → Members

/-- The socket with a number. -/
def Net.socket (sock : ℕ) (net : Net ω) : Socket ω :=
  ⟨net.os, (net.members sock).timeOut, (net.members sock).readBuffer, (net.members sock).sslUsed⟩

/-- The network with another state of the system and of a socket. -/
def Net.put (sock : ℕ) (s : Socket ω) (net : Net ω) : Net ω :=
  ⟨s.os, Function.update net.members sock ⟨s.timeOut, s.readBuffer, s.sslUsed⟩⟩

/-- A member function of a socket. -/
def onSocket (sock : ℕ) (p : Socket.Call ω α) : Program Halt (Wire (Net ω)) α :=
  Program.onPart (fun w => ⟨w.net.socket sock, w.log⟩) (fun s w => ⟨w.net.put sock s.net, s.log⟩) p

/-- The sockets as connections, with a bound on the rounds of the receive loop. -/
def networked (os : ℕ → Os ω) (fuel sock : ℕ) : Connection (Net ω) where
  cOpen hostName port timeOut protocol :=
    onSocket sock (Socket.cOpen (os sock) hostName port timeOut protocol)
  cClose := onSocket sock (Socket.cClose (os sock))
  cRead header := onSocket sock (Socket.cRead (os sock) fuel header)
  cWrite msg := onSocket sock (Socket.cWrite (os sock) msg)
  cReply net := (net.socket sock).readBuffer

/-- The system has the invariant. -/
def OnNet (J : ω → Prop) (s : World (Net ω)) : Prop := J s.wire.net.os

/-- A call of a socket, from the triple of the member function. -/
theorem onSocket_triple {Q : α → ω → Prop} {E : ω → Prop} {sock : ℕ} {p : Socket.Call ω α}
    (hp : Triple (Socket.OnOs J) p (fun a => Socket.OnOs (Q a)) fun _ => Socket.OnOs E) :
    Triple (fun w => J w.net.os) (onSocket sock p) (fun a w => Q a w.net.os) fun _ w => E w.net.os :=
  Triple.onPart (fun _ => hp) (fun _ hs => hs) (fun _ _ _ _ h => h) fun _ _ _ _ h => h

/-- A call of a connection. -/
theorem onWire_onNet {Q : α → ω → Prop} {E : ω → Prop} {p : Program Halt (Wire (Net ω)) α}
    (hp : Triple (fun w => J w.net.os) p (fun a w => Q a w.net.os) fun _ w => E w.net.os) :
    Triple (OnNet J) (onWire p) (fun a => OnNet (Q a)) fun _ => OnNet E :=
  Triple.onPart (fun _ => hp) (fun _ hs => hs) (fun _ _ _ _ h => h) fun _ _ _ _ h => h

variable {conns : ℕ → Os ω} {env : Env}

/-- Talking over the sockets keeps what the calls of the system keep. -/
theorem networked_keeps (h : ∀ sock, (conns sock).Keeps J) (fuel sock : ℕ) :
    Keeps (networked conns fuel sock) env (fun _ => True) (OnNet J) where
  blind _ _ _ hs := hs
  read header :=
    Triple.bind (onWire_onNet (onSocket_triple (Socket.cRead_onOs (h sock) fuel header))) fun ret =>
      record_preserves (fun _ hs => hs) ret
  write msg _ := Preserves.bind (Preserves.modify fun _ hs => hs) fun _ =>
    onWire_onNet (onSocket_triple (Socket.cWrite_onOs (h sock) msg))
  weed _ := Triple.of_exec fun _ hs => hs

end Mailfilter
