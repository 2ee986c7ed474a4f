import Mailfilter.Coupling
import Mailfilter.Main
import Mailfilter.Network
import Mailfilter.Numbers

/-!
# The password is between the user and the server

Two runs with different passwords, over a system that does not make a difference between them.

* `hidePass` and `Event.hidden`: what others may see of a message and of an event;
* `Connection.Discreet`: a connection that treats all passwords alike, and `session_agree`: then the
  sessions of two accounts agree that differ in their passwords;
* `Os.Discreet` and `networked_discreet`: the sockets are such connections, since `c_write` does not
  log the password.
-/

namespace Mailfilter

open Pop3 Program

/-! ### What others may see -/

/-- A message, with the password hidden as in the log. -/
def hidePass (msg : Bytes) : Bytes :=
  if (bytes "PASS ").isPrefixOf msg then bytes "PASS *****" else msg

/-- An event, with the password hidden. -/
def Event.hidden : Event → Event
  | .write msg => .write (hidePass msg)
  | e => e

theorem hidePass_passCommand (pass : Bytes) : hidePass (passCommand pass) = bytes "PASS *****" := rfl

theorem isPrefixOf_hidePass (msg : Bytes) :
    (bytes "PASS ").isPrefixOf (hidePass msg) = (bytes "PASS ").isPrefixOf msg := by
  unfold hidePass
  split_ifs with h
  · rw [h]
    rfl
  · rfl

theorem isPrefixOf_cstr (msg : Bytes) :
    (bytes "PASS ").isPrefixOf (cstr msg) = (bytes "PASS ").isPrefixOf msg := by
  have hnul : 0 ∉ bytes "PASS " := by decide
  rw [Bool.eq_iff_iff, List.isPrefixOf_iff_prefix, List.isPrefixOf_iff_prefix]
  refine ⟨fun h => h.trans (List.takeWhile_prefix _), ?_⟩
  rintro ⟨rest, rfl⟩
  rw [cstr_append hnul]
  exact List.prefix_append ..

theorem hidePass_cstr {msg msg' : Bytes} (h : hidePass msg = hidePass msg') :
    hidePass (cstr msg) = hidePass (cstr msg') := by
  have hpass : (bytes "PASS ").isPrefixOf msg = (bytes "PASS ").isPrefixOf msg' := by
    rw [← isPrefixOf_hidePass, h, isPrefixOf_hidePass]
  unfold hidePass at h ⊢
  rw [isPrefixOf_cstr, isPrefixOf_cstr]
  by_cases hcase : (bytes "PASS ").isPrefixOf msg = true
  · rw [if_pos hcase, if_pos (hpass ▸ hcase)]
  · rw [if_neg hcase, if_neg (hpass ▸ hcase)] at h ⊢
    rw [h]

/-! ### Connections -/

variable {σ ω α : Type}

/-- Networks that look alike, and the same messages in the log. -/
structure WireAlike (N : σ → σ → Prop) (w w' : Wire σ) : Prop where
  net : N w.net w'.net
  log : w.log = w'.log

/-- States of the program that look alike. -/
structure Indistinct (N : σ → σ → Prop) (s t : World σ) : Prop where
  wire : WireAlike N s.wire t.wire
  weeder : s.weeder = t.weeder
  status : s.mailboxStatus = t.mailboxStatus
  headerFile : s.headerFile = t.headerFile
  trace : s.trace.map Event.hidden = t.trace.map Event.hidden

/-- Both calls fail, or none. -/
def SameSign (n m : Int32) : Prop := (n < 0 ↔ m < 0) ∧ (n = -1 ↔ m = -1)

/-- The calls of the connection keep the networks alike, whatever the password. -/
structure Connection.Discreet (conn : Connection σ) (N : σ → σ → Prop) : Prop where
  cOpen : ∀ host port timeOut protocol, Stable (WireAlike N) (conn.cOpen host port timeOut protocol)
  cClose : Stable (WireAlike N) conn.cClose
  cRead : ∀ header, Stable (WireAlike N) (conn.cRead header)
  cWrite : ∀ msg msg', hidePass msg = hidePass msg' → Coupled (WireAlike N) (conn.cWrite msg)
    (conn.cWrite msg') (fun n m w w' => SameSign n m ∧ WireAlike N w w')
      (fun e e' w w' => e = e' ∧ WireAlike N w w')
  cReply : ∀ net net', N net net' → conn.cReply net = conn.cReply net'

section Calls

variable {N : σ → σ → Prop} {conns : ℕ → Connection σ} {conn : Connection σ} {env : Env}

theorem onWire_coupled {p q : Program Halt (Wire σ) α} {V : α → α → Prop}
    (h : Coupled (WireAlike N) p q (fun a a' w w' => V a a' ∧ WireAlike N w w')
      (fun e e' w w' => e = e' ∧ WireAlike N w w')) :
    Coupled (Indistinct N) (onWire p) (onWire q) (fun a a' s t => V a a' ∧ Indistinct N s t)
      (fun e e' s t => e = e' ∧ Indistinct N s t) :=
  Coupled.onPart h (fun _ _ hs => hs.wire) fun _ _ _ _ hs hw =>
    ⟨hw, hs.weeder, hs.status, hs.headerFile, hs.trace⟩

theorem onWire_agree {p : Program Halt (Wire σ) α} (h : Stable (WireAlike N) p) :
    Stable (Indistinct N) (onWire p) := onWire_coupled h

theorem log_agree (call : LogCall) : Stable (Indistinct N) (log call) :=
  Agree.modify fun _ _ hs => ⟨⟨hs.wire.net, congrArg (· ++ [call]) hs.wire.log⟩, hs.weeder,
    hs.status, hs.headerFile, hs.trace⟩

/-- The same event was recorded, but for the password. -/
theorem Indistinct.record {s t : World σ} (hs : Indistinct N s t) {e e' : Event}
    (he : e.hidden = e'.hidden) : Indistinct N (s.record e) (t.record e') where
  wire := hs.wire
  weeder := hs.weeder
  status := hs.status
  headerFile := hs.headerFile
  trace := by simp [World.record, hs.trace, he]

/-- An event is recorded, and a value is passed on. -/
theorem record_agree {e : World σ → Event} (he : ∀ s t, Indistinct N s t → e s = e t) (a : α) :
    Stable (Indistinct N) (do modify fun s => s.record (e s); pure a : Run σ α) :=
  Agree.bind (Agree.modify fun s t hs => hs.record (congrArg Event.hidden (he s t hs))) fun _ =>
    Agree.pure a

theorem weed_agree (hdr : Header) : Stable (Indistinct N) (weed env hdr) := by
  refine Agree.step (fun _ => rfl) (fun _ => rfl) fun s t hs => ?_
  refine ⟨by rw [hs.weeder], ⟨⟨hs.wire.net, ?_⟩, ?_, hs.status, hs.headerFile, ?_⟩⟩
  · simp only [hs.weeder, hs.wire.log]
  · simp only [hs.weeder]
  · simp only [List.map_append, hs.trace, hs.weeder]

theorem printHeader_agree (msg : Bytes) :
    Stable (Indistinct N) (printHeader env msg) := by
  intro s t hs
  simp only [printHeader, exec_step, hs.headerFile]
  split_ifs
  · exact ⟨rfl, hs.wire, hs.weeder, hs.status, rfl, hs.trace⟩
  · exact ⟨rfl, hs.wire, hs.weeder, hs.status, rfl, hs.trace⟩

section Discreet

variable (h : ∀ sock, (conns sock).Discreet N) (hc : conn.Discreet N)

include h in
theorem cOpen_agree (sock : ℕ) (host : Bytes) (port : ℤ) (timeOut : Int32) (protocol : ℕ) :
    Stable (Indistinct N) (cOpen conns sock host port timeOut protocol) :=
  (onWire_agree ((h sock).cOpen host port timeOut protocol)).bind fun ret =>
    record_agree (fun _ _ _ => rfl) ret

include h in
theorem cClose_agree (sock : ℕ) : Stable (Indistinct N) (cClose conns sock) :=
  (onWire_agree (h sock).cClose).bind fun ret => record_agree (fun _ _ _ => rfl) ret

include hc

theorem reply_agree : Stable (Indistinct N) (reply conn) := by
  refine (Agree.gets fun _ _ hs => hc.cReply _ _ hs.wire.net).bind fun r => ?_
  cases r with
  | none => exact Agree.throw _
  | some r => exact Agree.pure r

theorem cRead_agree (header : Bool) :
    Stable (Indistinct N) (cRead conn header) :=
  (onWire_agree (hc.cRead header)).bind fun ret => record_agree
    (fun _ _ hs => congrArg (Event.read header ret) (hc.cReply _ _ hs.wire.net)) ret

/-- A message is written; its password is no one's business. -/
theorem cWrite_coupled {msg msg' : Bytes} (hmsg : hidePass msg = hidePass msg') :
    Coupled (Indistinct N) (cWrite conn msg) (cWrite conn msg')
      (fun n m s t => SameSign n m ∧ Indistinct N s t) (fun e e' s t => e = e' ∧ Indistinct N s t) :=
  Coupled.bind (Agree.modify fun _ _ hs => hs.record (congrArg Event.write hmsg)) fun _ _ =>
    Coupled.of_fact fun _ => onWire_coupled (hc.cWrite msg msg' hmsg)

theorem replyOk_agree (header : Bool) :
    Stable (Indistinct N) (replyOk conn header) := by
  refine (cRead_agree hc header).bind fun ret => Agree.ite ?_ (Agree.pure _)
  refine (Agree.gets fun _ _ hs => hc.cReply _ _ hs.wire.net).bind fun r => ?_
  cases r with
  | none => exact Agree.pure _
  | some r => exact Agree.pure _

/-- What is done after a message was written, unless that failed. -/
theorem written_agree {msg msg' : Bytes} (hmsg : hidePass msg = hidePass msg') {p q : Run σ α}
    (hp : Stable (Indistinct N) p) (hq : Stable (Indistinct N) q) :
    Agree (Indistinct N) (do if (← cWrite conn msg) = -1 then p else q)
      (do if (← cWrite conn msg') = -1 then p else q) :=
  Coupled.bind (cWrite_coupled hc hmsg) fun _ _ => Coupled.of_fact fun hsign =>
    Coupled.ite hsign.2 hp hq

theorem commandOk_agree (header : Bool) {msg msg' : Bytes} (hmsg : hidePass msg = hidePass msg') :
    Agree (Indistinct N) (commandOk conn header msg) (commandOk conn header msg') :=
  written_agree hc hmsg (Agree.pure _) (replyOk_agree hc header)

/-- The login with another password. -/
theorem login_agree (usr pass pass' : Bytes) :
    Agree (Indistinct N) (login conn usr pass) (login conn usr pass') := by
  refine (cRead_agree hc false).bind fun _ => Agree.ite (Agree.pure _) ?_
  refine (commandOk_agree hc false rfl).bind fun _ =>
    Agree.ite ((log_agree _).bind fun _ => Agree.pure _) ?_
  refine (commandOk_agree hc false ?_).bind fun _ =>
    Agree.ite ((log_agree _).bind fun _ => Agree.pure _) (Agree.pure _)
  rw [hidePass_passCommand, hidePass_passCommand]

theorem status_agree : Stable (Indistinct N) (status conn) := by
  refine written_agree hc rfl (Agree.pure _) ((replyOk_agree hc false).bind fun _ => ?_)
  exact Agree.ite (Agree.pure _) ((reply_agree hc).bind fun _ => Agree.pure _)

theorem logout_agree : Stable (Indistinct N) (logout conn) := by
  refine Coupled.bind (cWrite_coupled hc rfl) fun n m => Coupled.of_fact fun hsign => ?_
  refine Coupled.pure fun s t hs => ⟨?_, hs⟩
  simp [hsign.2]

theorem removeMsg_agree (i : ℕ) : Stable (Indistinct N) (removeMsg conn env i) := by
  unfold removeMsg
  refine Agree.ite ((log_agree _).bind fun _ => Agree.pure _) ?_
  refine Coupled.bind (cWrite_coupled hc rfl) fun n m => Coupled.of_fact fun hsign => ?_
  refine Coupled.pure fun s t hs => ⟨?_, hs⟩
  simp [hsign.2]

theorem judge_agree (i : ℕ) (msgNo : Bytes) (size : Int32) :
    Stable (Indistinct N) (judge conn env i msgNo size) := by
  have hshow : Stable (Indistinct N) (showHeader conn env) := by
    unfold showHeader
    refine Agree.ite ((reply_agree hc).bind fun _ => (printHeader_agree _).bind fun _ => ?_)
      (Agree.pure _)
    exact Agree.ite (log_agree _) (Agree.pure _)
  have hdispose (hdr : Header) :
      Stable (Indistinct N) (dispose conn env i hdr) :=
    (weed_agree hdr).bind fun _ =>
      Agree.ite ((removeMsg_agree hc i).bind fun _ => Agree.pure _) (Agree.pure _)
  refine hshow.bind fun _ => (reply_agree hc).bind fun r => ?_
  dsimp only
  split
  · exact Agree.throw _
  · refine (Agree.forM log_agree _).bind fun _ => Agree.ite ?_ ?_
    · exact (log_agree _).bind fun _ => Agree.pure _
    · exact (hdispose _).bind fun _ => Agree.pure _

theorem examine_agree (i : ℕ) (msgNo : Bytes) :
    Stable (Indistinct N) (examine conn env i msgNo) := by
  refine (commandOk_agree hc false rfl).bind fun _ =>
    Agree.ite ((log_agree _).bind fun _ => Agree.pure _) ?_
  refine (reply_agree hc).bind fun _ => (commandOk_agree hc true rfl).bind fun _ =>
    Agree.ite ((log_agree _).bind fun _ => Agree.pure _) (judge_agree hc i _ _)

theorem scanFrom_agree (k i : ℕ) (msgNo : Bytes) :
    Stable (Indistinct N) (scanFrom conn env k i msgNo) := by
  induction k generalizing i msgNo with
  | zero => exact Agree.pure _
  | succ k ih =>
    exact (examine_agree hc i _).bind fun _ =>
      Agree.ite (Agree.pure _) (Agree.ite (Agree.throw _) (ih (i + 1) []))

theorem scan_agree : Stable (Indistinct N) (scan conn env) :=
  (status_agree hc).bind fun _ =>
    Agree.ite ((log_agree _).bind fun _ => Agree.pure _) (scanFrom_agree hc _ _ _)

end Discreet

/-! ### Accounts -/

/-- The same account, but for the password. -/
def Account.Repassed (a b : Account) : Prop := ∃ pass, b = { a with passwd := pass }

/-- The account does not log in with a digest. -/
def Account.Plain (a : Account) : Prop := ∀ proto ∈ a.proto, proto.cls = .pop3

section Sessions

variable (h : ∀ sock, (conns sock).Discreet N)

include h

/-- The ways out after an error. -/
theorem failed_agree (call : LogCall) (sock psock : ℕ) :
    Stable (Indistinct N) (do
      log call
      let _ ← logout (conns psock)
      let _ ← cClose conns sock
      pure genFailureFlag) :=
  (log_agree call).bind fun _ => (logout_agree (h psock)).bind fun _ =>
    (cClose_agree h sock).bind fun _ => Agree.pure _

/-- **The session** with another password. -/
theorem session_agree (a : Account) (pass : Bytes) (sock psock : ℕ) {proto : Protocol}
    (hproto : proto.cls = .pop3) :
    Agree (Indistinct N) (a.session conns env sock proto psock)
      (Account.session conns env { a with passwd := pass } sock proto psock) := by
  have hlogin : Agree (Indistinct N) (proto.login (conns psock) env (cstr a.usr) (cstr a.passwd))
      (proto.login (conns psock) env (cstr a.usr) (cstr pass)) := by
    unfold Protocol.login
    rw [hproto]
    exact login_agree (h psock) _ _ _
  refine (cOpen_agree h sock _ _ _ _).bind fun _ =>
    Agree.ite ((log_agree _).bind fun _ => Agree.pure _) ?_
  refine hlogin.bind fun _ => Agree.ite
    ((log_agree _).bind fun _ => (cClose_agree h sock).bind fun _ => Agree.pure _) ?_
  refine (status_agree (h psock)).bind fun messages =>
    Agree.ite (failed_agree h _ sock psock) ((log_agree _).bind fun _ => ?_)
  refine (scan_agree (h psock)).bind fun _ => Agree.ite (failed_agree h _ sock psock) ?_
  have hrecount : Stable (Indistinct N) (recount (conns psock) env messages) :=
    Agree.ite (status_agree (h psock)) (Agree.pure _)
  refine hrecount.bind fun messages => Agree.ite (failed_agree h _ sock psock) ?_
  refine Agree.bind (Agree.modify fun s t hs => ⟨hs.wire, hs.weeder, ?_, hs.headerFile, hs.trace⟩)
    fun _ => ?_
  · exact congrArg (· + messages) hs.status
  · exact (logout_agree (h psock)).bind fun _ => Agree.ite
      ((cClose_agree h sock).bind fun _ => Agree.pure _) (Agree.pure _)

theorem check_agree {a b : Account} (hplain : a.Plain) (hab : a.Repassed b) :
    Agree (Indistinct N) (a.check conns env) (b.check conns env) := by
  obtain ⟨pass, rfl⟩ := hab
  have hsession (sock psock : ℕ) (proto : Protocol) (hproto : a.proto = some proto) :
      Agree (Indistinct N) (a.session conns env sock proto psock)
        (Account.session conns env { a with passwd := pass } sock proto psock) :=
    session_agree h a pass sock psock (hplain proto hproto)
  unfold Account.check
  dsimp only
  generalize a.conn = conn
  generalize a.proto = proto at hsession
  match conn, proto with
  | none, _ => exact Agree.throw _
  | some sock, none => exact Agree.throw _
  | some sock, some proto =>
    dsimp only
    cases proto.conn with
    | none => exact Agree.throw _
    | some psock => exact hsession sock psock proto rfl

/-- **All sessions** with other passwords. -/
theorem checkAccounts_agree {accounts accounts' : List Account}
    (hplain : ∀ a ∈ accounts, a.Plain) (ha : List.Forall₂ Account.Repassed accounts accounts')
    (returnVal : ℤ) : Agree (Indistinct N) (checkAccounts conns env accounts returnVal)
      (checkAccounts conns env accounts' returnVal) := by
  induction ha generalizing returnVal with
  | nil => exact Agree.pure _
  | cons hab _ ih =>
    have ih := ih fun a ha => hplain a (List.mem_cons_of_mem _ ha)
    have hcheck : Agree (Indistinct N) (Account.check conns env _) (Account.check conns env _) :=
      check_agree h (hplain _ List.mem_cons_self) hab
    obtain ⟨pass, rfl⟩ := hab
    refine (log_agree _).bind fun _ => hcheck.bind fun _ => Agree.ite ?_ (ih _)
    exact (log_agree _).bind fun _ => ih _

end Sessions

end Calls

/-! ### Sockets -/

/-- A call of the system gives the same from states that look alike. -/
def Uniform (r : ω → ω → Prop) (f : ω → α × ω) : Prop :=
  ∀ s t, r s t → (f s).1 = (f t).1 ∧ r (f s).2 (f t).2

/-- The system does not make a difference between passwords, as far as this can be seen. -/
structure Os.Discreet (os : Os ω) (r : ω → ω → Prop) : Prop where
  openCall : ∀ call, Uniform r (os.openCall call)
  close : Uniform r os.close
  sslShutdown : ∀ s t, r s t → r (os.sslShutdown s) (os.sslShutdown t)
  sslSet : ∀ s t, r s t → os.sslSet s = os.sslSet t
  getFlags : Uniform r os.getFlags
  setFlags : ∀ flags, Uniform r (os.setFlags flags)
  select : ∀ timeOut, Uniform r (os.select timeOut)
  recv : Uniform r os.recv
  sslRead : Uniform r os.sslRead
  write : ∀ msg msg', hidePass msg = hidePass msg' → ∀ s t, r s t →
    SameSign (os.write msg s).1 (os.write msg' t).1 ∧ r (os.write msg s).2 (os.write msg' t).2
  sslWrite : ∀ msg msg', hidePass msg = hidePass msg' → ∀ s t, r s t →
    SameSign (os.sslWrite msg s).1 (os.sslWrite msg' t).1 ∧
      r (os.sslWrite msg s).2 (os.sslWrite msg' t).2
  strerror : ∀ s t, r s t → os.strerror s = os.strerror t

namespace Socket

/-- Sockets that look alike. -/
structure SameSocket (r : ω → ω → Prop) (x y : Socket ω) : Prop where
  os : r x.os y.os
  timeOut : x.timeOut = y.timeOut
  readBuffer : x.readBuffer = y.readBuffer
  sslUsed : x.sslUsed = y.sslUsed

variable {os : Os ω} {r : ω → ω → Prop}

theorem sys_agree {f : ω → α × ω} (hf : Uniform r f) :
    Stable (WireAlike (SameSocket r)) (sys f) :=
  Agree.step (fun _ => rfl) (fun _ => rfl) fun _ _ hw =>
    ⟨(hf _ _ hw.net.os).1, ⟨⟨(hf _ _ hw.net.os).2, hw.net.timeOut, hw.net.readBuffer,
      hw.net.sslUsed⟩, hw.log⟩⟩

theorem say_agree (call : LogCall) :
    Stable (WireAlike (SameSocket r)) (say call) :=
  Agree.modify fun _ _ hw => ⟨hw.net, congrArg (· ++ [call]) hw.log⟩

theorem sslUsed_agree : Stable (WireAlike (SameSocket r))
    (gets fun w => w.net.sslUsed : Call ω Bool) :=
  Agree.gets fun _ _ hw => hw.net.sslUsed

variable (h : os.Discreet r)

include h

theorem sysFailure_agree : Stable (WireAlike (SameSocket r)) (sysFailure os) :=
  (Agree.gets fun _ _ hw => h.strerror _ _ hw.net.os).bind fun _ =>
    (say_agree _).bind fun _ => Agree.pure _

theorem guarded_agree (call : OpenCall) {next : Bool → Call ω Int32}
    (hnext : ∀ ok, Stable (WireAlike (SameSocket r)) (next ok)) :
    Stable (WireAlike (SameSocket r)) (guarded os call next) := by
  refine (sys_agree (h.openCall call)).bind fun result => ?_
  cases result with
  | done ok => exact hnext ok
  | alarmed => exact (say_agree _).bind fun _ => Agree.pure _

theorem opened_agree : Stable (WireAlike (SameSocket r)) (opened os) :=
  (sys_agree (h.openCall _)).bind fun _ => Agree.pure _

theorem openFailure_agree (text : Bytes) :
    Stable (WireAlike (SameSocket r)) (openFailure os text) :=
  (say_agree _).bind fun _ => (sys_agree (h.openCall _)).bind fun _ => Agree.pure _

theorem negotiate_agree (hostName : Bytes) :
    Stable (WireAlike (SameSocket r)) (negotiate os hostName) := by
  refine guarded_agree h _ fun _ => Agree.ite ((say_agree _).bind fun _ => Agree.throw _) ?_
  refine guarded_agree h _ fun _ => Agree.ite ((say_agree _).bind fun _ => Agree.pure _) ?_
  exact guarded_agree h _ fun _ =>
    Agree.ite ((say_agree _).bind fun _ => Agree.pure _) (opened_agree h)

theorem cOpen_agree (hostName : Bytes) (port : ℤ) (newTimeOut : Int32) (protocol : ℕ) :
    Stable (WireAlike (SameSocket r)) (cOpen os hostName port newTimeOut protocol) := by
  have hconnect : Stable (WireAlike (SameSocket r))
      (guarded os .socket fun ok =>
        if !ok then openFailure os (bytes "DNS look up error; is the hostname correct?")
        else guarded os (.gethostbyname hostName) fun ok =>
          if !ok then openFailure os (bytes "DNS look up error; is the hostname correct?")
          else guarded os (.connect port) fun ok =>
            if !ok then openFailure os (bytes "Server connection could not be established.")
            else do
              if ← Program.gets fun w => w.net.sslUsed then negotiate os hostName
              else opened os) := by
    refine guarded_agree h _ fun _ => Agree.ite (openFailure_agree h _) ?_
    refine guarded_agree h _ fun _ => Agree.ite (openFailure_agree h _) ?_
    refine guarded_agree h _ fun _ => Agree.ite (openFailure_agree h _) ?_
    exact sslUsed_agree.bind fun _ => Agree.ite (negotiate_agree h hostName) (opened_agree h)
  refine Agree.bind (Agree.modify fun _ _ hw => ⟨⟨hw.net.os, rfl, hw.net.readBuffer,
    hw.net.sslUsed⟩, hw.log⟩) fun _ => (sys_agree (h.openCall _)).bind fun result => ?_
  have hfailed : Stable (WireAlike (SameSocket r)) (do
      say (printErr (bytes "Installation of signal handler failed."))
      pure (-1) : Call ω Int32) := (say_agree _).bind fun _ => Agree.pure _
  match result with
  | .alarmed => exact hfailed
  | .done false => exact hfailed
  | .done true =>
    refine guarded_agree h _ fun _ => Agree.ite ?_ ((say_agree _).bind fun _ => hconnect)
    refine (say_agree _).bind fun _ => Agree.bind (Agree.modify fun _ _ hw => ?_) fun _ => hconnect
    exact ⟨⟨hw.net.os, hw.net.timeOut, hw.net.readBuffer, rfl⟩, hw.log⟩

theorem cClose_agree : Stable (WireAlike (SameSocket r)) (cClose os) := by
  refine sslUsed_agree.bind fun _ => Agree.ite ?_ (sys_agree h.close)
  exact (sys_agree fun s t hs => ⟨rfl, h.sslShutdown s t hs⟩).bind fun _ => sys_agree h.close

/-- **`c_write`** with another password: the log has the same. -/
theorem cWrite_coupled {msg msg' : Bytes} (hmsg : hidePass msg = hidePass msg') :
    Coupled (WireAlike (SameSocket r)) (cWrite os msg) (cWrite os msg')
      (fun n m w w' => SameSign n m ∧ WireAlike (SameSocket r) w w')
      (fun e e' w w' => e = e' ∧ WireAlike (SameSocket r) w w') := by
  -- the end of the function
  have hlogged (n m : Int32) (hsign : SameSign n m) : Coupled (WireAlike (SameSocket r))
      (if !(bytes "PASS ").isPrefixOf (cstr msg) then do
        say (printMsg (bytes "Debugging: Wrote: " ++ cstr msg) 6)
        pure n
      else do
        say (printMsg (bytes "Debugging: Wrote: PASS *****") 6)
        pure n : Call ω Int32)
      (if !(bytes "PASS ").isPrefixOf (cstr msg') then do
        say (printMsg (bytes "Debugging: Wrote: " ++ cstr msg') 6)
        pure m
      else do
        say (printMsg (bytes "Debugging: Wrote: PASS *****") 6)
        pure m : Call ω Int32)
      (fun n m w w' => SameSign n m ∧ WireAlike (SameSocket r) w w')
      (fun e e' w w' => e = e' ∧ WireAlike (SameSocket r) w w') := by
    have hcut := hidePass_cstr hmsg
    have hpass := congrArg (bytes "PASS ").isPrefixOf hcut
    rw [isPrefixOf_hidePass, isPrefixOf_hidePass] at hpass
    unfold hidePass at hcut
    rw [← hpass] at hcut ⊢
    cases hcase : (bytes "PASS ").isPrefixOf (cstr msg) with
    | false =>
      rw [hcase, if_neg Bool.false_ne_true, if_neg Bool.false_ne_true] at hcut
      rw [hcut]
      exact Coupled.bind (say_agree _) fun _ _ => Coupled.of_fact fun _ =>
        Coupled.pure fun _ _ hw => ⟨hsign, hw⟩
    | true =>
      exact Coupled.bind (say_agree _) fun _ _ => Coupled.of_fact fun _ =>
        Coupled.pure fun _ _ hw => ⟨hsign, hw⟩
  have hsend (ssl : Bool) : Coupled (WireAlike (SameSocket r))
      (sys (if ssl then os.sslWrite (cstr msg) else os.write (cstr msg)))
      (sys (if ssl then os.sslWrite (cstr msg') else os.write (cstr msg')))
      (fun n m w w' => SameSign n m ∧ WireAlike (SameSocket r) w w')
      (fun e e' w w' => e = e' ∧ WireAlike (SameSocket r) w w') := by
    intro w w' hw
    have hnext : SameSign ((if ssl then os.sslWrite (cstr msg) else os.write (cstr msg)) w.net.os).1
        ((if ssl then os.sslWrite (cstr msg') else os.write (cstr msg')) w'.net.os).1 ∧
        r ((if ssl then os.sslWrite (cstr msg) else os.write (cstr msg)) w.net.os).2
        ((if ssl then os.sslWrite (cstr msg') else os.write (cstr msg')) w'.net.os).2 := by
      cases ssl with
      | true => exact h.sslWrite _ _ (hidePass_cstr hmsg) _ _ hw.net.os
      | false => exact h.write _ _ (hidePass_cstr hmsg) _ _ hw.net.os
    exact ⟨hnext.1, ⟨⟨hnext.2, hw.net.timeOut, hw.net.readBuffer, hw.net.sslUsed⟩, hw.log⟩⟩
  refine Coupled.bind sslUsed_agree fun ssl ssl' => Coupled.of_fact fun hssl => ?_
  subst hssl
  refine (hsend ssl).bind fun n m => Coupled.of_fact fun hsign => ?_
  refine Coupled.ite hsign.1 ?_ (hlogged n m hsign)
  refine Coupled.bind (Agree.gets fun _ _ hw => h.strerror _ _ hw.net.os) fun _ _ =>
    Coupled.of_fact fun htext => ?_
  subst htext
  exact Coupled.bind (say_agree _) fun _ _ => Coupled.of_fact fun _ => hlogged n m hsign

theorem receiveOnce_agree : Stable (WireAlike (SameSocket r)) (receiveOnce os) := by
  refine sslUsed_agree.bind fun _ => Agree.ite ?_ ((sys_agree h.recv).bind fun _ => Agree.pure _)
  refine Agree.bind (Agree.gets fun _ _ hw => h.sslSet _ _ hw.net.os) fun _ => Agree.ite ?_
    ((say_agree _).bind fun _ => Agree.pure _)
  refine (sys_agree h.sslRead).bind fun received => ?_
  obtain ⟨c, error⟩ := received
  cases error with
  | none => exact Agree.pure _
  | _ => exact (say_agree _).bind fun _ => Agree.pure _

theorem receive_agree (readHeader : Bool) (fuel : ℕ) (input : Bytes) :
    Stable (WireAlike (SameSocket r)) (receive os readHeader fuel input) := by
  induction fuel generalizing input with
  | zero => exact Agree.throw _
  | succ fuel ih =>
    refine (receiveOnce_agree h).bind fun received => ?_
    cases received with
    | failure => exact Agree.pure _
    | chunk c =>
      refine Agree.ite (ih _) (Agree.ite (Agree.pure _) ?_)
      cases headerOpen input with
      | none => exact Agree.throw _
      | some isOpen =>
        cases isOpen with
        | true => exact ih input
        | false => exact Agree.pure _

theorem cRead_agree (fuel : ℕ) (readHeader : Bool) :
    Stable (WireAlike (SameSocket r)) (cRead os fuel readHeader) := by
  refine (sys_agree h.getFlags).bind fun flags => ?_
  cases flags with
  | none => exact sysFailure_agree h
  | some flags =>
    refine (sys_agree (h.setFlags _)).bind fun _ => Agree.ite (sysFailure_agree h) ?_
    refine Agree.bind (Agree.gets fun _ _ hw => hw.net.timeOut) fun timeOut => ?_
    refine (sys_agree (h.select timeOut)).bind fun selected => ?_
    match selected with
    | .error => exact sysFailure_agree h
    | .timedOut => exact (say_agree _).bind fun _ => Agree.pure _
    | .ready false => exact Agree.pure _
    | .ready true =>
      refine (receive_agree h readHeader fuel []).bind fun received => ?_
      cases received with
      | none => exact Agree.pure _
      | some input =>
        refine Agree.ite (Agree.throw _) ((say_agree _).bind fun _ => ?_)
        refine (sys_agree (h.setFlags _)).bind fun _ => Agree.ite (sysFailure_agree h) ?_
        refine Agree.bind (Agree.modify fun _ _ hw => ?_) fun _ => Agree.pure _
        exact ⟨⟨hw.net.os, hw.net.timeOut, rfl, hw.net.sslUsed⟩, hw.log⟩

end Socket

/-- Networks that look alike: the same sockets, over systems that look alike. -/
def SameNet (r : ω → ω → Prop) (net net' : Net ω) : Prop :=
  r net.os net'.os ∧ net.members = net'.members

section Network

variable {os : ℕ → Os ω} {r : ω → ω → Prop}

/-- A member function of a socket. -/
theorem onSocket_coupled {sock : ℕ} {p q : Socket.Call ω α} {V : α → α → Prop}
    (h : Coupled (WireAlike (Socket.SameSocket r)) p q
      (fun a a' w w' => V a a' ∧ WireAlike (Socket.SameSocket r) w w')
      (fun e e' w w' => e = e' ∧ WireAlike (Socket.SameSocket r) w w')) :
    Coupled (WireAlike (SameNet r)) (onSocket sock p) (onSocket sock q)
      (fun a a' w w' => V a a' ∧ WireAlike (SameNet r) w w')
      (fun e e' w w' => e = e' ∧ WireAlike (SameNet r) w w') := by
  refine Coupled.onPart h (fun w w' hw => ?_) fun w w' x y hw hx => ?_
  · refine ⟨⟨hw.net.1, ?_, ?_, ?_⟩, hw.log⟩ <;> simp only [Net.socket, hw.net.2]
  · refine ⟨⟨hx.net.os, ?_⟩, hx.log⟩
    simp only [Net.put, hw.net.2, hx.net.timeOut, hx.net.readBuffer, hx.net.sslUsed]

/-- **The sockets are discreet**, over a system that is. -/
theorem networked_discreet (h : ∀ sock, (os sock).Discreet r) (fuel sock : ℕ) :
    (networked os fuel sock).Discreet (SameNet r) where
  cOpen _ _ _ _ := onSocket_coupled (Socket.cOpen_agree (h sock) _ _ _ _)
  cClose := onSocket_coupled (Socket.cClose_agree (h sock))
  cRead header := onSocket_coupled (Socket.cRead_agree (h sock) fuel header)
  cWrite _ _ hmsg := onSocket_coupled (Socket.cWrite_coupled (h sock) hmsg)
  cReply net net' hnet := by
    show (net.members sock).readBuffer = (net'.members sock).readBuffer
    rw [hnet.2]

end Network

end Mailfilter
