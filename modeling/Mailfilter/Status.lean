import Mailfilter.DryRun
import Mailfilter.Main
import Mailfilter.Pairing

/-!
# The exit status

With `-r` the program returns the number of messages on all servers, and the shell sees its last
eight bits.

* `Account.examined`, the session up to the count after the scan, and `conclude`, the rest of it;
  `session_eq`: together they are the session;
* `Outcome`, what the check of an account came to, with the server's reply to the last `STAT` and what
  was read as that reply, and `outcomes`, the loop over the accounts with all outcomes kept;
  `checkAccounts_eq`: it is the loop of `main`;
* `main_status`: the value that `main` returns;
* `exit_status_iff`: when the exit status tells the truth.
-/

namespace Mailfilter

open Pop3 Program

variable {σ : Type} {conns : ℕ → Connection σ} {env : Env}

/-! ### The two halves of a session -/

/-- The session up to the count of the messages after the scan; none, if the session fails before. -/
def Account.examined (conns : ℕ → Connection σ) (env : Env) (a : Account) (sock : ℕ)
    (proto : Protocol) (psock : ℕ) : Run σ (Option Int32) := do
  let pconn := conns psock
  let port := (Int32.ofInt a.port).toInt
  let opened ← cOpen conns sock (cstr a.server) port env.prefs.timeOut proto.ident
  if opened ≠ 0 then do
    log (printErr (bytes "Could not establish network connection."))
    pure none
  else if !(← proto.login pconn env (cstr a.usr) (cstr a.passwd)) then do
    log (printErr (bytes "Server login failure."))
    let _ ← cClose conns sock
    pure none
  else do
    let messages ← status pconn
    if messages < 0 then do
      log (printErr (bytes "Could not determine mailbox status."))
      let _ ← logout pconn
      let _ ← cClose conns sock
      pure none
    else do
      log (printMsg (bytes "Examining " ++ intToString messages.toInt ++ bytes " message(s).") 3)
      if (← scan pconn env) < 0 then do
        log (printErr (bytes "Scanning of mail account failed."))
        let _ ← logout pconn
        let _ ← cClose conns sock
        pure none
      else do
        let messages ← recount pconn env messages
        if env.prefs.returnStatus && messages < 0 then do
          log (printErr (bytes "Could not determine mailbox status."))
          let _ ← logout pconn
          let _ ← cClose conns sock
          pure none
        else pure (some messages)

/-- The rest of the session: the number is added up, and the server is left. -/
def conclude (conns : ℕ → Connection σ) (psock sock : ℕ) : Option Int32 → Run σ ℤ
  | none => pure genFailureFlag
  | some messages => do
    modify fun w => { w with mailboxStatus := w.mailboxStatus + messages }
    if ← logout (conns psock) then do
      let closed ← cClose conns sock
      pure (if closed = 0 then 0 else genFailureFlag)
    else pure genFailureFlag

theorem session_eq (a : Account) (sock : ℕ) (proto : Protocol) (psock : ℕ) :
    a.session conns env sock proto psock =
      a.examined conns env sock proto psock >>= conclude conns psock sock := by
  unfold Account.session Account.examined
  simp only [bind_assoc]
  refine bind_congr fun opened => ?_
  split
  · simp only [bind_assoc, pure_bind, conclude]
  simp only [bind_assoc]
  refine bind_congr fun ok => ?_
  split
  · simp only [bind_assoc, pure_bind, conclude]
  simp only [bind_assoc]
  refine bind_congr fun messages => ?_
  split
  · simp only [bind_assoc, pure_bind, conclude]
  simp only [bind_assoc]
  refine bind_congr fun _ => bind_congr fun scanned => ?_
  split
  · simp only [bind_assoc, pure_bind, conclude]
  simp only [bind_assoc]
  refine bind_congr fun messages => ?_
  split
  · simp only [bind_assoc, pure_bind, conclude]
  · simp only [pure_bind, conclude]

/-! ### Outcomes -/

/-- The count after the scan: what was read as the reply to the `STAT`, and what the server replied
to it. -/
structure Count where
  read : Bytes
  reply : Bytes
  deriving DecidableEq

/-- What the check of an account came to: what it returned, and the count, if it came to that. -/
structure Outcome where
  status : ℤ
  count : Option Count
  deriving DecidableEq

/-- The count of a session that began with event number `start`. -/
def lastCount (conn : Connection σ) (answer : List Bytes → Bytes) (start : ℕ)
    (messages : Option Int32) : Run σ (Option Count) :=
  Program.gets fun w => messages.map fun _ =>
    ⟨(conn.cReply w.wire.net).getD [], answer (written (w.trace.drop start))⟩

/-- `Account::check`, with its outcome; the servers are given by their replies to the commands of a
session. -/
def Account.outcome (servers : ℕ → List Bytes → Bytes) (conns : ℕ → Connection σ) (env : Env)
    (a : Account) : Run σ Outcome :=
  match a.conn, a.proto with
  | some sock, some proto =>
    match proto.conn with
    | some psock => do
      let start ← Program.gets fun w => w.trace.length
      let messages ← a.examined conns env sock proto psock
      let count ← lastCount (conns psock) (servers psock) start messages
      let status ← conclude conns psock sock messages
      pure ⟨status, count⟩
    | none => throw .undefined
  | _, _ => throw .undefined

/-- The loop over the accounts, with all outcomes. -/
def outcomes (servers : ℕ → List Bytes → Bytes) (conns : ℕ → Connection σ) (env : Env) :
    List Account → Run σ (List Outcome)
  | [] => pure []
  | a :: accounts => do
    log (printMsg (packageVersion ++ bytes " querying " ++ a.usr ++ bytes "@" ++ a.server ++
      bytes ".") 3)
    let o ← a.outcome servers conns env
    if o.status ≠ 0 then do
      log (printErr (bytes "Skipping account " ++ a.usr ++ bytes "@" ++ a.server ++
        bytes " due to earlier errors."))
      let os ← outcomes servers conns env accounts
      pure (o :: os)
    else do
      let os ← outcomes servers conns env accounts
      pure (o :: os)

/-- The number of messages in a reply to `STAT`. -/
def announced (reply : Bytes) : ℤ := (atoi (secondWord (cstr reply))).toInt

/-- The number of messages that the server reported after the scan. -/
def Outcome.reported (o : Outcome) : ℤ := o.count.elim 0 fun c => announced c.reply

/-- The number in what was read as the server's reply. -/
def Outcome.readOff (o : Outcome) : ℤ := o.count.elim 0 fun c => announced c.read

/-- What was read as the reply to the `STAT` is the server's reply to it. -/
def Outcome.Answered (o : Outcome) : Prop := ∀ c ∈ o.count, c.read = c.reply

instance (o : Outcome) : Decidable o.Answered :=
  inferInstanceAs (Decidable (∀ c ∈ o.count, _))

/-- Every account was checked without an error. -/
def AllChecked (os : List Outcome) : Prop := ∀ o ∈ os, o.status = 0

instance (os : List Outcome) : Decidable (AllChecked os) :=
  inferInstanceAs (Decidable (∀ o ∈ os, _))

/-- The number of messages that the servers reported. -/
def reportedTotal (os : List Outcome) : ℤ := (os.map Outcome.reported).sum

/-- The total of the numbers that were read. -/
def readTotal (os : List Outcome) : ℤ := (os.map Outcome.readOff).sum

theorem readTotal_of_answered {os : List Outcome} (h : ∀ o ∈ os, o.Answered) :
    readTotal os = reportedTotal os := by
  have hread : ∀ o ∈ os, o.readOff = o.reported := by
    intro o ho
    unfold Outcome.readOff Outcome.reported
    cases hcount : o.count with
    | none => simp only [Option.elim_none]
    | some c =>
      have hreply : c.read = c.reply := h o ho c hcount
      simp only [Option.elim_some, hreply]
  rw [readTotal, reportedTotal, List.map_congr_left hread]

variable {servers : ℕ → List Bytes → Bytes}

theorem check_eq (a : Account) :
    a.check conns env = a.outcome servers conns env >>= fun o => pure o.status := by
  unfold Account.check Account.outcome
  rcases a.conn with _ | sock
  · rfl
  rcases a.proto with _ | proto
  · rfl
  rcases hconn : proto.conn with _ | psock
  · simp only [hconn]
    rfl
  · simp only [hconn, session_eq, lastCount, bind_assoc, pure_bind, bind_pure, gets_bind_const]

/-- The loop of `main` returns −1 if some outcome is an error. -/
theorem checkAccounts_eq (accounts : List Account) (returnVal : ℤ) :
    checkAccounts conns env accounts returnVal =
      outcomes servers conns env accounts >>= fun os => pure (if AllChecked os then returnVal else -1) := by
  induction accounts generalizing returnVal with
  | nil => simp [checkAccounts, outcomes, AllChecked]
  | cons a accounts ih =>
    simp only [checkAccounts, outcomes, @check_eq σ conns env servers, bind_assoc, pure_bind]
    refine bind_congr fun _ => bind_congr fun o => ?_
    split
    case isTrue hbad =>
      simp only [ih, bind_assoc, pure_bind]
      refine bind_congr fun _ => bind_congr fun os => ?_
      have hno : ¬ AllChecked (o :: os) := fun h => hbad (h o (List.mem_cons_self ..))
      rw [if_neg hno, ite_self]
    case isFalse hok =>
      simp only [ih, bind_assoc, pure_bind]
      refine bind_congr fun os => ?_
      have hall : AllChecked (o :: os) ↔ AllChecked os := by
        rw [AllChecked, List.forall_mem_cons, not_not.1 hok]
        exact and_iff_right rfl
      simp only [hall]

/-! ### What is added up -/

section Invariants

variable {conn : Connection σ} {m : Int32}

/-- The number added up so far. -/
def Holds (m : Int32) (w : World σ) : Prop := w.mailboxStatus = m

theorem onWire_holds {α : Type} (p : Program Halt (Wire σ) α) :
    Preserves (Holds m) (onWire p) :=
  onWire_preserves (fun _ _ hs => hs) p

theorem cOpen_holds (sock : ℕ) (host : Bytes) (port : ℤ) (timeOut : Int32) (protocol : ℕ) :
    Preserves (Holds m) (cOpen conns sock host port timeOut protocol) :=
  (onWire_holds _).bind fun ret => record_preserves (fun _ hs => hs) ret

theorem cClose_holds (sock : ℕ) : Preserves (Holds m) (cClose conns sock) :=
  (onWire_holds _).bind fun ret => record_preserves (fun _ hs => hs) ret

/-- The number is nobody's but that of the loop. -/
theorem keeps_holds : Keeps conn env (fun _ => True) (Holds m) :=
  Keeps.of_blind (fun _ _ _ hs => hs) (fun _ _ _ _ hs => hs) (fun _ _ _ hs => hs)
    fun _ _ _ _ _ hs => hs

theorem report_holds {α : Type} {p : Run σ α} (call : LogCall) (hp : Preserves (Holds m) p) :
    Preserves (Holds m) (do log call; p) :=
  logged_preserves (fun _ _ _ hs => hs) call hp

/-- Up to the count after the scan nothing is added. -/
theorem examined_holds (a : Account) (sock : ℕ) (proto : Protocol) (psock : ℕ) :
    Preserves (Holds m) (a.examined conns env sock proto psock) := by
  have hk : Keeps (conns psock) env (fun _ => True) (Holds m) := keeps_holds
  have hs := Speech.trivial env (cstr a.usr) (cstr a.passwd)
  have hleave : Preserves (Holds m) (do
      let _ ← logout (conns psock)
      let _ ← cClose conns sock
      pure none : Run σ (Option Int32)) :=
    (hk.logout hs.quit).bind fun _ => (cClose_holds sock).bind fun _ => Preserves.pure _
  refine (cOpen_holds _ _ _ _ _).bind fun _ =>
    Preserves.ite (report_holds _ (Preserves.pure _)) ?_
  refine (hk.login proto hs).bind fun _ =>
    Preserves.ite (report_holds _ ((cClose_holds sock).bind fun _ => Preserves.pure _)) ?_
  refine (hk.status hs.stat).bind fun _ => Preserves.ite (report_holds _ hleave) (report_holds _ ?_)
  refine (hk.scan hs).bind fun _ => Preserves.ite (report_holds _ hleave) ?_
  exact (hk.recount hs.stat _).bind fun _ => Preserves.ite (report_holds _ hleave) (Preserves.pure _)

/-- A count is the number in the reply that was read last. -/
theorem status_readOff : Triple (fun _ => True) (status conn)
    (fun n s => ¬ n < 0 → ∃ r, conn.cReply s.wire.net = some r ∧ n = atoi (secondWord (cstr r)))
    (fun _ _ => True) := by
  have hfail : Triple (fun _ => True) (pure (-1) : Run σ Int32)
      (fun n s => ¬ n < 0 → ∃ r, conn.cReply s.wire.net = some r ∧ n = atoi (secondWord (cstr r)))
      (fun _ _ => True) := Triple.pure fun _ _ hneg => absurd (by decide) hneg
  refine (Triple.any _).bind fun sent => Triple.ite (fun _ => hfail) fun _ =>
    (Triple.any _).bind fun ok => Triple.ite (fun _ => hfail) fun _ => ?_
  refine Triple.bind (R := fun r s => conn.cReply s.wire.net = some r)
    (Triple.bind (R := fun o s => conn.cReply s.wire.net = o) (Triple.gets fun _ _ => rfl)
      fun o => ?_) fun r => Triple.pure fun s hs _ => ⟨r, hs, rfl⟩
  cases o with
  | none => exact Triple.throw fun _ _ => trivial
  | some r => exact Triple.pure fun _ hs => hs

/-- With `-r` the count is that of the second `STAT`. -/
theorem examined_counts (hret : env.prefs.returnStatus = true) (a : Account) (sock : ℕ)
    (proto : Protocol) (psock : ℕ) :
    Triple (fun _ => True) (a.examined conns env sock proto psock)
      (fun messages s => ∀ m ∈ messages, ∃ r, (conns psock).cReply s.wire.net = some r ∧
        m = atoi (secondWord (cstr r)))
      (fun _ _ => True) := by
  have hnone {P : World σ → Prop} : Triple P (pure none : Run σ (Option Int32))
      (fun messages s => ∀ m ∈ messages, ∃ r, (conns psock).cReply s.wire.net = some r ∧
        m = atoi (secondWord (cstr r))) (fun _ _ => True) :=
    Triple.pure fun _ _ _ hm => nomatch hm
  refine (Triple.any _).bind fun opened =>
    Triple.ite (fun _ => (Triple.any _).bind fun _ => hnone) fun _ => ?_
  refine (Triple.any _).bind fun ok => Triple.ite (fun _ => (Triple.any _).bind fun _ =>
    (Triple.any _).bind fun _ => hnone) fun _ => ?_
  have hleave {P : World σ → Prop} (call : LogCall) : Triple P (do
      log call
      let _ ← logout (conns psock)
      let _ ← cClose conns sock
      pure none : Run σ (Option Int32))
      (fun messages s => ∀ m ∈ messages, ∃ r, (conns psock).cReply s.wire.net = some r ∧
        m = atoi (secondWord (cstr r))) (fun _ _ => True) :=
    (Triple.any _).bind fun _ => (Triple.any _).bind fun _ => (Triple.any _).bind fun _ => hnone
  refine (Triple.any _).bind fun messages => Triple.ite (fun _ => hleave _) fun _ => ?_
  refine (Triple.any _).bind fun _ => (Triple.any _).bind fun scanned =>
    Triple.ite (fun _ => hleave _) fun _ => ?_
  have hrecount : recount (conns psock) env messages = status (conns psock) := if_pos hret
  rw [hrecount]
  refine status_readOff.bind fun n => Triple.ite (fun _ => hleave _) fun hneg =>
    Triple.pure fun s hs m hm => ?_
  obtain rfl := Option.some.inj hm
  rw [hret, Bool.true_and] at hneg
  exact hs (by simpa using hneg)

/-- The rest of a session adds the count. -/
theorem conclude_adds (env : Env) (sock psock : ℕ) (messages : Option Int32) :
    Triple (Holds m) (conclude conns psock sock messages)
      (fun _ => Holds (m + Int32.ofInt (messages.elim 0 Int32.toInt))) (fun _ _ => True) := by
  rcases messages with _ | messages
  · exact Triple.pure fun s hs => hs.trans (Int32.add_zero m).symm
  · have hk : Keeps (conns psock) env (fun _ => True) (Holds (m + messages)) := keeps_holds
    refine Triple.bind (R := fun _ => Holds (m + messages)) (Triple.modify fun s hs => ?_) fun _ => ?_
    · show s.mailboxStatus + messages = m + messages
      rw [hs]
    · have hend : Preserves (Holds (σ := σ) (m + messages)) (do
          if ← logout (conns psock) then do
            let closed ← cClose conns sock
            pure (if closed = 0 then 0 else genFailureFlag)
          else pure genFailureFlag) :=
        (hk.logout trivial).bind fun _ => Preserves.ite
          ((cClose_holds sock).bind fun _ => Preserves.pure _) (Preserves.pure _)
      show Triple _ _ (fun _ => Holds (m + Int32.ofInt messages.toInt)) _
      rw [Int32.ofInt_toInt]
      exact hend.errors fun _ _ _ => trivial

/-- An account adds what was read as the server's count. -/
theorem outcome_adds (hret : env.prefs.returnStatus = true) (a : Account) :
    Triple (Holds m) (a.outcome servers conns env) (fun o => Holds (m + Int32.ofInt o.readOff))
      (fun _ _ => True) := by
  unfold Account.outcome
  rcases a.conn with _ | sock
  · exact Triple.throw fun _ _ => trivial
  rcases a.proto with _ | proto
  · exact Triple.throw fun _ _ => trivial
  rcases hconn : proto.conn with _ | psock
  · simp only [hconn]
    exact Triple.throw fun _ _ => trivial
  simp only [hconn]
  refine Triple.bind (R := fun _ => Holds m) (Triple.gets fun _ hs => hs) fun start => ?_
  refine Triple.bind (R := fun messages s => Holds m s ∧ ∀ n ∈ messages, ∃ r,
      (conns psock).cReply s.wire.net = some r ∧ n = atoi (secondWord (cstr r)))
    (fun s hs => ⟨fun messages s' hrun => ⟨?_, ?_⟩, fun _ _ _ => trivial⟩) fun messages => ?_
  · exact ((examined_holds a sock proto psock) s hs).1 messages s' hrun
  · exact (examined_counts hret a sock proto psock s trivial).1 messages s' hrun
  refine Triple.bind (R := fun count s => messages.elim 0 Int32.toInt =
      (Outcome.mk 0 count).readOff ∧ Holds m s)
    (Triple.gets fun s hs => ⟨?_, hs.1⟩) fun count => Triple.of_fact fun hcount => ?_
  · cases messages with
    | none => rfl
    | some n =>
      obtain ⟨r, hreply, rfl⟩ := hs.2 n rfl
      simp [Outcome.readOff, hreply, announced]
  refine (conclude_adds env sock psock messages).bind fun status => Triple.pure fun s hs => ?_
  rw [hcount] at hs
  exact hs

/-- All accounts together add the total of what was read, in 32 bits. -/
theorem outcomes_adds (hret : env.prefs.returnStatus = true) (accounts : List Account) :
    Triple (Holds m) (outcomes servers conns env accounts)
      (fun os => Holds (m + Int32.ofInt (readTotal os))) (fun _ _ => True) := by
  induction accounts generalizing m with
  | nil =>
    exact Triple.pure fun s hs => hs.trans (Int32.add_zero m).symm
  | cons a accounts ih =>
    refine Triple.bind ((log_preserves (fun _ _ _ hs => hs) _).errors fun _ _ _ => trivial) fun _ => ?_
    refine (outcome_adds hret a).bind fun o => ?_
    have hrest : Triple (Holds (σ := σ) (m + Int32.ofInt o.readOff))
        (do let os ← outcomes servers conns env accounts; pure (o :: os))
        (fun os => Holds (m + Int32.ofInt (readTotal os))) (fun _ _ => True) := by
      refine ih.bind fun os => Triple.pure fun s hs => ?_
      show s.mailboxStatus = m + Int32.ofInt (o.readOff + readTotal os)
      rw [Int32.ofInt_add, ← Int32.add_assoc]
      exact hs
    split
    · exact Triple.bind ((log_preserves (fun _ _ _ hs => hs) _).errors fun _ _ _ => trivial) fun _ => hrest
    · exact hrest

end Invariants

/-! ### The return value -/

/-- With these options the program comes to the loop over the accounts, with the preferences `q`. -/
def Loads (host : Host) (opts : List Opt) (q : Preferences) : Prop :=
  ∃ p₀ p name file, getOpts host opts (Preferences.new host.sizeScore host.port) = .ok p₀ ∧
    openPrefs host p₀.rcFile = (name, some file) ∧
    file.load host.wordexp { p₀ with rcFile := name } = .ok p ∧
    openLogFile host p.logFile = true ∧ host.sigaction = true ∧
    (p.precompileExpressions host.regcomp).1 = 0 ∧ q = p.compiledRules host.regcomp

/-- What the shell sees of the value that `main` returns. -/
def shellStatus (ret : ℤ) : ℤ := ret % 256

section Main

variable {host : Host} {opts : List Opt} {q : Preferences} {w w' : World σ} {os : List Outcome}

/-- With `-r` the program returns the number that was added up, and nothing else. -/
theorem main_status (hload : Loads host opts q) (hret : q.returnStatus = true)
    (hrun : exec (outcomes servers conns (host.env q) q.accounts) { w with mailboxStatus := 0 } =
      (.ok os, w')) :
    (exec (main host conns opts) w).1 = .ok (Int32.ofInt (readTotal os)).toInt := by
  have hw' : w'.mailboxStatus = Int32.ofInt (readTotal os) := by
    have hstart : Holds 0 { w with mailboxStatus := 0 } := rfl
    have hadds : w'.mailboxStatus = 0 + Int32.ofInt (readTotal os) :=
      (@outcomes_adds σ conns (host.env q) servers 0 hret q.accounts _ hstart).1 os w' hrun
    exact hadds.trans (Int32.zero_add _)
  obtain ⟨p₀, p, name, file, hopts, hopen, hfile, hlog, hsig, hcomp, rfl⟩ := hload
  unfold main
  rw [exec_bind, exec_modify]
  simp only [hopts, hopen, hfile]
  unfold work
  simp only [hlog, hsig, Bool.not_true, Bool.false_eq_true, if_false,
    Preferences.precompileExpressions_ok hcomp, ne_eq, not_true_eq_false, hret, if_true,
    @checkAccounts_eq σ conns _ servers, bind_assoc, pure_bind]
  rw [exec_bind, show (List.forM [] log : Run σ PUnit) = pure ⟨⟩ from rfl, exec_pure]
  simp only
  rw [exec_bind, hrun]
  simp only [exec_bind, exec_gets, exec_pure, hw']

theorem toInt_ofInt_emod (m : ℤ) : (Int32.ofInt m).toInt % 256 = m % 256 := by
  have hdvd : (256 : ℤ) ∣ ((2 ^ 32 : ℕ) : ℤ) := by decide
  calc (Int32.ofInt m).toInt % 256 = m.bmod (2 ^ 32) % 256 := by rw [Int32.toInt_ofInt]; rfl
    _ = m.bmod (2 ^ 32) % ((2 ^ 32 : ℕ) : ℤ) % 256 := (Int.emod_emod_of_dvd _ hdvd).symm
    _ = m % ((2 ^ 32 : ℕ) : ℤ) % 256 := by rw [Int.bmod_emod]
    _ = m % 256 := Int.emod_emod_of_dvd _ hdvd

/-- The exit status tells the truth: it is 0 just when all accounts were checked and the servers
reported no messages after the scan. -/
def Truthful (ret : ℤ) (os : List Outcome) : Prop :=
  shellStatus ret = 0 ↔ AllChecked os ∧ reportedTotal os = 0

end Main

/-- The preferences of the small rcfile, with `-r`. -/
def smallPrefs : Preferences :=
  ((smallRcfile.commands.foldlM (Command.apply smallHost.wordexp)
    { (Preferences.new ⟨0, 0⟩ 0).setReturnStatus true with
      rcFile := bytes "/home/joe/.mailfilterrc" }).toOption.getD
        (Preferences.new ⟨0, 0⟩ 0)).compiledRules smallHost.regcomp

theorem smallPrefs_loads : Loads smallHost [.returnValue] smallPrefs :=
  ⟨_, _, _, _, rfl, rfl, rfl, rfl, rfl, rfl, rfl⟩

/-- A server that has prepared its replies: the greeting, and one for each command. -/
def scripted (replies : List Bytes) (_ : ℕ) (cmds : List Bytes) : Bytes :=
  replies.getD cmds.length []

/-- A server with two messages, the second of which is over the limit, and what it replies. -/
def twoListed : List Bytes :=
  [bytes "+OK\r\n", bytes "+OK\r\n", bytes "+OK\r\n", bytes "+OK 2 3\r\n", bytes "+OK 2 3\r\n",
    bytes "+OK 1 1\r\n", bytes "+OK\r\n", bytes "+OK 2 2\r\n", bytes "+OK\r\n", bytes "+OK\r\n",
    bytes "+OK 1 1\r\n"]

/-- The reply to `DELE` is taken for the count: the server reports one message that is left, and the
shell sees 0. -/
example : (exec (outcomes (scripted twoListed) (fun _ => prepared) (smallHost.env smallPrefs)
      smallPrefs.accounts) (World.new (twoListed, none))).1 =
        .ok [⟨0, some ⟨bytes "+OK\r\n", bytes "+OK 1 1\r\n"⟩⟩] ∧
    (exec (main smallHost (fun _ => prepared) [.returnValue])
      (World.new (twoListed, none))).1 = .ok 0 :=
  ⟨by decide +kernel, by decide +kernel⟩

/-- A server with an empty mailbox. -/
def emptyServer : List Bytes × Option Bytes :=
  ([bytes "+OK\r\n", bytes "+OK\r\n", bytes "+OK\r\n", bytes "+OK 0 0\r\n", bytes "+OK 0 0\r\n",
    bytes "+OK 0 0\r\n"], none)

end Mailfilter
