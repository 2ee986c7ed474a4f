import Mailfilter.Sifting

/-!
# Invariants that look at the log

What the sessions keep, if it is also about the log, or about the file of headers.

* `LogCall.Denies`: the message says why a mail is to be deleted;
* `Carries`: the calls between opening and closing keep an invariant; a header that was read may have to
  be shown first;
* `Carries.login`, `Carries.status`, `Carries.scan` and `Carries.logout`, one lemma for each member
  function;
* `SessionCarries.checkAccounts`, the loop over the accounts, and `SessionCarries.main`, the program.
-/

namespace Mailfilter

open Pop3 Program Rfc822

variable {σ : Type} {conns : ℕ → Connection σ} {conn : Connection σ} {env : Env}
  {I J : World σ → Prop}

/-- The message says why a mail is to be deleted. -/
def LogCall.Denies (call : LogCall) : Prop := call.channel = .msg ∧ bytes "Deny: " <+: call.text

instance (call : LogCall) : Decidable call.Denies := inferInstanceAs (Decidable (_ ∧ _))

/-- A message that begins with something else. -/
theorem not_denies {call : LogCall} (text : Bytes) (htext : text <+: call.text)
    (hlen : 6 ≤ text.length) (hne : ¬ bytes "Deny: " <+: text) : ¬ call.Denies := fun hdeny =>
  hne (List.prefix_of_prefix_length_le hdeny.2 htext hlen)

/-! ### What is printed about a header -/

section Parser

variable {prefs : Preferences}

theorem addEntry_printed {h : Header} {tag body : Bytes} {e : WrongMessageIDException}
    (hadd : h.addEntry prefs tag body = .error e) : ∀ call ∈ e.printed, call.channel = .err := by
  unfold Header.addEntry at hadd
  simp only at hadd
  split_ifs at hadd
  cases hadd
  simp [printErr]

theorem parse_printed {st : ParserState} {h : Header} {toks : List Token}
    {e : WrongMessageIDException} (hparse : parse prefs st h toks = .error (.thrown e)) :
    ∀ call ∈ e.printed, call.channel = .err := by
  have hreduce {h : Header} {t b : Bytes} (hred : reduce prefs h t b = .error (.thrown e)) :
      ∀ call ∈ e.printed, call.channel = .err := by
    unfold reduce at hred
    split at hred
    case h_1 => cases hred
    case h_2 e' hadd =>
      cases hred
      exact addEntry_printed hadd
  induction toks generalizing st h with
  | nil =>
    cases st with
    | header => cases hparse
    | tag t => cases hparse
    | bodies t b => exact hreduce hparse
  | cons tok toks ih =>
    have hshift {h : Header} (hrun : (shift tok >>= fun st => parse prefs st h toks) =
        .error (.thrown e)) : ∀ call ∈ e.printed, call.channel = .err := by
      unfold shift at hrun
      split at hrun
      · exact ih hrun
      · exact ih hrun
      · cases hrun
    cases st with
    | header => exact hshift hparse
    | tag t =>
      rw [parse] at hparse
      split_ifs at hparse
      · exact ih hparse
      · cases hparse
    | bodies t b =>
      rw [parse] at hparse
      split_ifs at hparse
      · exact ih hparse
      · cases hr : reduce prefs h t b with
        | error e' =>
          rw [hr] at hparse
          cases hparse
          exact hreduce hr
        | ok h₁ =>
          rw [hr] at hparse
          exact hshift hparse

/-- Only errors are printed. -/
theorem invokeMsgParser_printed {header : Bytes} {hdr hdr' : Header} {e : ℤ} {calls : List LogCall}
    (hparse : invokeMsgParser prefs header hdr = .ok (e, hdr', calls)) :
    ∀ call ∈ calls, call.channel ≠ .msg := by
  unfold invokeMsgParser at hparse
  split at hparse
  case h_1 =>
    cases hparse
    exact nofun
  case h_2 e' hthrown =>
    cases hparse
    intro call hcall
    rw [parse_printed hthrown call hcall]
    exact nofun
  case h_3 => cases hparse

end Parser

/-! ### Between opening and closing -/

/-- The invariant is kept by what is said over the connection, and by the weeder. When a header was
read, `J` holds until it is shown. -/
structure Carries (conn : Connection σ) (env : Env) (I J : World σ → Prop) : Prop where
  log : ∀ call : LogCall, ¬ call.Denies → Preserves I (log call)
  read : Preserves I (cRead conn false)
  write : ∀ msg, Preserves I (cWrite conn msg)
  header : Triple I (replyOk conn true) (fun ok s => if ok then J s else I s) fun _ => I
  shown : Triple J (showHeader conn env) (fun _ => I) fun _ => I
  weed : ∀ hdr, Preserves I (weed env hdr)

namespace Carries

variable (h : Carries conn env I J)

include h

theorem err {α : Type} (text : Bytes) {p : Run σ α} (hp : Preserves I p) :
    Preserves I (do Mailfilter.log (printErr text); p) :=
  (h.log _ fun hdeny => absurd hdeny.1 (by simp [printErr])).bind fun _ => hp

theorem replyOk : Preserves I (replyOk conn false) := by
  refine h.read.bind fun ret => Preserves.ite ?_ (Preserves.pure _)
  refine (Preserves.gets _).bind fun r => ?_
  cases r <;> exact Preserves.pure _

theorem commandOk (msg : Bytes) : Preserves I (commandOk conn false msg) :=
  (h.write msg).bind fun _ => Preserves.ite (Preserves.pure _) h.replyOk

theorem commandOk_header (msg : Bytes) :
    Triple I (Mailfilter.commandOk conn true msg) (fun ok s => if ok then J s else I s) fun _ => I :=
  Triple.bind (h.write msg) fun _ =>
    Triple.ite (fun _ => Triple.pure fun _ hs => hs) fun _ => h.header

theorem status : Preserves I (status conn) := by
  refine (h.write _).bind fun _ => Preserves.ite (Preserves.pure _) ?_
  refine h.replyOk.bind fun _ => Preserves.ite (Preserves.pure _) ?_
  exact reply_preserves.bind fun _ => Preserves.pure _

theorem logout : Preserves I (logout conn) := (h.write _).bind fun _ => Preserves.pure _

theorem login (proto : Protocol) (usr pass : Bytes) : Preserves I (proto.login conn env usr pass) := by
  unfold Protocol.login
  cases proto.cls with
  | pop3 =>
    refine h.read.bind fun _ => Preserves.ite (Preserves.pure _) ?_
    refine (h.commandOk _).bind fun _ => Preserves.ite (h.err _ (Preserves.pure _)) ?_
    exact (h.commandOk _).bind fun _ => Preserves.ite (h.err _ (Preserves.pure _)) (Preserves.pure _)
  | apop =>
    refine h.read.bind fun _ => Preserves.ite (Preserves.pure _) ?_
    refine reply_preserves.bind fun greet => ?_
    cases Apop.timestamp greet with
    | none => exact Preserves.pure _
    | some ts =>
      exact (h.commandOk _).bind fun _ =>
        Preserves.ite (h.err _ (Preserves.pure _)) (Preserves.pure _)

theorem dispose (i : ℕ) (hdr : Header) : Preserves I (dispose conn env i hdr) := by
  have hsimulated : ¬ LogCall.Denies (printMsg (bytes "Debugging: Simulating DELE command.") 6) := by
    decide
  have hremove : Preserves I (removeMsg conn env i) :=
    Preserves.ite ((h.log _ hsimulated).bind fun _ => Preserves.pure _)
      ((h.write _).bind fun _ => Preserves.pure _)
  exact (h.weed hdr).bind fun _ =>
    Preserves.ite (hremove.bind fun _ => Preserves.pure _) (Preserves.pure _)

theorem parsed (calls : List LogCall) (hcalls : ∀ call ∈ calls, call.channel ≠ .msg) :
    Preserves I (calls.forM Mailfilter.log : Run σ PUnit) :=
  Preserves.forM fun call hcall => h.log call fun hdeny => hcalls call hcall hdeny.1

theorem judge (i : ℕ) (msgNo : Bytes) (size : Int32) :
    Triple J (judge conn env i msgNo size) (fun _ => I) fun _ => I := by
  refine h.shown.bind fun _ => Triple.bind (reply_preserves : Preserves I _) fun r => ?_
  suffices hrest : Preserves I _ from hrest
  dsimp only
  split
  case h_1 => exact Preserves.throw _
  case h_2 error hdr calls hparse =>
    have hcalls : ∀ call ∈ calls, call.channel ≠ .msg := invokeMsgParser_printed hparse
    refine (h.parsed calls hcalls).bind fun _ => Preserves.ite (h.err _ (Preserves.pure _)) ?_
    exact (h.dispose i hdr).bind fun _ => Preserves.pure _

theorem examine (i : ℕ) (msgNo : Bytes) : Preserves I (examine conn env i msgNo) := by
  refine (h.commandOk _).bind fun _ => Preserves.ite (h.err _ (Preserves.pure _)) ?_
  refine reply_preserves.bind fun _ => Triple.bind (h.commandOk_header _) fun ok => ?_
  cases ok with
  | false => exact h.err _ (Preserves.pure _)
  | true => exact h.judge i msgNo _

theorem scanFrom (k i : ℕ) (msgNo : Bytes) : Preserves I (scanFrom conn env k i msgNo) := by
  induction k generalizing i msgNo with
  | zero => exact Preserves.pure _
  | succ k ih =>
    exact (h.examine i _).bind fun _ =>
      Preserves.ite (Preserves.pure _) (Preserves.ite (Preserves.throw _) (ih (i + 1) []))

theorem scan : Preserves I (scan conn env) :=
  h.status.bind fun _ => Preserves.ite (h.err _ (Preserves.pure _)) (h.scanFrom _ _ _)

theorem recount (messages : Int32) : Preserves I (recount conn env messages) :=
  Preserves.ite h.status (Preserves.pure _)

end Carries

/-! ### Whole sessions -/

/-- The invariant is kept by all the calls of a session. -/
structure SessionCarries (conns : ℕ → Connection σ) (env : Env) (I : World σ → Prop)
    (J : ℕ → World σ → Prop) : Prop where
  carried : ∀ psock, Carries (conns psock) env I (J psock)
  opened : ∀ sock host port timeOut protocol, Preserves I (cOpen conns sock host port timeOut protocol)
  closed : ∀ sock, Preserves I (cClose conns sock)
  counted : ∀ s m, I s → I { s with mailboxStatus := m }

namespace SessionCarries

variable {J : ℕ → World σ → Prop} (h : SessionCarries conns env I J)

include h

/-- The ways out after an error. -/
theorem failed (text : Bytes) (sock psock : ℕ) : Preserves I (do
    log (printErr text)
    let _ ← logout (conns psock)
    let _ ← cClose conns sock
    pure genFailureFlag : Run σ ℤ) :=
  (h.carried psock).err text ((h.carried psock).logout.bind fun _ =>
    (h.closed sock).bind fun _ => Preserves.pure _)

theorem session (a : Account) (sock : ℕ) (proto : Protocol) (psock : ℕ) :
    Preserves I (a.session conns env sock proto psock) := by
  have hc := h.carried psock
  refine (h.opened sock _ _ _ _).bind fun opened => Preserves.ite (hc.err _ (Preserves.pure _)) ?_
  refine (hc.login proto _ _).bind fun _ => Preserves.ite
    (hc.err _ ((h.closed sock).bind fun _ => Preserves.pure _)) ?_
  refine hc.status.bind fun messages => Preserves.ite (h.failed _ sock psock) ?_
  have hexamining : ¬ LogCall.Denies (printMsg (bytes "Examining " ++ intToString messages.toInt ++
      bytes " message(s).") 3) :=
    not_denies (bytes "Examining ") ⟨_, (List.append_assoc ..).symm⟩ (by decide) (by decide)
  refine (hc.log _ hexamining).bind fun _ => hc.scan.bind fun _ =>
    Preserves.ite (h.failed _ sock psock) ?_
  refine (hc.recount _).bind fun messages => Preserves.ite (h.failed _ sock psock) ?_
  refine Preserves.bind (Preserves.modify fun s => h.counted s _) fun _ => ?_
  exact hc.logout.bind fun _ => Preserves.ite ((h.closed sock).bind fun _ => Preserves.pure _)
    (Preserves.pure _)

theorem check (a : Account) : Preserves I (a.check conns env) := by
  unfold Account.check
  split
  case h_2 => exact Preserves.throw _
  split
  case h_2 => exact Preserves.throw _
  exact h.session _ _ _ _

/-- **The loop over the accounts** keeps the invariant. -/
theorem checkAccounts (accounts : List Account) (returnVal : ℤ) :
    Preserves I (checkAccounts conns env accounts returnVal) := by
  have hc := h.carried 0
  induction accounts generalizing returnVal with
  | nil => exact Preserves.pure _
  | cons a accounts ih =>
    have hquerying : ¬ LogCall.Denies (printMsg (packageVersion ++ bytes " querying " ++ a.usr ++
        bytes "@" ++ a.server ++ bytes ".") 3) := by
      refine not_denies (packageVersion ++ bytes " querying ") ?_ (by decide) (by decide)
      exact ⟨a.usr ++ bytes "@" ++ a.server ++ bytes ".", by simp [printMsg]⟩
    refine (hc.log _ hquerying).bind fun _ => (h.check a).bind fun status => ?_
    split
    · exact hc.err _ (ih _)
    · exact ih _

end SessionCarries

/-- **The program** keeps the invariant. -/
theorem SessionCarries.main {host : Host} {opts : List Opt} {q : Preferences} {J : ℕ → World σ → Prop}
    (h : SessionCarries conns (host.env q) I J) (hload : Loads host opts q) :
    Preserves I (main host conns opts) := by
  refine Triple.of_exec fun s hs => ?_
  have hrun : Preserves I (do
      let returnVal ← Mailfilter.checkAccounts conns (host.env q) q.accounts 0
      if q.returnStatus then do
        let mailboxStatus ← Program.gets World.mailboxStatus
        pure mailboxStatus.toInt
      else pure returnVal : Run σ ℤ) :=
    (h.checkAccounts q.accounts 0).bind fun _ =>
      Preserves.ite ((Preserves.gets _).bind fun _ => Preserves.pure _) (Preserves.pure _)
  rw [exec_main hload]
  exact Triple.exec hrun (h.counted s 0 hs)

end Mailfilter
