import Mailfilter.Main

/-!
# Invariants of the sessions

What a session with an account keeps, from what the calls of the connection keep.

* `Keeps`: the calls between opening and closing keep the invariant, as long as only messages with
  `Says` are written; `Keeps.of_blind`, for an invariant that does not look at the wire;
* `Speech`: the messages of a session satisfy `Says`;
* `Keeps.login`, `Keeps.status`, `Keeps.scan` and `Keeps.logout`, one lemma for each member function;
* `SessionKeeps`, with opening and closing, and `SessionKeeps.checkAccounts`: the loop over the accounts
  keeps the invariant, and what halts it leaves a state with `E`.
-/

namespace Mailfilter

open Pop3 Program

variable {σ : Type} {conns : ℕ → Connection σ} {conn : Connection σ} {env : Env}
  {Says : Bytes → Prop} {I E : World σ → Prop}

/-! ### Between opening and closing -/

/-- The invariant is kept by what is said over the connection, and by the weeder. -/
structure Keeps (conn : Connection σ) (env : Env) (Says : Bytes → Prop) (I : World σ → Prop) :
    Prop where
  blind : LogBlind I
  read : ∀ header, Preserves I (cRead conn header)
  write : ∀ msg, Says msg → Preserves I (cWrite conn msg)
  weed : ∀ hdr, Preserves I (weed env hdr)

/-- The messages of a session. -/
structure Speech (env : Env) (usr pass : Bytes) (Says : Bytes → Prop) : Prop where
  user : Says (userCommand usr)
  passwd : Says (passCommand pass)
  apop : ∀ stamp, Says (Apop.apopCommand usr (Apop.getHash env stamp pass))
  stat : Says statCommand
  list : ∀ i, Says (listCommand (decimal i))
  top : ∀ i, Says (topCommand (decimal i))
  dele : env.prefs.testMode = false → ∀ i, Says (deleCommand i)
  quit : Says quitCommand

theorem Speech.trivial (env : Env) (usr pass : Bytes) : Speech env usr pass fun _ => True := by
  constructor <;> intros <;> exact True.intro

theorem onWire_preserves {α : Type} (hblind : ∀ s wire, I s → I { s with wire := wire })
    (p : Program Halt (Wire σ) α) : Preserves I (onWire p) := by
  refine Triple.of_exec fun s hs => ?_
  rw [exec_onWire]
  rcases exec p s.wire with ⟨_ | _, wire⟩ <;> exact hblind s wire hs

/-- An event is recorded, and a value is passed on. -/
theorem record_preserves {α : Type} {e : World σ → Event} (he : ∀ s, I s → I (s.record (e s))) (a : α) :
    Preserves I (do modify fun s => s.record (e s); pure a : Run σ α) := by
  refine Preserves.bind ?_ fun _ => Preserves.pure a
  exact Preserves.modify he

/-- An invariant that looks neither at the wire nor at the file of headers. -/
theorem Keeps.of_blind (hblind : ∀ s wire file, I s → I { s with wire := wire, headerFile := file })
    (hread : ∀ s header ret reply, I s → I (s.record (.read header ret reply)))
    (hwrite : ∀ s msg, Says msg → I s → I (s.record (.write msg)))
    (hweed : ∀ s weeder before hdr verdict, I s →
      I { s with weeder := weeder, trace := s.trace ++ [.weed before hdr verdict] }) :
    Keeps conn env Says I where
  blind s log file hs := hblind s _ file hs
  read header := by
    have hwire := onWire_preserves (fun s wire => hblind s wire s.headerFile) (conn.cRead header)
    exact hwire.bind fun ret => record_preserves (fun s => hread s header ret _) ret
  write msg hmsg := by
    have hwire := onWire_preserves (fun s wire => hblind s wire s.headerFile) (conn.cWrite msg)
    refine Preserves.bind ?_ fun _ => hwire
    exact Preserves.modify fun s => hwrite s msg hmsg
  weed hdr := by
    refine Triple.of_exec fun s hs => ?_
    exact hblind _ _ s.headerFile (hweed s _ s.weeder hdr _ hs)

/-- A message is logged first. -/
theorem logged_preserves {α : Type} (hI : LogBlind I) {p : Run σ α} (call : LogCall)
    (hp : Preserves I p) : Preserves I (do log call; p) :=
  (log_preserves hI call).bind fun _ => hp

namespace Keeps

variable (h : Keeps conn env Says I)

include h

theorem replyOk (header : Bool) : Preserves I (replyOk conn header) := by
  refine (h.read header).bind fun ret => Preserves.ite ?_ (Preserves.pure _)
  refine (Preserves.gets _).bind fun r => ?_
  cases r <;> exact Preserves.pure _

theorem commandOk (header : Bool) {msg : Bytes} (hmsg : Says msg) :
    Preserves I (commandOk conn header msg) :=
  (h.write msg hmsg).bind fun _ => Preserves.ite (Preserves.pure _) (h.replyOk header)

theorem status (hstat : Says statCommand) : Preserves I (status conn) := by
  refine (h.write _ hstat).bind fun _ => Preserves.ite (Preserves.pure _) ?_
  refine (h.replyOk false).bind fun _ => Preserves.ite (Preserves.pure _) ?_
  exact reply_preserves.bind fun _ => Preserves.pure _

theorem logout (hquit : Says quitCommand) : Preserves I (logout conn) :=
  (h.write _ hquit).bind fun _ => Preserves.pure _

theorem login (proto : Protocol) {usr pass : Bytes} (hs : Speech env usr pass Says) :
    Preserves I (proto.login conn env usr pass) := by
  unfold Protocol.login
  cases proto.cls with
  | pop3 =>
    refine (h.read false).bind fun _ => Preserves.ite (Preserves.pure _) ?_
    refine (h.commandOk false hs.user).bind fun _ =>
      Preserves.ite (logged_preserves h.blind _ (Preserves.pure _)) ?_
    exact (h.commandOk false hs.passwd).bind fun _ =>
      Preserves.ite (logged_preserves h.blind _ (Preserves.pure _)) (Preserves.pure _)
  | apop =>
    refine (h.read false).bind fun _ => Preserves.ite (Preserves.pure _) ?_
    refine reply_preserves.bind fun greet => ?_
    cases Apop.timestamp greet with
    | none => exact Preserves.pure _
    | some ts =>
      exact (h.commandOk false (hs.apop ts)).bind fun _ =>
        Preserves.ite (logged_preserves h.blind _ (Preserves.pure _)) (Preserves.pure _)

/-- A message is deleted only if that is not simulated. -/
theorem dispose {i : ℕ} (hdele : env.prefs.testMode = false → Says (deleCommand i)) (hdr : Header) :
    Preserves I (dispose conn env i hdr) := by
  have hremove : Preserves I (removeMsg conn env i) := by
    unfold removeMsg
    split
    case isTrue => exact logged_preserves h.blind _ (Preserves.pure _)
    case isFalse htest =>
      exact (h.write _ (hdele (Bool.eq_false_iff.2 htest))).bind fun _ => Preserves.pure _
  exact (h.weed hdr).bind fun _ =>
    Preserves.ite (hremove.bind fun _ => Preserves.pure _) (Preserves.pure _)

theorem examine {usr pass : Bytes} (hs : Speech env usr pass Says) (i : ℕ) :
    Preserves I (examine conn env i (decimal i)) := by
  refine (h.commandOk false (hs.list i)).bind fun _ =>
    Preserves.ite (logged_preserves h.blind _ (Preserves.pure _)) ?_
  refine reply_preserves.bind fun _ => (h.commandOk true (hs.top i)).bind fun _ =>
    Preserves.ite (logged_preserves h.blind _ (Preserves.pure _)) ?_
  exact judge_preserves h.blind (h.dispose fun htest => hs.dele htest i) _ _

theorem scanFrom {usr pass : Bytes} (hs : Speech env usr pass Says) (k i : ℕ) :
    Preserves I (scanFrom conn env k i []) := by
  induction k generalizing i with
  | zero => exact Preserves.pure _
  | succ k ih =>
    exact (h.examine hs i).bind fun _ =>
      Preserves.ite (Preserves.pure _) (Preserves.ite (Preserves.throw _) (ih (i + 1)))

theorem scan {usr pass : Bytes} (hs : Speech env usr pass Says) : Preserves I (scan conn env) :=
  (h.status hs.stat).bind fun _ =>
    Preserves.ite (logged_preserves h.blind _ (Preserves.pure _)) (h.scanFrom hs _ _)

theorem recount (hstat : Says statCommand) (messages : Int32) :
    Preserves I (recount conn env messages) :=
  Preserves.ite (h.status hstat) (Preserves.pure _)

end Keeps

/-! ### Whole sessions -/

/-- The invariant is kept by all the calls of a session; opening may halt with less. -/
structure SessionKeeps (conns : ℕ → Connection σ) (env : Env) (Says : Bytes → Prop)
    (I E : World σ → Prop) : Prop where
  kept : ∀ psock, Keeps (conns psock) env Says I
  opened : ∀ sock host port protocol,
    Triple I (cOpen conns sock host port env.prefs.timeOut protocol) (fun _ => I) (fun _ => E)
  closed : ∀ sock, Preserves I (cClose conns sock)
  counted : ∀ s m, I s → I { s with mailboxStatus := m }
  halted : ∀ s, I s → E s

namespace SessionKeeps

variable (h : SessionKeeps conns env Says I E)

include h

theorem errors {α : Type} {p : Run σ α} (hp : Preserves I p) :
    Triple I p (fun _ => I) (fun _ => E) :=
  Triple.errors hp fun _ s hs => h.halted s hs

/-- The ways out after an error. -/
theorem failed (call : LogCall) (sock psock : ℕ) (hquit : Says quitCommand) :
    Preserves I (do
      log call
      let _ ← logout (conns psock)
      let _ ← cClose conns sock
      pure genFailureFlag : Run σ ℤ) := by
  refine logged_preserves (h.kept psock).blind call ?_
  exact ((h.kept psock).logout hquit).bind fun _ => (h.closed sock).bind fun _ => Preserves.pure _

theorem session {a : Account} (hs : Speech env (cstr a.usr) (cstr a.passwd) Says) (sock : ℕ)
    (proto : Protocol) (psock : ℕ) :
    Triple I (a.session conns env sock proto psock) (fun _ => I) (fun _ => E) := by
  have hk := h.kept psock
  refine (h.opened sock _ _ _).bind fun opened => h.errors ?_
  refine Preserves.ite (logged_preserves hk.blind _ (Preserves.pure _)) ?_
  refine (hk.login proto hs).bind fun _ => Preserves.ite (logged_preserves hk.blind _
    ((h.closed sock).bind fun _ => Preserves.pure _)) ?_
  refine (hk.status hs.stat).bind fun _ => Preserves.ite (h.failed _ sock psock hs.quit) ?_
  refine logged_preserves hk.blind _ ((hk.scan hs).bind fun _ =>
    Preserves.ite (h.failed _ sock psock hs.quit) ?_)
  refine (hk.recount hs.stat _).bind fun messages => Preserves.ite (h.failed _ sock psock hs.quit) ?_
  refine Preserves.bind (Preserves.modify fun s => h.counted s _) fun _ => ?_
  exact (hk.logout hs.quit).bind fun _ => Preserves.ite
    ((h.closed sock).bind fun _ => Preserves.pure _) (Preserves.pure _)

theorem check {a : Account} (hs : Speech env (cstr a.usr) (cstr a.passwd) Says) :
    Triple I (a.check conns env) (fun _ => I) (fun _ => E) := by
  unfold Account.check
  split
  case h_2 => exact h.errors (Preserves.throw _)
  split
  case h_2 => exact h.errors (Preserves.throw _)
  exact h.session hs _ _ _

/-- **The loop over the accounts** keeps the invariant. -/
theorem checkAccounts {accounts : List Account}
    (hs : ∀ a ∈ accounts, Speech env (cstr a.usr) (cstr a.passwd) Says) (returnVal : ℤ) :
    Triple I (checkAccounts conns env accounts returnVal) (fun _ => I) (fun _ => E) := by
  have hblind := (h.kept 0).blind
  induction accounts generalizing returnVal with
  | nil => exact Triple.pure fun _ hs => hs
  | cons a accounts ih =>
    have ih := ih fun b hb => hs b (List.mem_cons_of_mem _ hb)
    refine Triple.bind (h.errors (log_preserves hblind _)) fun _ => ?_
    refine (h.check (hs a (List.mem_cons_self ..))).bind fun status => ?_
    split
    · exact Triple.bind (h.errors (log_preserves hblind _)) fun _ => ih _
    · exact ih _

end SessionKeeps

end Mailfilter
