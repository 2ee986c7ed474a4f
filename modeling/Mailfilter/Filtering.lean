import Mailfilter.Account
import Mailfilter.Main
import Mailfilter.Maildrop
import Mailfilter.Pairing
import Mailfilter.Transport

/-!
# A session from end to end

What a session does over a connection that delivers every reply, with a server that looks after a
maildrop.

* `Talk`, what was said to a server and what is still to be read, with the weeder and the number of
  messages, and one rule for every call that a session makes;
* `loginCommands`, and `login_talk`;
* `examine_between` and `scan_between`: a message, and all of them;
* `session_known`: the whole session with an account.
-/

namespace Mailfilter

open Pop3 Program

variable {σ : Type} {conns : ℕ → Connection σ} {answer : ℕ → List Bytes → Bytes} {bound : ℕ}
  {Shows : Peers → σ → Prop} {env : Env}

/-! ### Calls -/

/-- What was said to the servers, the weeder, and the number of messages so far. -/
structure Known (Shows : Peers → σ → Prop) (v : Peers) (w : Weeder) (n : Int32) (s : World σ) :
    Prop where
  shows : Shows v s.wire.net
  weeder : s.weeder = w
  status : s.mailboxStatus = n

/-- What was said to the server of a socket, and what it said that was not read yet. -/
abbrev Talk (Shows : Peers → σ → Prop) (v : Peers) (sock : ℕ) (cmds : List Bytes) (unread : Bytes) :
    Weeder → Int32 → World σ → Prop :=
  Known Shows (v.put sock ⟨cmds, unread⟩)

/-- A reply was read. -/
def Heard (conns : ℕ → Connection σ) (Shows : Peers → σ → Prop) (v : Peers) (sock : ℕ)
    (cmds : List Bytes) (r : Bytes) (w : Weeder) (n : Int32) (s : World σ) : Prop :=
  Talk Shows v sock cmds [] w n s ∧ (conns sock).cReply s.wire.net = some r

section Calls

variable {v : Peers} {sock : ℕ} {cmds : List Bytes} {unread r : Bytes} {w : Weeder} {n : Int32}
  {E : Halt → World σ → Prop}

theorem log_heard (call : LogCall) :
    Triple (Heard conns Shows v sock cmds r w n) (log call)
      (fun _ => Heard conns Shows v sock cmds r w n) E :=
  Triple.modify fun _ hs => ⟨⟨hs.1.shows, hs.1.weeder, hs.1.status⟩, hs.2⟩

theorem log_known (call : LogCall) :
    Triple (Known Shows v w n) (log call) (fun _ => Known Shows v w n) E :=
  Triple.modify fun _ hs => ⟨hs.shows, hs.weeder, hs.status⟩

theorem reply_heard :
    Triple (Heard conns Shows v sock cmds r w n) (reply (conns sock))
      (fun r' s => r' = r ∧ Heard conns Shows v sock cmds r w n s) E := by
  refine Triple.bind (R := fun o s => o = some r ∧ Heard conns Shows v sock cmds r w n s)
    (Triple.gets fun s hs => ⟨hs.2, hs⟩) fun o => Triple.of_fact fun ho => ?_
  subst ho
  exact Triple.pure fun s hs => ⟨rfl, hs⟩

variable (T : Transport conns answer bound Shows)

include T

theorem cOpen_known (host : Bytes) (port : ℤ) (timeOut : Int32) (protocol : ℕ)
    (hnone : v sock = none) :
    Triple (Known Shows v w n) (cOpen conns sock host port timeOut protocol)
      (fun ret s => ret = 0 ∧ Talk Shows v sock [] (answer sock []) w n s) E := by
  refine Triple.bind (R := fun ret s => ret = 0 ∧ Talk Shows v sock [] (answer sock []) w n s)
    (Triple.onPart (fun _ => T.cOpen v sock host port timeOut protocol hnone) (fun s hs => hs.shows)
      (fun s ret x hs hx => ⟨hx.1, hx.2, hs.weeder, hs.status⟩) fun _ _ _ _ hx => hx.elim)
    fun ret => Triple.of_fact fun hret => ?_
  exact Triple.bind (R := fun _ => Talk Shows v sock [] (answer sock []) w n)
    (Triple.modify fun _ hs => ⟨hs.shows, hs.weeder, hs.status⟩) fun _ =>
      Triple.pure fun _ hs => ⟨hret, hs⟩

theorem cClose_known :
    Triple (Known Shows v w n) (cClose conns sock)
      (fun ret s => ret = 0 ∧ Known Shows v w n s) E := by
  refine Triple.bind (R := fun ret s => ret = 0 ∧ Known Shows v w n s)
    (Triple.onPart (fun _ => T.cClose v sock) (fun s hs => hs.shows)
      (fun s ret x hs hx => ⟨hx.1, hx.2, hs.weeder, hs.status⟩) fun _ _ _ _ hx => hx.elim)
    fun ret => Triple.of_fact fun hret => ?_
  exact Triple.bind (R := fun _ => Known Shows v w n)
    (Triple.modify fun _ hs => ⟨hs.shows, hs.weeder, hs.status⟩) fun _ =>
      Triple.pure fun _ hs => ⟨hret, hs⟩

theorem cWrite_talk {msg : Bytes} (hmsg : 0 ∉ msg) :
    Triple (Talk Shows v sock cmds unread w n) (cWrite (conns sock) msg)
      (fun ret s => ret ≠ -1 ∧
        Talk Shows v sock (cmds ++ [msg]) (unread ++ answer sock (cmds ++ [msg])) w n s) E := by
  have hwrite := T.cWrite (v.put sock ⟨cmds, unread⟩) sock ⟨cmds, unread⟩ msg (Peers.put_self ..)
    hmsg
  refine Triple.bind (R := fun _ => Talk Shows v sock cmds unread w n)
    (Triple.modify fun _ hs => ⟨hs.shows, hs.weeder, hs.status⟩) fun _ => ?_
  refine Triple.onPart (fun _ => hwrite) (fun s hs => hs.shows) (fun s ret x hs hx => ?_)
    fun _ _ _ _ hx => hx.elim
  rw [Peers.put_put] at hx
  exact ⟨hx.1, hx.2, hs.weeder, hs.status⟩

theorem cRead_talk {header : Bool} (hwhole : Whole bound header unread) :
    Triple (Talk Shows v sock cmds unread w n) (cRead (conns sock) header)
      (fun ret s => 0 < ret ∧ Heard conns Shows v sock cmds unread w n s) E := by
  have hread := T.cRead (v.put sock ⟨cmds, unread⟩) sock ⟨cmds, unread⟩ header (Peers.put_self ..)
    hwhole
  refine Triple.bind (R := fun ret s => 0 < ret ∧ Heard conns Shows v sock cmds unread w n s) ?_
    fun ret => Triple.of_fact fun hret => Triple.bind
      (R := fun _ => Heard conns Shows v sock cmds unread w n)
      (Triple.modify fun s hs => ⟨⟨hs.1.shows, hs.1.weeder, hs.1.status⟩, hs.2⟩)
      fun _ => Triple.pure fun s hs => ⟨hret, hs⟩
  refine Triple.onPart (fun _ => hread) (fun s hs => hs.shows) (fun s ret x hs hx => ?_)
    fun _ _ _ _ hx => hx.elim
  rw [Peers.put_put] at hx
  exact ⟨hx.1, ⟨hx.2.1, hs.weeder, hs.status⟩, hx.2.2⟩

/-- `REPLY_OK` and `HEADER_OK` -/
theorem replyOk_talk {header : Bool} (hwhole : Whole bound header unread)
    (hok : firstByte unread = chr '+') :
    Triple (Talk Shows v sock cmds unread w n) (replyOk (conns sock) header)
      (fun b s => b = true ∧ Heard conns Shows v sock cmds unread w n s) E := by
  refine (cRead_talk T hwhole).bind fun ret => Triple.of_fact fun hret => ?_
  rw [if_pos hret]
  refine Triple.bind (R := fun o s => o = some unread ∧ Heard conns Shows v sock cmds unread w n s)
    (Triple.gets fun s hs => ⟨hs.2, hs⟩) fun o => Triple.of_fact fun ho => ?_
  subst ho
  exact Triple.pure fun s hs => ⟨decide_eq_true hok, hs⟩

theorem commandOk_talk {header : Bool} {msg : Bytes} (hmsg : 0 ∉ msg)
    (hwhole : Whole bound header (unread ++ answer sock (cmds ++ [msg])))
    (hok : firstByte (unread ++ answer sock (cmds ++ [msg])) = chr '+') :
    Triple (Talk Shows v sock cmds unread w n) (commandOk (conns sock) header msg)
      (fun b s => b = true ∧ Heard conns Shows v sock (cmds ++ [msg])
        (unread ++ answer sock (cmds ++ [msg])) w n s) E := by
  refine (cWrite_talk T hmsg).bind fun sent => Triple.of_fact fun hsent => ?_
  rw [if_neg hsent]
  exact replyOk_talk T hwhole hok

/-- Nothing was left to be read before the command. -/
theorem commandOk_fresh {header : Bool} {msg : Bytes} (hmsg : 0 ∉ msg)
    (hwhole : Whole bound header (answer sock (cmds ++ [msg])))
    (hok : firstByte (answer sock (cmds ++ [msg])) = chr '+') :
    Triple (Talk Shows v sock cmds [] w n) (commandOk (conns sock) header msg)
      (fun b s => b = true ∧ Heard conns Shows v sock (cmds ++ [msg])
        (answer sock (cmds ++ [msg])) w n s) E := by
  rw [← List.nil_append (answer sock (cmds ++ [msg]))] at hwhole hok ⊢
  exact commandOk_talk T hmsg hwhole hok

theorem status_talk (hwhole : Whole bound false (unread ++ answer sock (cmds ++ [statCommand])))
    (hok : firstByte (unread ++ answer sock (cmds ++ [statCommand])) = chr '+') :
    Triple (Talk Shows v sock cmds unread w n) (status (conns sock))
      (fun m s => m = atoi (secondWord (cstr (unread ++ answer sock (cmds ++ [statCommand])))) ∧
        Talk Shows v sock (cmds ++ [statCommand]) [] w n s) E := by
  refine (cWrite_talk T (by decide)).bind fun sent => Triple.of_fact fun hsent => ?_
  rw [if_neg hsent]
  refine (replyOk_talk T hwhole hok).bind fun b => Triple.of_fact fun hb => ?_
  subst hb
  refine reply_heard.bind fun r => Triple.of_fact fun hr => ?_
  subst hr
  exact Triple.pure fun s hs => ⟨rfl, hs.1⟩

end Calls

/-! ### Replies -/

/-- A reply without NUL that reports success. -/
structure Fine (r : Bytes) : Prop where
  ok : bytes "+OK" <+: r
  noNul : 0 ∉ r

theorem Fine.append {r t : Bytes} (h : Fine r) (ht : 0 ∉ t) : Fine (r ++ t) :=
  ⟨h.ok.trans (List.prefix_append ..), fun hmem => (List.mem_append.mp hmem).elim h.noNul ht⟩

theorem Fine.firstByte {r : Bytes} (h : Fine r) : firstByte r = chr '+' := by
  obtain ⟨t, rfl⟩ := h.ok
  rfl

theorem Fine.whole {r : Bytes} {header : Bool} (h : Fine r) (hlen : r.length < bound)
    (hstops : header = true → StopsAt r) : Whole bound header r :=
  ⟨fun hnil => absurd (List.prefix_nil.mp (hnil ▸ h.ok)) (by decide), h.noNul, hlen, hstops⟩

theorem StatusLine.fine {r : Bytes} (h : StatusLine r) : Fine r := by
  obtain ⟨text, rfl, -, hnul⟩ := h
  exact ⟨⟨text ++ crlf, by simp⟩, by simpa [hnul] using (by decide : 0 ∉ bytes "+OK" ∧ 0 ∉ crlf)⟩

/-- What follows the status line. -/
theorem StatusLine.rest {r : Bytes} (h : StatusLine r) (t : Bytes) :
    substrAfterFirst (chr '\n') (r ++ t) = t := by
  obtain ⟨text, rfl, hlf, -⟩ := h
  have hline : ∀ c ∈ bytes "+OK" ++ text ++ bytes "\r", decide (c ≠ chr '\n') = true := by
    intro c hc
    refine decide_eq_true fun heq => ?_
    subst heq
    simp only [List.mem_append] at hc
    rcases hc with (hc | hc) | hc
    · exact absurd hc (by decide)
    · exact hlf hc
    · exact absurd hc (by decide)
  have hcut : bytes "+OK" ++ text ++ crlf ++ t =
      (bytes "+OK" ++ text ++ bytes "\r") ++ chr '\n' :: t := by
    simp [crlf, bytes, chr]
  rw [substrAfterFirst, hcut, List.dropWhile_append_of_pos hline]
  rfl

theorem numbersReply_fine (m k : ℕ) {more : Option Bytes} (hmore : 0 ∉ more.getD []) :
    Fine (numbersReply m k more) := by
  have htail : 0 ∉ more.elim [] (chr ' ' :: ·) := by
    cases more with
    | none => exact List.not_mem_nil
    | some text =>
      exact fun hmem => (List.mem_cons.mp hmem).elim (fun h => absurd h (by decide)) hmore
  have hok : Fine (bytes "+OK ") := ⟨by decide, by decide⟩
  exact (((hok.append (not_mem_decimal rfl m)).append (by decide)).append
    (not_mem_decimal rfl k)).append htail |>.append (by decide)

/-- The size is read from the reply to `LIST`, whatever comes before that. -/
theorem atoi_listed (i size : ℕ) (more : Option Bytes) (u : Bytes) :
    atoi (cstr (substrAfterLast (chr ' ') (u ++ numbersReply i size more))) = listedSize size more := by
  have hcut : numbersReply i size more = (bytes "+OK " ++ decimal i) ++ chr ' ' ::
      (decimal size ++ more.elim [] (chr ' ' :: ·) ++ crlf) := by
    simp [numbersReply, bytes, chr]
  have hlast : substrAfterLast (chr ' ') (u ++ numbersReply i size more) =
      substrAfterLast (chr ' ') (numbersReply i size more) := by
    rw [hcut, ← List.append_assoc, substrAfterLast_append_cons, substrAfterLast_append_cons]
  rw [hlast, substrAfterLast_numbersReply]
  rfl

/-! ### What is not read -/

/-- What is left to be read between the commands: the reply to the last one, if that is `DELE`. -/
def leftover (answer : List Bytes → Bytes) (cmds : List Bytes) : Bytes :=
  if cmds.getLast?.any isDele then answer cmds else []

/-- It is a status line. -/
def Calm (answer : List Bytes → Bytes) (cmds : List Bytes) : Prop :=
  cmds.getLast?.any isDele = true → StatusLine (answer cmds)

theorem leftover_concat {answer : List Bytes → Bytes} {cmd : Bytes} (h : isDele cmd = false)
    (cmds : List Bytes) : leftover answer (cmds ++ [cmd]) = [] := by
  simp [leftover, h]

theorem calm_concat {answer : List Bytes → Bytes} {cmd : Bytes} (h : isDele cmd = false)
    (cmds : List Bytes) : Calm answer (cmds ++ [cmd]) := by
  simp [Calm, h]

section Leftover

variable {answer : List Bytes → Bytes} {cmds : List Bytes} {r : Bytes}

/-- Before a reply it does no harm. -/
theorem Calm.fine (h : Calm answer cmds) (hr : Fine r) : Fine (leftover answer cmds ++ r) := by
  unfold leftover
  split_ifs with hdele
  · exact (h hdele).fine.append hr.noNul
  · exact hr

theorem length_leftover {prefs : Preferences} {login : List Bytes} {ms : List (Message prefs)}
    (hs : Serves answer login ms bound) (cmds cmds' : List Bytes) :
    (leftover answer cmds ++ answer cmds').length < bound := by
  have h := hs.short cmds
  have h' := hs.short cmds'
  unfold leftover
  split_ifs
  · rw [List.length_append]
    omega
  · rw [List.nil_append]
    omega

end Leftover

/-! ### Logins -/

/-- The commands of the login, by the greeting. -/
def loginCommands (env : Env) (proto : Protocol) (usr pass greeting : Bytes) :
    Option (List Bytes) :=
  match proto.cls with
  | .pop3 => some [userCommand usr, passCommand pass]
  | .apop =>
    (Apop.timestamp greeting).map fun ts => [Apop.apopCommand usr (Apop.getHash env ts pass)]

section Logins

variable {proto : Protocol} {usr pass greeting : Bytes} {login : List Bytes}

theorem awaited_loginCommands (h : loginCommands env proto usr pass greeting = some login) :
    ∀ cmd ∈ login, Awaited cmd := by
  have huser : Awaited (userCommand usr) := ⟨rfl, fun h =>
    absurd (show some (chr 'U') = some (chr 'Q') from congrArg List.head? h) (by decide)⟩
  have hpass : Awaited (passCommand pass) := ⟨rfl, fun h =>
    absurd (show some (chr 'P') = some (chr 'Q') from congrArg List.head? h) (by decide)⟩
  have hapop (hash : Bytes) : Awaited (Apop.apopCommand usr hash) := ⟨rfl, fun h =>
    absurd (show some (chr 'A') = some (chr 'Q') from congrArg List.head? h) (by decide)⟩
  unfold loginCommands at h
  split at h
  · cases h
    simpa using ⟨huser, hpass⟩
  · obtain ⟨ts, -, rfl⟩ := Option.map_eq_some_iff.mp h
    simpa using hapop _

theorem getLast_isDele {cmds : List Bytes} (h : ∀ cmd ∈ cmds, Awaited cmd) :
    cmds.getLast?.any isDele = false := by
  cases hlast : cmds.getLast? with
  | none => rfl
  | some cmd => exact (h cmd (List.mem_of_getLast? hlast)).1

theorem zero_notMem_cstr (b : Bytes) : 0 ∉ cstr b := fun hmem =>
  absurd (List.mem_takeWhile_imp hmem) (by decide)

theorem hexDigit_ne_zero {d : UInt8} (h : d < 16) : Apop.hexDigit d ≠ 0 := by
  unfold Apop.hexDigit
  split <;> grind

theorem zero_notMem_getHash (env : Env) (stamp pass : Bytes) : 0 ∉ Apop.getHash env stamp pass := by
  intro hmem
  obtain ⟨c, -, hc⟩ := List.mem_flatMap.mp hmem
  have hdiv : c / 16 < 16 := by
    have := c.toNat_lt
    rw [UInt8.lt_iff_toNat_lt, UInt8.toNat_div]
    show c.toNat / 16 < 16
    omega
  have hmod : c % 16 < 16 := by
    rw [UInt8.lt_iff_toNat_lt, UInt8.toNat_mod]
    show c.toNat % 16 < 16
    omega
  rcases List.mem_pair.mp hc with hc | hc
  · exact hexDigit_ne_zero hdiv hc.symm
  · exact hexDigit_ne_zero hmod hc.symm

variable {v : Peers} {sock : ℕ} {w : Weeder} {n : Int32} {prefs : Preferences}
  {ms : List (Message prefs)} {E : Halt → World σ → Prop}

theorem welcome_whole (hs : Serves (answer sock) login ms bound) {cmds : List Bytes}
    (hcmds : cmds <+: login) : Whole bound false (answer sock cmds) ∧
      firstByte (answer sock cmds) = chr '+' := by
  have hfine := (hs.welcome cmds hcmds).fine
  have hlen := hs.short cmds
  exact ⟨hfine.whole (by omega) (by simp), hfine.firstByte⟩

variable (T : Transport conns answer bound Shows)

include T

/-- A command of the login. -/
theorem loginCommand_talk (hs : Serves (answer sock) login ms bound) {cmds : List Bytes}
    {cmd : Bytes} (hcmds : cmds ++ [cmd] <+: login) (hnul : 0 ∉ cmd) :
    Triple (Talk Shows v sock cmds [] w n) (commandOk (conns sock) false cmd)
      (fun b s => b = true ∧ Talk Shows v sock (cmds ++ [cmd]) [] w n s) E := by
  obtain ⟨hwhole, hok⟩ := welcome_whole hs hcmds
  exact (commandOk_fresh T hnul hwhole hok).conseq (fun _ hs => hs)
    (fun b s hb => ⟨hb.1, hb.2.1⟩) fun _ _ h => h

/-- **The login** succeeds. -/
theorem login_talk (hs : Serves (answer sock) login ms bound) (husr : 0 ∉ usr) (hpass : 0 ∉ pass)
    (hlogin : loginCommands env proto usr pass (answer sock []) = some login) :
    Triple (Talk Shows v sock [] (answer sock []) w n) (proto.login (conns sock) env usr pass)
      (fun b s => b = true ∧ Talk Shows v sock login [] w n s) E := by
  have hgreeting := (welcome_whole hs (List.nil_prefix (l := login))).1
  have hread : Triple (Talk Shows v sock [] (answer sock []) w n) (cRead (conns sock) false)
      (fun ret s => 0 < ret ∧ Heard conns Shows v sock [] (answer sock []) w n s) E :=
    cRead_talk T hgreeting
  have hret : ∀ ret : Int32, 0 < ret → ret ≠ -1 := fun ret hret heq => by
    subst heq
    exact absurd hret (by decide)
  unfold loginCommands at hlogin
  unfold Protocol.login
  cases hcls : proto.cls with
  | pop3 =>
    rw [hcls] at hlogin
    obtain rfl := Option.some.inj hlogin
    have huser : 0 ∉ userCommand usr := by simpa [userCommand, husr] using (by decide)
    have hpassw : 0 ∉ passCommand pass := by simpa [passCommand, hpass] using (by decide)
    refine hread.bind fun ret => Triple.of_fact fun hpos => ?_
    rw [if_neg (hret ret hpos)]
    refine ((loginCommand_talk T hs ⟨_, rfl⟩ huser).weaken fun s hs => hs.1).bind fun b =>
      Triple.of_fact fun hb => ?_
    subst hb
    refine (loginCommand_talk T hs (List.prefix_refl _) hpassw).bind fun b =>
      Triple.of_fact fun hb => ?_
    subst hb
    exact Triple.pure fun s hs => ⟨rfl, hs⟩
  | apop =>
    rw [hcls] at hlogin
    obtain ⟨ts, hts, rfl⟩ := Option.map_eq_some_iff.mp hlogin
    have hcommand : 0 ∉ Apop.apopCommand usr (Apop.getHash env ts pass) := by
      simpa [Apop.apopCommand, husr, zero_notMem_getHash] using (by decide)
    refine hread.bind fun ret => Triple.of_fact fun hpos => ?_
    rw [if_neg (hret ret hpos)]
    refine reply_heard.bind fun greet => Triple.of_fact fun hgreet => ?_
    subst hgreet
    simp only [hts]
    refine ((loginCommand_talk T hs (List.prefix_refl _) hcommand).weaken fun s hs => hs.1).bind
      fun b => Triple.of_fact fun hb => ?_
    subst hb
    exact Triple.pure fun s hs => ⟨rfl, hs⟩

end Logins

/-! ### Messages -/

/-- Between two commands: only the reply to `DELE` is left to be read. -/
abbrev Between (answer : ℕ → List Bytes → Bytes) (Shows : Peers → σ → Prop) (v : Peers) (sock : ℕ)
    (cmds : List Bytes) : Weeder → Int32 → World σ → Prop :=
  Talk Shows v sock cmds (leftover (answer sock) cmds)

/-- The session goes on with message `i`. -/
structure Arrived (answer : List Bytes → Bytes) (login : List Bytes) (i : ℕ) (cmds : List Bytes) :
    Prop where
  inSession : InSession login cmds
  untouched : Untouched i cmds
  calm : Calm answer cmds

section Messages

variable {v : Peers} {sock : ℕ} {cmds login : List Bytes} {w : Weeder} {n : Int32}
  {ms : List (Message env.prefs)} {m : Message env.prefs} {i : ℕ} {E : Halt → World σ → Prop}

theorem InSession.concat {cmd : Bytes} (h : InSession login cmds) (hcmd : cmd ≠ quitCommand) :
    InSession login (cmds ++ [cmd]) :=
  ⟨h.prefix_login.trans (List.prefix_append ..), fun hmem =>
    (List.mem_append.mp hmem).elim h.noQuit fun hlast => hcmd (List.mem_singleton.mp hlast).symm⟩

theorem InSession.commands (h : InSession login cmds) (i : ℕ) (w : Weeder) (m : Message env.prefs) :
    InSession login (cmds ++ m.commands i w) :=
  ⟨h.prefix_login.trans (List.prefix_append ..), fun hmem =>
    (List.mem_append.mp hmem).elim h.noQuit (quitCommand_notMem_commands i w m)⟩

theorem not_mem_concat {i : ℕ} {cmd : Bytes} (h : deleCommand i ∉ cmds)
    (hcmd : isDele cmd = false) : deleCommand i ∉ cmds ++ [cmd] := fun hmem =>
  (List.mem_append.mp hmem).elim h
    (untouched_of_not_isDele (by simpa using hcmd) i le_rfl)

/-- What is left to be read after a message. -/
theorem leftover_commands (answer : List Bytes → Bytes) (cmds : List Bytes) (i : ℕ) (w : Weeder)
    (m : Message env.prefs) : leftover answer (cmds ++ m.commands i w) =
      if Deleted env (m.verdict w) then answer (cmds ++ m.commands i w) else [] := by
  unfold leftover Message.commands
  split_ifs <;> simp_all [isDele_deleCommand, isDele_topCommand]

/-- After a message the session goes on with the next one. -/
theorem Arrived.next (hs : Serves (answer sock) login ms bound)
    (h : Arrived (answer sock) login i cmds) (hm : (m, i) ∈ ms.zipIdx 1) (w : Weeder) :
    Arrived (answer sock) login (i + 1) (cmds ++ m.commands i w) where
  inSession := h.inSession.commands i w m
  untouched := (h.untouched.mono (Nat.le_succ i)).append fun j hj =>
    untouched_commands w m (by omega)
  calm := by
    unfold Message.commands
    split_ifs with hd
    · intro _
      have hlook : InSession login
          (cmds ++ [listCommand (decimal i)] ++ [topCommand (decimal i)]) :=
        (h.inSession.concat (awaited_listCommand _).2).concat (awaited_topCommand _).2
      have hnot : deleCommand i ∉ cmds ++ [listCommand (decimal i)] ++ [topCommand (decimal i)] :=
        not_mem_concat (not_mem_concat (h.untouched i le_rfl) (isDele_listCommand _))
          (isDele_topCommand _)
      have hdele := hs.dele _ m i hlook hm hnot
      simpa using hdele
    · have htop : Calm (answer sock)
          (cmds ++ [listCommand (decimal i)] ++ [topCommand (decimal i)]) :=
        calm_concat (isDele_topCommand (decimal i)) _
      simpa using htop

theorem InSession.arrived {answer : List Bytes → Bytes} (h : InSession login cmds)
    (huntouched : Untouched 1 cmds) : Arrived answer login 1 (cmds ++ [statCommand]) :=
  ⟨h.concat (by decide), huntouched.append (untouched_of_not_isDele (by decide)),
    calm_concat (by decide) cmds⟩

/-- The number is right when the last command was no `DELE`. -/
theorem atoi_stat {answer : List Bytes → Bytes} (hs : Serves answer login ms bound)
    (h : InSession login cmds) (hlast : cmds.getLast?.any isDele = false) :
    (atoi (secondWord (cstr (leftover answer cmds ++ answer (cmds ++ [statCommand]))))).toInt
      = (unmarked 1 ms cmds).length := by
  obtain ⟨octets, more, -, hstat⟩ := hs.stat cmds h
  have hcount : (unmarked 1 ms cmds).length < 2 ^ 31 := by
    have hle := length_unmarked_le 1 ms cmds
    have := hs.length_lt
    omega
  rw [leftover, if_neg (by simp [hlast]), hstat, List.nil_append]
  exact atoi_secondWord hcount

theorem showHeader_heard {r : Bytes} :
    Triple (Heard conns Shows v sock cmds r w n) (showHeader (conns sock) env)
      (fun _ => Heard conns Shows v sock cmds r w n) E := by
  unfold showHeader
  refine Triple.ite (fun _ => ?_) fun _ => Triple.pure fun _ hs => hs
  refine reply_heard.bind fun r' => Triple.of_fact fun _ => ?_
  refine Triple.bind (R := fun _ => Heard conns Shows v sock cmds r w n)
    (Triple.of_exec fun s hs => ?_) fun b => ?_
  · obtain ⟨b, file, hrun⟩ := exec_printHeader env (cstr r') s
    rw [hrun]
    exact ⟨⟨hs.1.shows, hs.1.weeder, hs.1.status⟩, hs.2⟩
  · exact Triple.ite (fun _ => log_heard _) fun _ => Triple.pure fun _ hs => hs

variable (T : Transport conns answer bound Shows)

include T

/-- The weeder decides about the message. -/
theorem dispose_talk :
    Triple (Talk Shows v sock cmds [] w n) (dispose (conns sock) env i m.header)
      (fun _ => Talk Shows v sock
        (cmds ++ if Deleted env (m.verdict w) then [deleCommand i] else [])
        (if Deleted env (m.verdict w) then answer sock (cmds ++ [deleCommand i]) else [])
        (m.after w) n) E := by
  refine Triple.bind (R := fun verdict s => verdict = m.verdict w ∧
    Talk Shows v sock cmds [] (m.after w) n s) (Triple.of_exec fun s hs => ?_) fun verdict =>
      Triple.of_fact fun hverdict => ?_
  · obtain ⟨hshows, rfl, hstatus⟩ := hs
    exact ⟨rfl, hshows, rfl, hstatus⟩
  · subst hverdict
    refine Triple.ite (fun hone => ?_) fun hne => ?_
    · unfold removeMsg
      refine Triple.bind (R := fun _ => Talk Shows v sock
        (cmds ++ if Deleted env (m.verdict w) then [deleCommand i] else [])
        (if Deleted env (m.verdict w) then answer sock (cmds ++ [deleCommand i]) else [])
        (m.after w) n) (Triple.ite (fun htest => ?_) fun htest => ?_)
        fun _ => Triple.pure fun _ hs => hs
      · have hkept : ¬ Deleted env (m.verdict w) := fun h =>
          Bool.false_ne_true (h.2.symm.trans htest)
        rw [if_neg hkept, if_neg hkept, List.append_nil]
        exact (log_known _).bind fun _ => Triple.pure fun _ hs => hs
      · have hdeleted : Deleted env (m.verdict w) := ⟨hone, Bool.eq_false_iff.mpr htest⟩
        rw [if_pos hdeleted, if_pos hdeleted]
        exact (cWrite_talk T (zero_not_mem_deleCommand i)).bind fun _ => Triple.pure fun _ hs => hs.2
    · have hkept : ¬ Deleted env (m.verdict w) := fun h => hne h.1
      rw [if_neg hkept, if_neg hkept, List.append_nil]
      exact Triple.pure fun _ hs => hs

/-- The rest of a round, once the header was read. -/
theorem judge_heard {r msgNo : Bytes} {size : Int32}
    (hparse : invokeMsgParser env.prefs (substrAfterFirst (chr '\n') r) (Header.new size) =
      .ok (0, m.header, [])) :
    Triple (Heard conns Shows v sock cmds r w n) (judge (conns sock) env i msgNo size)
      (fun result s => result = 0 ∧ Talk Shows v sock
        (cmds ++ if Deleted env (m.verdict w) then [deleCommand i] else [])
        (if Deleted env (m.verdict w) then answer sock (cmds ++ [deleCommand i]) else [])
        (m.after w) n s) E := by
  refine showHeader_heard.bind fun _ => reply_heard.bind fun r' => Triple.of_fact fun hr' => ?_
  subst hr'
  dsimp only
  rw [hparse]
  refine Triple.bind (R := fun _ => Talk Shows v sock cmds [] w n) (Triple.pure fun _ hs => hs.1)
    fun _ => ?_
  rw [if_neg (lt_irrefl 0)]
  exact (dispose_talk T).bind fun _ => Triple.pure fun _ hs => ⟨rfl, hs⟩

/-- **A message** is looked up, and deleted if the weeder condemns it. -/
theorem examine_between (hs : Serves (answer sock) login ms bound)
    (h : Arrived (answer sock) login i cmds) (hm : (m, i) ∈ ms.zipIdx 1) :
    Triple (Between answer Shows v sock cmds w n) (examine (conns sock) env i (decimal i))
      (fun result s => result = 0 ∧
        Between answer Shows v sock (cmds ++ m.commands i w) (m.after w) n s) E := by
  -- LIST
  have hlist := hs.list cmds m i h.inSession hm (h.untouched i le_rfl)
  have hlisted := h.calm.fine (numbersReply_fine i m.size m.text_noNul)
  rw [← hlist] at hlisted
  refine (commandOk_talk T (zero_not_mem_listCommand i)
    (hlisted.whole (length_leftover hs _ _) (by simp)) hlisted.firstByte).bind fun b =>
      Triple.of_fact fun hb => ?_
  subst hb
  refine reply_heard.bind fun r => Triple.of_fact fun hr => ?_
  have hsize : atoi (cstr (substrAfterLast (chr ' ') r)) = listedSize m.size m.text := by
    rw [hr, hlist]
    exact atoi_listed i m.size m.text _
  -- TOP
  have hsession := h.inSession.concat (awaited_listCommand (decimal i)).2
  have hnot := not_mem_concat (h.untouched i le_rfl) (isDele_listCommand (decimal i))
  obtain ⟨status, hstatus, htop⟩ := hs.top _ m i hsession hm hnot
  have htopped : Fine (status ++ m.lines ++ dotLine) :=
    (hstatus.fine.append m.noNul).append (by decide)
  have hwhole : Whole bound true (status ++ m.lines ++ dotLine) := by
    have hlen := hs.short (cmds ++ [listCommand (decimal i)] ++ [topCommand (decimal i)])
    rw [htop] at hlen
    exact htopped.whole (by omega) fun _ => Or.inl (List.suffix_append ..)
  rw [← htop] at htopped hwhole
  refine ((commandOk_fresh T (zero_not_mem_topCommand i) hwhole htopped.firstByte).weaken
    fun s hs => hs.1).bind fun b => Triple.of_fact fun hb => ?_
  subst hb
  have hparse : invokeMsgParser env.prefs (substrAfterFirst (chr '\n')
      (answer sock (cmds ++ [listCommand (decimal i)] ++ [topCommand (decimal i)])))
      (Header.new (atoi (cstr (substrAfterLast (chr ' ') r)))) = .ok (0, m.header, []) := by
    rw [invokeMsgParser, htop, List.append_assoc, hstatus.rest, hsize, m.parsed]
  refine (judge_heard T hparse).conseq (fun _ hs => hs) (fun result s hs => ⟨hs.1, ?_⟩)
    fun _ _ h => h
  have hcmds : cmds ++ [listCommand (decimal i)] ++ [topCommand (decimal i)] ++
      (if Deleted env (m.verdict w) then [deleCommand i] else []) = cmds ++ m.commands i w := by
    simp [Message.commands]
  have hunread : (if Deleted env (m.verdict w) then answer sock
      (cmds ++ [listCommand (decimal i)] ++ [topCommand (decimal i)] ++ [deleCommand i]) else []) =
        leftover (answer sock) (cmds ++ m.commands i w) := by
    rw [leftover_commands, ← hcmds]
    split_ifs <;> rfl
  rw [hcmds, hunread] at hs
  exact hs.2

/-- **All messages** from number `i` on. -/
theorem scanFrom_between (hs : Serves (answer sock) login ms bound)
    {rest : List (Message env.prefs)} (hrest : ∀ x ∈ rest.zipIdx i, x ∈ ms.zipIdx 1)
    (hi : i + rest.length < 2 ^ 31) (h : Arrived (answer sock) login i cmds) :
    Triple (Between answer Shows v sock cmds w n) (scanFrom (conns sock) env rest.length i [])
      (fun result s => result = 0 ∧ Between answer Shows v sock (cmds ++ scanCommands i w rest)
        (sift w rest).2 n s ∧ Arrived (answer sock) login (i + rest.length)
          (cmds ++ scanCommands i w rest)) E := by
  induction rest generalizing i w cmds with
  | nil =>
    refine Triple.pure fun s hs => ?_
    rw [scanCommands, List.append_nil]
    exact ⟨rfl, hs, h⟩
  | cons m rest ih =>
    have hm : (m, i) ∈ ms.zipIdx 1 := hrest _ List.mem_cons_self
    rw [List.length_cons] at hi ⊢
    refine (examine_between T hs h hm).bind fun result => Triple.of_fact fun hresult => ?_
    subst hresult
    rw [if_neg (lt_irrefl 0), if_neg (by omega), scanCommands, ← List.append_assoc]
    have hnext := ih (w := m.after w) (fun x hx => hrest x (List.mem_cons_of_mem _ hx)) (by omega)
      (h.next hs hm w)
    rw [Nat.add_right_comm] at hnext
    exact hnext

/-! ### Sessions -/

/-- The number of messages that are left, unless the reply to `DELE` is taken for it. -/
theorem status_between (hs : Serves (answer sock) login ms bound) (h : InSession login cmds)
    (hcalm : Calm (answer sock) cmds) :
    Triple (Between answer Shows v sock cmds w n) (status (conns sock))
      (fun k s => k = atoi (secondWord (cstr (leftover (answer sock) cmds ++
          answer sock (cmds ++ [statCommand])))) ∧
        Between answer Shows v sock (cmds ++ [statCommand]) w n s) E := by
  obtain ⟨octets, more, hmore, hstat⟩ := hs.stat cmds h
  have hfine := hcalm.fine (numbersReply_fine (unmarked 1 ms cmds).length octets hmore)
  rw [← hstat] at hfine
  refine (status_talk T (hfine.whole (length_leftover hs _ _) (by simp)) hfine.firstByte).conseq
    (fun _ hs => hs) (fun k s hk => ⟨hk.1, ?_⟩) fun _ _ h => h
  rw [Between, leftover_concat (by decide)]
  exact hk.2

theorem scan_between (hs : Serves (answer sock) login ms bound) (h : InSession login cmds)
    (huntouched : Untouched 1 cmds) (hlast : cmds.getLast?.any isDele = false) :
    Triple (Between answer Shows v sock cmds w n) (scan (conns sock) env)
      (fun result s => result = 0 ∧ Between answer Shows v sock
        (cmds ++ [statCommand] ++ scanCommands 1 w ms) (sift w ms).2 n s ∧
        Arrived (answer sock) login (1 + ms.length) (cmds ++ [statCommand] ++ scanCommands 1 w ms))
      E := by
  have hcalm : Calm (answer sock) cmds := fun hdele => absurd hdele (by simp [hlast])
  have hcount := atoi_stat hs h hlast
  rw [unmarked_of_untouched huntouched ms] at hcount
  refine (status_between T hs h hcalm).bind fun k => Triple.of_fact fun hk => ?_
  rw [← hk] at hcount
  have hnonneg : ¬ k < 0 := by
    rw [Int32.lt_iff_toInt_lt, hcount]
    simp
  rw [if_neg hnonneg, hcount, Int.toNat_natCast]
  exact scanFrom_between T hs (fun x hx => hx) (by have := hs.length_lt; omega)
    (h.arrived huntouched)

/-- The number of messages is asked for again if it is the return value of the program. -/
theorem recount_between (hs : Serves (answer sock) login ms bound) (h : InSession login cmds)
    (hcalm : Calm (answer sock) cmds) (k : Int32) :
    Triple (Between answer Shows v sock cmds w n) (recount (conns sock) env k)
      (fun k' s => k' = (if env.prefs.returnStatus then atoi (secondWord (cstr
          (leftover (answer sock) cmds ++ answer sock (cmds ++ [statCommand])))) else k) ∧
        Between answer Shows v sock (cmds ++ if env.prefs.returnStatus then [statCommand] else [])
          w n s) E := by
  unfold recount
  split_ifs with hret
  · exact status_between T hs h hcalm
  · rw [List.append_nil]
    exact Triple.pure fun s hs => ⟨rfl, hs⟩

end Messages

section Sessions

variable {v : Peers} {sock : ℕ} {login : List Bytes} {w : Weeder} {n : Int32}
  {ms : List (Message env.prefs)} {E : Halt → World σ → Prop}

/-- The commands before the number of messages is asked for again. -/
def scanned (login : List Bytes) (w : Weeder) (ms : List (Message env.prefs)) : List Bytes :=
  login ++ [statCommand, statCommand] ++ scanCommands 1 w ms

/-- The number that is read after the scan. -/
def recounted (answer : List Bytes → Bytes) (login : List Bytes) (w : Weeder)
    (ms : List (Message env.prefs)) : Int32 :=
  if env.prefs.returnStatus then
    atoi (secondWord (cstr (leftover answer (scanned login w ms) ++
      answer (scanned login w ms ++ [statCommand]))))
  else Int32.ofNat ms.length

/-- What an account adds to the number of messages: nothing, if the reply to `DELE` is taken for a
negative number. -/
def counted (answer : List Bytes → Bytes) (login : List Bytes) (w : Weeder)
    (ms : List (Message env.prefs)) : Int32 :=
  if recounted answer login w ms < 0 then 0 else recounted answer login w ms

/-- Without `-r` it is the number of messages. -/
theorem recounted_nonneg {answer : List Bytes → Bytes} (hs : Serves answer login ms bound)
    (hret : env.prefs.returnStatus = false) : ¬ recounted answer login w ms < 0 := by
  rw [recounted, hret, if_neg Bool.false_ne_true, Int32.lt_iff_toInt_lt, Int32.toInt_zero, not_lt,
    Int32.toInt_ofNat_of_lt (by have := hs.length_lt; omega)]
  exact Int.natCast_nonneg _

variable (T : Transport conns answer bound Shows)

include T

theorem logout_talk {cmds : List Bytes} {unread : Bytes} :
    Triple (Talk Shows v sock cmds unread w n) (logout (conns sock))
      (fun ok s => ok = true ∧
        ∃ unread, Talk Shows v sock (cmds ++ [quitCommand]) unread w n s) E :=
  (cWrite_talk T (by decide)).bind fun _ => Triple.of_fact fun hsent =>
    Triple.pure fun _ hs => ⟨decide_eq_true hsent, _, hs⟩

/-- An account that is left after an error. -/
theorem leave_talk {cmds : List Bytes} (call : LogCall) :
    Triple (Between answer Shows v sock cmds w n)
      (do log call; let _ ← logout (conns sock); let _ ← cClose conns sock; pure genFailureFlag : Run σ ℤ)
      (fun _ s => ∃ unread, Talk Shows v sock (cmds ++ [quitCommand]) unread w n s) E :=
  (log_known call).bind fun _ => (logout_talk T).bind fun _ => Triple.of_fact fun _ =>
    Triple.of_exists fun unread => (cClose_known T).bind fun _ => Triple.of_fact fun _ =>
      Triple.pure fun _ hs => ⟨unread, hs⟩

/-- The end of a session adds the number of messages. -/
theorem conclude_talk {cmds : List Bytes} (messages : Int32) :
    Triple (Between answer Shows v sock cmds w n)
      (do
        modify fun w => { w with mailboxStatus := w.mailboxStatus + messages }
        if ← logout (conns sock) then do
          let closed ← cClose conns sock
          pure (if closed = 0 then 0 else genFailureFlag)
        else pure genFailureFlag : Run σ ℤ)
      (fun status s => status = 0 ∧
        ∃ unread, Talk Shows v sock (cmds ++ [quitCommand]) unread w (n + messages) s) E := by
  refine Triple.bind (R := fun _ => Between answer Shows v sock cmds w (n + messages))
    (Triple.modify fun s hs => ⟨hs.shows, hs.weeder, by rw [hs.status]⟩) fun _ => ?_
  refine (logout_talk T).bind fun ok => Triple.of_fact fun hok => ?_
  rw [if_pos hok]
  exact Triple.of_exists fun unread => (cClose_known T).bind fun closed =>
    Triple.of_fact fun hclosed => Triple.pure fun s hs => ⟨if_pos hclosed, unread, hs⟩

/-- **A session** with an account. -/
theorem session_known {a : Account} {proto : Protocol} (hs : Serves (answer sock) login ms bound)
    (hlogin : loginCommands env proto (cstr a.usr) (cstr a.passwd) (answer sock []) = some login)
    (hnone : v sock = none) :
    Triple (Known Shows v w n) (Account.session conns env a sock proto sock)
      (fun status s => (env.prefs.returnStatus = false → status = 0) ∧
        ∃ unread, Talk Shows v sock (sessionCommands login w ms) unread (sift w ms).2
          (n + counted (answer sock) login w ms) s) E := by
  have hawaited := awaited_loginCommands hlogin
  have hlast := getLast_isDele hawaited
  have hsession : InSession login login := ⟨List.prefix_refl _, quitCommand_notMem hawaited⟩
  have huntouched : Untouched 1 login := untouched_of_awaited hawaited
  have hcalm : Calm (answer sock) login := fun hdele => absurd hdele (by simp [hlast])
  have hcount := atoi_stat hs hsession hlast
  rw [unmarked_of_untouched huntouched ms] at hcount
  refine (cOpen_known T _ _ _ _ hnone).bind fun opened => Triple.of_fact fun hopened => ?_
  rw [if_neg (not_not.mpr hopened)]
  refine (login_talk T hs (zero_notMem_cstr _) (zero_notMem_cstr _) hlogin).bind fun ok =>
    Triple.of_fact fun hok => ?_
  subst hok
  have hstatus := status_between (v := v) (w := w) (n := n) (E := E) T hs hsession hcalm
  refine (hstatus.weaken fun s hs => ?_).bind fun messages => Triple.of_fact fun hmessages => ?_
  · rw [Between, leftover, if_neg (by simp [hlast])]
    exact hs
  rw [← hmessages] at hcount
  have hmessages : messages = Int32.ofNat ms.length := Int32.toInt.inj
    (by rw [hcount, Int32.toInt_ofNat_of_lt (by have := hs.length_lt; omega)])
  rw [if_neg (by rw [Int32.lt_iff_toInt_lt, hcount]; simp)]
  refine (log_known _).bind fun _ => ?_
  -- the scan
  have harrived : Arrived (answer sock) login 1 (login ++ [statCommand]) :=
    hsession.arrived huntouched
  have hscan := scan_between (v := v) (w := w) (n := n) (E := E) T hs harrived.inSession
    harrived.untouched (by simp [show isDele statCommand = false from rfl])
  have hcmds : login ++ [statCommand] ++ [statCommand] ++ scanCommands 1 w ms =
      scanned login w ms := by simp [scanned]
  rw [hcmds] at hscan
  refine hscan.bind fun result => Triple.of_fact fun hresult => ?_
  subst hresult
  rw [if_neg (lt_irrefl 0)]
  refine Triple.weaken (Triple.of_fact fun hdone => ?_) fun s hs => ⟨hs.2, hs.1⟩
  -- the number of messages, once more
  refine (recount_between T hs hdone.inSession hdone.calm messages).bind fun count =>
    Triple.of_fact fun hcount' => ?_
  have hrecounted : count = recounted (answer sock) login w ms := by
    rw [hcount', hmessages]
    rfl
  have hcounted : counted (answer sock) login w ms = if count < 0 then 0 else count := by
    rw [counted, ← hrecounted]
  rw [hcounted]
  refine Triple.ite (fun hbad => ?_) fun hgood => ?_
  · -- a reply to `DELE` with a negative number
    obtain ⟨hret, hneg⟩ := Bool.and_eq_true_iff.mp hbad
    rw [if_pos (of_decide_eq_true hneg), Int32.add_zero]
    refine (leave_talk T _).conseq (fun _ h => h) (fun status s hs => ⟨fun h => ?_, hs⟩) fun _ _ h => h
    exact absurd (hret.symm.trans h) Bool.noConfusion
  · have hnonneg : ¬ count < 0 := by
      intro hneg
      cases hret : env.prefs.returnStatus with
      | true => exact hgood (by rw [hret, decide_eq_true hneg]; rfl)
      | false => exact recounted_nonneg hs hret (hrecounted ▸ hneg)
    rw [if_neg hnonneg]
    exact (conclude_talk T count).conseq (fun _ h => h) (fun status s hs => ⟨fun _ => hs.1, hs.2⟩)
      fun _ _ h => h

end Sessions

end Mailfilter
