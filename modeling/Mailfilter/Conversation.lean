import Mailfilter.Invariants
import Mathlib.Computability.DFA

/-!
# Conversations

What the program says to a server, as an automaton over the events of a session: which call may come
next, given what the server has replied so far.

* `Query`, a command that asks for a reply, and `Stage`, what the program has learnt and is about to do;
* `Stage.query`, the only query that is allowed in a stage, and `Stage.step`;
* `conversation`, the automaton, and `Speaks`: the events since some point are a conversation;
* one lemma for every member function: it takes the automaton from one stage to another;
* `checkAccounts_speaks`: in every run over any accounts each account has one conversation, in the
  order of the accounts.
-/

namespace Mailfilter

open Pop3 Program

/-! ### Stages -/

/-- A command that asks for a reply. -/
inductive Query
  | user
  | pass
  | apop (stamp : Bytes)
  /-- The first `STAT` comes from `Account::check`, the second from `scan`, and the third is that of
  the return value. -/
  | stat (k : ℕ)
  | list (count i : ℕ)
  | top (count i : ℕ) (size : Int32)
  deriving DecidableEq

/-- Has the user logged in, when this is asked? -/
def Query.loggedIn : Query → Bool
  | .user => false
  | .pass => false
  | .apop _ => false
  | _ => true

/-- Is the reply a header? -/
def Query.header : Query → Bool
  | .top .. => true
  | _ => false

/-- What the program has learnt from the server of an account, as far as it matters. -/
inductive Stage
  | start
  /-- The connection is open, and the greeting was not read yet. -/
  | opened
  | greeted (greeting : Option Bytes)
  /-- The query was written, or it could not be. -/
  | asked (q : Query)
  /-- The reply reports success. -/
  | answered (q : Query) (reply : Bytes)
  /-- Message `i` is to be deleted. -/
  | condemned (count i : ℕ)
  | examined (count i : ℕ)
  /-- There was no reply that reports success. -/
  | refused (loggedIn : Bool)
  | leaving
  | closed
  deriving DecidableEq

/-- The number of messages in a reply to `STAT`. -/
def messageCount (reply : Bytes) : Int32 := atoi (secondWord (cstr reply))

/-- What becomes of the header in a reply to `TOP`: the parsed header, if it can be parsed. -/
def parsedHeader (env : Env) (size : Int32) (reply : Bytes) : Except Halt (ℤ × Header × List LogCall) :=
  invokeMsgParser env.prefs (substrAfterFirst (chr '\n') reply) (Header.new size)

section Automaton

variable (env : Env) (a : Account)

/-- The command of a query. -/
def Query.command : Query → Bytes
  | .user => userCommand (cstr a.usr)
  | .pass => passCommand (cstr a.passwd)
  | .apop stamp => Apop.apopCommand (cstr a.usr) (Apop.getHash env stamp (cstr a.passwd))
  | .stat _ => statCommand
  | .list _ i => listCommand (decimal i)
  | .top _ i _ => topCommand (decimal i)

/-- The query behind the last message: the number of messages is the return value of the program. -/
def lastQuery : Option Query := if env.prefs.returnStatus then some (.stat 2) else none

/-- The query that comes next. -/
def Stage.query : Stage → Option Query
  | .greeted greeting => a.proto.bind fun proto =>
    match proto.cls with
    | .pop3 => some .user
    | .apop => (greeting.bind Apop.timestamp).map .apop
  | .answered .user _ => some .pass
  | .answered .pass _ => some (.stat 0)
  | .answered (.apop _) _ => some (.stat 0)
  | .answered (.stat 0) reply => if messageCount reply < 0 then none else some (.stat 1)
  | .answered (.stat 1) reply =>
    if messageCount reply < 0 then none
    else if (messageCount reply).toInt.toNat = 0 then lastQuery env
    else some (.list (messageCount reply).toInt.toNat 1)
  | .answered (.list count i) reply =>
    some (.top count i (atoi (cstr (substrAfterLast (chr ' ') reply))))
  | .examined count i => if i < count then some (.list count (i + 1)) else lastQuery env
  | _ => none

/-- Without another query the session is left by `QUIT`. -/
def Stage.quits : Stage → Bool
  | .asked q => q.loggedIn
  | .refused loggedIn => loggedIn
  | .answered (.stat _) _ => true
  | .answered (.top _ _ size) reply =>
    match parsedHeader env size reply with
    | .ok (error, _, _) => error < 0
    | .error _ => false
  | .examined .. => true
  | _ => false

/-- The connection is closed without `QUIT` when the login fails, and else after it. -/
def Stage.closes : Stage → Bool
  | .asked q => !q.loggedIn
  | .refused loggedIn => !loggedIn
  | .greeted _ => true
  | .leaving => true
  | _ => false

/-- What a reply makes of a query. -/
def Query.replied (q : Query) (ret : Int32) (reply : Option Bytes) : Stage :=
  if 0 < ret then
    match reply with
    | some reply => if firstByte reply = chr '+' then .answered q reply else .refused q.loggedIn
    | none => .refused q.loggedIn
  else .refused q.loggedIn

/-- A message is written. -/
def Stage.write (p : Stage) (msg : Bytes) : Option Stage :=
  match p.query env a with
  | some q => if msg = q.command env a then some (.asked q) else none
  | none =>
    match p with
    | .condemned count i => if msg = deleCommand i then some (.examined count i) else none
    | p => if p.quits env && msg = quitCommand then some .leaving else none

/-- A call of `c_read` returns. -/
def Stage.read (p : Stage) (header : Bool) (ret : Int32) (reply : Option Bytes) : Option Stage :=
  match p with
  | .opened =>
    if header then none else some (if ret = -1 then .refused false else .greeted reply)
  | .asked q => if header = q.header then some (q.replied ret reply) else none
  | _ => none

/-- The weeder is asked about the header that was read, and not about anything else.  What it condemns
is deleted, unless that is simulated. -/
def Stage.weed (p : Stage) (hdr : Header) (verdict : ℤ) : Option Stage :=
  match p with
  | .answered (.top count i size) reply =>
    match parsedHeader env size reply with
    | .ok (error, parsed, _) =>
      if 0 ≤ error ∧ hdr = parsed then
        some (if verdict = 1 ∧ env.prefs.testMode = false then .condemned count i
          else .examined count i)
      else none
    | .error _ => none
  | _ => none

/-- What an event makes of a stage; `none`, if the event does not belong there. -/
def Stage.step (p : Stage) : Event → Option Stage
  | .opened sock ret =>
    if p = .start ∧ a.conn = some sock then some (if ret = 0 then .opened else .closed) else none
  | .closed sock _ =>
    if p.closes ∧ p.query env a = none ∧ a.conn = some sock then some .closed else none
  | .write msg => p.write env a msg
  | .read header ret reply => p.read header ret reply
  | .weed _ hdr verdict => p.weed env hdr verdict

/-- **The automaton** of the conversations with the server of an account. -/
def conversation : DFA Event (Option Stage) where
  step p e := p.bind fun p => p.step env a e
  start := some .start
  accept := { p | p.isSome }

end Automaton

/-! ### Conversations in a run -/

section Speaking

variable {σ : Type} {env : Env} {a : Account} {t : List Event} {p p' : Stage} {s : World σ}
  {conn : Connection σ} {conns : ℕ → Connection σ}

/-- The events since `t` are a conversation that has come to a stage. -/
def Speaks (env : Env) (a : Account) (t : List Event) (p : Stage) (s : World σ) : Prop :=
  ∃ u, s.trace = t ++ u ∧ (conversation env a).eval u = some p

/-- They are a conversation. -/
def Spoke (env : Env) (a : Account) (t : List Event) (s : World σ) : Prop :=
  ∃ p, Speaks env a t p s

theorem Speaks.record {e : Event} (hs : Speaks env a t p s) (hstep : p.step env a e = some p') :
    Speaks env a t p' (s.record e) := by
  obtain ⟨u, htrace, heval⟩ := hs
  refine ⟨u ++ [e], by rw [World.record, htrace, List.append_assoc], ?_⟩
  rw [DFA.eval_append_singleton, heval]
  exact hstep

theorem onWire_speaks {α : Type} (p : Stage) (call : Program Halt (Wire σ) α) :
    Triple (Speaks env a t p) (onWire call) (fun _ => Speaks env a t p) (fun _ => Spoke env a t) :=
  (onWire_preserves (fun _ _ hs => hs) call).errors fun _ _ hs => ⟨p, hs⟩

theorem log_speaks (p : Stage) (call : LogCall) {E : Halt → World σ → Prop} :
    Triple (Speaks env a t p) (log call) (fun _ => Speaks env a t p) E :=
  Triple.modify fun _ hs => hs

theorem throw_spoke {α : Type} (p : Stage) (e : Halt) {Q : α → World σ → Prop} :
    Triple (Speaks env a t p) (throw e : Run σ α) Q fun _ => Spoke env a t :=
  Triple.throw fun _ hs => ⟨p, hs⟩

/-- A message is written that belongs there. -/
theorem cWrite_speaks {msg : Bytes} (hstep : p.write env a msg = some p') :
    Triple (Speaks env a t p) (cWrite conn msg) (fun _ => Speaks env a t p')
      (fun _ => Spoke env a t) :=
  Triple.bind (R := fun _ => Speaks env a t p') (Triple.modify fun _ hs => hs.record hstep) fun _ =>
    onWire_speaks p' _

/-- A call of `c_read`, where a reply is expected. -/
theorem cRead_speaks {header : Bool} (next : Int32 → Option Bytes → Stage)
    (hstep : ∀ ret reply, p.read header ret reply = some (next ret reply)) :
    Triple (Speaks env a t p) (cRead conn header)
      (fun ret s => Speaks env a t (next ret (conn.cReply s.wire.net)) s) (fun _ => Spoke env a t) := by
  refine (onWire_speaks p _).bind fun ret => ?_
  refine Triple.bind (R := fun _ s => Speaks env a t (next ret (conn.cReply s.wire.net)) s)
    (Triple.modify fun s hs => ?_) fun _ => Triple.pure fun _ hs => hs
  exact hs.record (hstep ret _)

/-! ### Member functions -/

/-- The query comes next. -/
def Next (env : Env) (a : Account) (t : List Event) (q : Query) (s : World σ) : Prop :=
  ∃ p, p.query env a = some q ∧ Speaks env a t p s

/-- `QUIT` comes next. -/
def Quits (env : Env) (a : Account) (t : List Event) (s : World σ) : Prop :=
  ∃ p, p.query env a = none ∧ p.quits env = true ∧ Speaks env a t p s

/-- The connection is closed next. -/
def HangsUp (env : Env) (a : Account) (t : List Event) (s : World σ) : Prop :=
  ∃ p, p.query env a = none ∧ p.closes = true ∧ Speaks env a t p s

/-- The session is over, by `QUIT` if the user has logged in. -/
def GaveUp (env : Env) (a : Account) (t : List Event) (loggedIn : Bool) (s : World σ) : Prop :=
  if loggedIn then Quits env a t s else HangsUp env a t s

/-- The reply of the connection reports success, or the session is over. -/
def Heeded (env : Env) (a : Account) (t : List Event) (conn : Connection σ) (q : Query) (ok : Bool)
    (s : World σ) : Prop :=
  if ok then ∃ r, conn.cReply s.wire.net = some r ∧ Speaks env a t (.answered q r) s
  else GaveUp env a t q.loggedIn s

theorem gaveUp_of_asked {q : Query} (hs : Speaks env a t (.asked q) s) :
    GaveUp env a t q.loggedIn s := by
  unfold GaveUp
  split_ifs with hq
  · exact ⟨.asked q, rfl, hq, hs⟩
  · exact ⟨.asked q, rfl, by simp [Stage.closes, hq], hs⟩

theorem gaveUp_of_refused {loggedIn : Bool} (hs : Speaks env a t (.refused loggedIn) s) :
    GaveUp env a t loggedIn s := by
  unfold GaveUp
  split_ifs with hq
  · exact ⟨.refused loggedIn, rfl, hq, hs⟩
  · exact ⟨.refused loggedIn, rfl, by simp [Stage.closes, hq], hs⟩

/-- `REPLY_OK` and `HEADER_OK`, when a query was written. -/
theorem replyOk_speaks (q : Query) :
    Triple (Speaks env a t (.asked q)) (replyOk conn q.header) (Heeded env a t conn q)
      (fun _ => Spoke env a t) := by
  refine (cRead_speaks q.replied fun ret reply => by simp [Stage.read]).bind fun ret => ?_
  refine Triple.ite (fun hpos => ?_) fun hneg => Triple.pure fun s hs => ?_
  · refine Triple.bind (R := fun o s => o = conn.cReply s.wire.net ∧ Speaks env a t (q.replied ret o) s)
      (Triple.gets fun _ hs => ⟨rfl, hs⟩) fun o => ?_
    unfold Query.replied
    rw [if_pos hpos]
    cases o with
    | none => exact Triple.pure fun s hs => gaveUp_of_refused hs.2
    | some r =>
      refine Triple.pure fun s hs => ?_
      obtain ⟨hreply, hs⟩ := hs
      dsimp only at hs
      by_cases hok : firstByte r = chr '+'
      · rw [if_pos hok] at hs
        rw [Heeded, if_pos (decide_eq_true hok)]
        exact ⟨r, hreply.symm, hs⟩
      · rw [if_neg hok] at hs
        rw [Heeded, if_neg (by simpa using hok)]
        exact gaveUp_of_refused hs
  · unfold Query.replied at hs
    rw [if_neg hneg] at hs
    exact gaveUp_of_refused hs

/-- The query that comes next is written, and answered. -/
theorem commandOk_speaks (q : Query) :
    Triple (Next env a t q) (commandOk conn q.header (q.command env a)) (Heeded env a t conn q)
      (fun _ => Spoke env a t) := by
  refine Triple.of_exists fun p => Triple.of_fact fun hquery => ?_
  have hwrite : p.write env a (q.command env a) = some (.asked q) := by
    simp [Stage.write, hquery]
  refine (cWrite_speaks hwrite).bind fun sent => ?_
  exact Triple.ite (fun _ => Triple.pure fun _ hs => gaveUp_of_asked hs) fun _ => replyOk_speaks q

/-- The reply is still the one that reported success. -/
theorem reply_answered {q : Query} :
    Triple (Heeded env a t conn q true) (reply conn)
      (fun r s => conn.cReply s.wire.net = some r ∧ Speaks env a t (.answered q r) s)
      (fun _ => Spoke env a t) := by
  refine Triple.bind (R := fun o s => ∃ r, o = some r ∧ conn.cReply s.wire.net = some r ∧
    Speaks env a t (.answered q r) s) (Triple.gets fun s hs => ?_) fun o => ?_
  · obtain ⟨r, hreply, hs⟩ := hs
    exact ⟨r, hreply, hreply, hs⟩
  · refine Triple.of_exists fun r => Triple.of_fact fun ho => ?_
    subst ho
    exact Triple.pure fun _ hs => hs

/-- A command of the login, and a message in the log if it fails. -/
theorem loginStep_speaks {q : Query} (hq : q.loggedIn = false) (hheader : q.header = false)
    (call : LogCall) {next : Run σ Bool} {Q : Bool → World σ → Prop}
    (hfail : ∀ s, HangsUp env a t s → Q false s)
    (hnext : ∀ r, Triple (Speaks env a t (.answered q r)) next Q (fun _ => Spoke env a t)) :
    Triple (Next env a t q)
      (do if !(← commandOk conn false (q.command env a)) then do log call; pure false else next) Q
      (fun _ => Spoke env a t) := by
  have hcommand : Triple (Next env a t q) (commandOk conn q.header (q.command env a))
      (Heeded env a t conn q) (fun _ => Spoke env a t) := commandOk_speaks q
  rw [hheader] at hcommand
  refine hcommand.bind fun ok => ?_
  unfold Heeded GaveUp
  rw [hq]
  cases ok with
  | false =>
    refine Triple.bind (R := fun _ => HangsUp env a t) ?_ fun _ => Triple.pure hfail
    exact Triple.modify fun _ hs => hs
  | true =>
    refine Triple.of_exists fun r => ?_
    exact (hnext r).weaken fun _ hs => hs.2

/-- The greeting is read. -/
theorem greeting_speaks : Triple (Speaks env a t .opened) (cRead conn false)
    (fun ret s => (ret = -1 → HangsUp env a t s) ∧
      (ret ≠ -1 → Speaks env a t (.greeted (conn.cReply s.wire.net)) s))
    (fun _ => Spoke env a t) := by
  have hread : Triple (Speaks env a t .opened) (cRead conn false) (fun ret s => Speaks env a t
      (if ret = -1 then .refused false else .greeted (conn.cReply s.wire.net)) s)
      (fun _ => Spoke env a t) :=
    cRead_speaks (fun ret reply => if ret = -1 then .refused false else .greeted reply)
      fun _ _ => rfl
  refine hread.conseq (fun _ hs => hs) (fun ret s hs => ⟨fun hret => ?_, fun hret => ?_⟩)
    fun _ _ hs => hs
  · rw [if_pos hret] at hs
    exact ⟨.refused false, rfl, rfl, hs⟩
  · rwa [if_neg hret] at hs

/-- **The login**: afterwards the number of messages is asked for, or the connection is closed. -/
theorem login_speaks {proto : Protocol} (hproto : a.proto = some proto) :
    Triple (Speaks env a t .opened) (proto.login conn env (cstr a.usr) (cstr a.passwd))
      (fun ok s => if ok then Next env a t (.stat 0) s else HangsUp env a t s)
      (fun _ => Spoke env a t) := by
  unfold Protocol.login
  cases hcls : proto.cls with
  | pop3 =>
    refine greeting_speaks.bind fun ret =>
      Triple.ite (fun hret => Triple.pure fun s hs => hs.1 hret) fun hret => ?_
    refine Triple.weaken (loginStep_speaks (q := .user) rfl rfl _ (fun _ hs => hs) fun r => ?_)
      fun s hs => ⟨_, ?_, hs.2 hret⟩
    · refine Triple.weaken (loginStep_speaks (q := .pass) rfl rfl _ (fun _ hs => hs) fun r' =>
        Triple.pure fun _ hs => ⟨_, rfl, hs⟩) fun _ hs => ⟨_, rfl, hs⟩
    · simp [Stage.query, hproto, hcls]
  | apop =>
    refine greeting_speaks.bind fun ret =>
      Triple.ite (fun hret => Triple.pure fun s hs => hs.1 hret) fun hret => ?_
    refine Triple.bind (R := fun greet => Speaks env a t (.greeted (some greet))) ?_ fun greet => ?_
    · refine Triple.bind (R := fun o => Speaks env a t (.greeted o))
        (Triple.gets fun _ hs => hs.2 hret) fun o => ?_
      cases o with
      | none => exact throw_spoke _ _
      | some greet => exact Triple.pure fun _ hs => hs
    · cases hstamp : Apop.timestamp greet with
      | none =>
        refine Triple.pure fun s hs => ⟨_, ?_, rfl, hs⟩
        simp [Stage.query, hproto, hcls, hstamp]
      | some stamp =>
        refine Triple.weaken (loginStep_speaks (q := .apop stamp) rfl rfl _ (fun _ hs => hs) fun r =>
          Triple.pure fun _ hs => ⟨_, rfl, hs⟩) fun s hs => ⟨_, ?_, hs⟩
        simp [Stage.query, hproto, hcls, hstamp]

/-- `status`: the number of messages, or the session is over. -/
theorem status_speaks (k : ℕ) :
    Triple (Next env a t (.stat k)) (status conn)
      (fun n s => (n < 0 → Quits env a t s) ∧
        (¬ n < 0 → ∃ r, messageCount r = n ∧ Speaks env a t (.answered (.stat k) r) s))
      (fun _ => Spoke env a t) := by
  refine Triple.of_exists fun p => Triple.of_fact fun hquery => ?_
  have hwrite : p.write env a statCommand = some (.asked (.stat k)) := by
    simp [Stage.write, hquery, Query.command]
  have hfailed (s : World σ) (hs : Quits env a t s) : ((-1 : Int32) < 0 → Quits env a t s) ∧
      (¬ (-1 : Int32) < 0 → ∃ r, messageCount r = -1 ∧ Speaks env a t (.answered (.stat k) r) s) :=
    ⟨fun _ => hs, fun h => absurd (by decide) h⟩
  refine (cWrite_speaks hwrite).bind fun sent =>
    Triple.ite (fun _ => Triple.pure fun s hs => hfailed s (gaveUp_of_asked hs)) fun _ => ?_
  refine (replyOk_speaks (.stat k)).bind fun ok => ?_
  cases ok with
  | false => exact Triple.pure fun s hs => hfailed s hs
  | true =>
    refine reply_answered.bind fun r => Triple.pure fun s hs => ⟨fun hneg => ?_, fun _ => ?_⟩
    · refine ⟨_, ?_, rfl, hs.2⟩
      have hcount : messageCount r < 0 := hneg
      match k with
      | 0 => simp [Stage.query, hcount]
      | 1 => simp [Stage.query, hcount]
      | k + 2 => rfl
    · exact ⟨r, rfl, hs.2⟩

/-- A function of the scan has returned, with an error or in a state with `Q`. -/
def Returned (env : Env) (a : Account) (t : List Event) (Q : World σ → Prop) (result : ℤ)
    (s : World σ) : Prop :=
  if result < 0 then Quits env a t s else Q s

theorem returned_failure {Q : World σ → Prop} (hs : Quits env a t s) :
    Returned env a t Q genFailureFlag s := by
  rwa [Returned, if_pos (by decide)]

theorem returned_zero {Q : World σ → Prop} (hs : Q s) : Returned env a t Q 0 s := by
  rwa [Returned, if_neg (lt_irrefl 0)]

theorem Returned.quits {Q : World σ → Prop} {result : ℤ} (hs : Returned env a t Q result s)
    (hneg : result < 0) : Quits env a t s := by
  rwa [Returned, if_pos hneg] at hs

theorem Returned.ok {Q : World σ → Prop} {result : ℤ} (hs : Returned env a t Q result s)
    (hneg : ¬ result < 0) : Q s := by
  rwa [Returned, if_neg hneg] at hs

/-- The weeder decides, and what it condemns is deleted. -/
theorem dispose_speaks {count i : ℕ} {size : Int32} {r : Bytes} {hdr : Header}
    {calls : List LogCall} {e : ℤ} (hparse : parsedHeader env size r = .ok (e, hdr, calls))
    (he : ¬ e < 0) :
    Triple (Speaks env a t (.answered (.top count i size) r)) (dispose conn env i hdr)
      (fun _ => Speaks env a t (.examined count i)) (fun _ => Spoke env a t) := by
  refine Triple.bind (R := fun verdict => Speaks env a t
    (if verdict = 1 ∧ env.prefs.testMode = false then .condemned count i else .examined count i))
    (Triple.of_exec fun s hs => ?_) fun verdict => ?_
  · have hstep : (Stage.answered (.top count i size) r).step env a
        (.weed s.weeder hdr (isWeed env.prefs env.regexec hdr s.weeder).1) = some
          (if (isWeed env.prefs env.regexec hdr s.weeder).1 = 1 ∧ env.prefs.testMode = false then
            .condemned count i else .examined count i) := by
      simp [Stage.step, Stage.weed, hparse, not_lt.mp he]
    exact hs.record hstep
  · refine Triple.ite (fun hone => ?_) fun hne => Triple.pure fun s hs => by simpa [hne] using hs
    unfold removeMsg
    refine Triple.bind (R := fun _ => Speaks env a t (.examined count i))
      (Triple.ite (fun htest => ?_) fun htest => ?_) fun _ => Triple.pure fun _ hs => hs
    · simp only [htest, Bool.true_eq_false, and_false, if_false]
      exact (log_speaks _ _).bind fun _ => Triple.pure fun _ hs => hs
    · simp only [hone, Bool.eq_false_iff.mpr htest, and_self, if_true]
      have hwrite : (Stage.condemned count i).write env a (deleCommand i) =
          some (.examined count i) := if_pos rfl
      exact (cWrite_speaks hwrite).bind fun _ => Triple.pure fun _ hs => hs

/-- The rest of a round, once the header was read. -/
theorem judge_speaks {count i : ℕ} (msgNo : Bytes) (size : Int32) :
    Triple (Heeded env a t conn (.top count i size) true) (judge conn env i msgNo size)
      (Returned env a t (Speaks env a t (.examined count i))) (fun _ => Spoke env a t) := by
  have hshow : Triple (Heeded env a t conn (.top count i size) true) (showHeader conn env)
      (fun _ => Heeded env a t conn (.top count i size) true) (fun _ => Spoke env a t) :=
    (showHeader_preserves fun _ _ _ hs => hs).errors fun _ _ hs => ⟨_, hs.choose_spec.2⟩
  refine hshow.bind fun _ => reply_answered.bind fun r => ?_
  dsimp only
  have hparser : invokeMsgParser env.prefs (substrAfterFirst (chr '\n') r) (Header.new size) =
    parsedHeader env size r := rfl
  rw [hparser]
  rcases hparse : parsedHeader env size r with h | ⟨e, hdr, calls⟩
  · exact Triple.throw fun _ hs => ⟨_, hs.2⟩
  refine Triple.bind (R := fun _ => Speaks env a t (.answered (.top count i size) r)) ?_ fun _ => ?_
  · have hlogged : Preserves (Speaks env a t (.answered (.top count i size) r))
        (calls.forM log : Run σ PUnit) :=
      Preserves.forM fun call _ => Preserves.modify fun _ hs => hs
    exact (hlogged.errors fun _ _ hs => ⟨_, hs⟩).weaken fun _ hs => hs.2
  refine Triple.ite (fun he => ?_) fun he => ?_
  · refine (log_speaks _ _).bind fun _ => Triple.pure fun s hs => returned_failure ?_
    exact ⟨_, rfl, by simp [Stage.quits, hparse, he], hs⟩
  · exact (dispose_speaks hparse he).bind fun _ => Triple.pure fun s hs => returned_zero hs

/-- A query of the scan, and a message in the log if it fails. -/
theorem scanStep_speaks {q : Query} (hq : q.loggedIn = true) (call : LogCall) {next : Run σ ℤ}
    {Q : World σ → Prop} (hnext : Triple (Heeded env a t conn q true) next (Returned env a t Q)
      (fun _ => Spoke env a t)) :
    Triple (Next env a t q) (do
      if !(← commandOk conn q.header (q.command env a)) then do log call; pure genFailureFlag
      else next) (Returned env a t Q) (fun _ => Spoke env a t) := by
  refine (commandOk_speaks q).bind fun ok => ?_
  cases ok with
  | true => exact hnext
  | false =>
    unfold Heeded GaveUp
    rw [hq]
    refine Triple.bind (R := fun _ => Quits env a t) ?_ fun _ =>
      Triple.pure fun _ hs => returned_failure hs
    exact Triple.modify fun _ hs => hs

/-- **A message**: `LIST`, `TOP`, the weeder, and perhaps `DELE`. -/
theorem examine_speaks (count i : ℕ) :
    Triple (Next env a t (.list count i)) (examine conn env i (decimal i))
      (Returned env a t (Speaks env a t (.examined count i))) (fun _ => Spoke env a t) := by
  refine scanStep_speaks (q := .list count i) rfl _ (reply_answered.bind fun r => ?_)
  refine Triple.weaken (scanStep_speaks
    (q := .top count i (atoi (cstr (substrAfterLast (chr ' ') r)))) rfl _ (judge_speaks _ _))
    fun s hs => ⟨_, rfl, hs.2⟩

/-- The scan is over. -/
def ScanOver (env : Env) (a : Account) (t : List Event) (s : World σ) : Prop :=
  ∃ p, p.query env a = lastQuery env ∧ p.quits env = true ∧ Speaks env a t p s

/-- What the scan goes on with: the next message, or the end. -/
def Rest (env : Env) (a : Account) (t : List Event) (count i : ℕ) (s : World σ) : Prop :=
  if i < count then Next env a t (.list count (i + 1)) s else ScanOver env a t s

/-- The rounds that are left. -/
theorem scanFrom_speaks {count k i : ℕ} (hk : i + k = count) :
    Triple (Rest env a t count i) (scanFrom conn env k (i + 1) [])
      (Returned env a t (ScanOver env a t)) (fun _ => Spoke env a t) := by
  induction k generalizing i with
  | zero =>
    refine Triple.pure fun s hs => returned_zero ?_
    rwa [Rest, if_neg (by omega)] at hs
  | succ k ih =>
    have hlt : i < count := by omega
    suffices h : Triple (Next env a t (.list count (i + 1))) _ _ _ from
      h.weaken fun s hs => by rwa [Rest, if_pos hlt] at hs
    refine (examine_speaks count (i + 1)).bind fun result => Triple.ite (fun hneg => ?_) fun hneg => ?_
    · refine Triple.pure fun s hs => ?_
      rw [Returned, if_pos hneg]
      exact hs.quits hneg
    · suffices h : Triple (Speaks env a t (.examined count (i + 1))) _ _ _ from
        h.weaken fun s hs => hs.ok hneg
      refine Triple.ite (fun _ => throw_spoke _ _) fun _ => ?_
      refine Triple.weaken (ih (by omega)) fun s hs => ?_
      unfold Rest
      split_ifs with hnext
      · exact ⟨_, by simp [Stage.query, hnext], hs⟩
      · exact ⟨.examined count (i + 1), by simp [Stage.query, hnext], rfl, hs⟩

/-- **The scan** of a mailbox. -/
theorem scan_speaks : Triple (Next env a t (.stat 1)) (scan conn env)
    (Returned env a t (ScanOver env a t)) (fun _ => Spoke env a t) := by
  refine (status_speaks 1).bind fun n => Triple.ite (fun hneg => ?_) fun hneg => ?_
  · refine Triple.bind (R := fun _ => Quits env a t) (Triple.modify fun s hs => hs.1 hneg) fun _ => ?_
    exact Triple.pure fun s hs => returned_failure hs
  · refine Triple.weaken (scanFrom_speaks (i := 0) (Nat.zero_add n.toInt.toNat))
      fun s hs => ?_
    obtain ⟨r, rfl, hr⟩ := hs.2 hneg
    unfold Rest
    split_ifs with hpos
    · exact ⟨_, by rw [Stage.query, if_neg hneg, if_neg hpos.ne'], hr⟩
    · refine ⟨_, ?_, rfl, hr⟩
      rw [Stage.query, if_neg hneg, if_pos (Nat.eq_zero_of_not_pos hpos)]

/-! ### Sessions -/

/-- The conversation is over. -/
def Over (env : Env) (a : Account) (t : List Event) (s : World σ) : Prop :=
  Speaks env a t .closed s ∨ Speaks env a t .leaving s

theorem logout_speaks : Triple (Quits env a t) (logout conn)
    (fun _ => Speaks env a t .leaving) (fun _ => Spoke env a t) := by
  refine Triple.of_exists fun p => Triple.of_fact fun hquery => Triple.of_fact fun hquits => ?_
  have hwrite : p.write env a quitCommand = some .leaving := by
    unfold Stage.write
    rw [hquery]
    cases p <;> simp_all [Stage.quits]
  exact (cWrite_speaks hwrite).bind fun _ => Triple.pure fun _ hs => hs

theorem cClose_speaks {sock : ℕ} (hsock : a.conn = some sock) : Triple (HangsUp env a t)
    (cClose conns sock) (fun _ => Speaks env a t .closed) (fun _ => Spoke env a t) := by
  refine Triple.of_exists fun p => Triple.of_fact fun hquery => Triple.of_fact fun hcloses => ?_
  refine (onWire_speaks p _).bind fun ret => ?_
  refine Triple.bind (R := fun _ => Speaks env a t .closed) (Triple.modify fun s hs => ?_) fun _ =>
    Triple.pure fun _ hs => hs
  exact hs.record (if_pos ⟨hcloses, hquery, hsock⟩)

theorem cOpen_speaks {sock : ℕ} (hsock : a.conn = some sock) (host : Bytes) (port : ℤ)
    (timeOut : Int32) (protocol : ℕ) :
    Triple (Speaks env a t .start) (cOpen conns sock host port timeOut protocol)
      (fun ret => Speaks env a t (if ret = 0 then .opened else .closed)) (fun _ => Spoke env a t) := by
  refine (onWire_speaks _ _).bind fun ret => ?_
  refine Triple.bind (R := fun _ => Speaks env a t (if ret = 0 then .opened else .closed))
    (Triple.modify fun s hs => ?_) fun _ => Triple.pure fun _ hs => hs
  exact hs.record (if_pos ⟨rfl, hsock⟩)

/-- The ways out after an error. -/
theorem failed_speaks {sock : ℕ} (hsock : a.conn = some sock) (call : LogCall) (psock : ℕ) :
    Triple (Quits env a t) (do
      log call
      let _ ← logout (conns psock)
      let _ ← cClose conns sock
      pure genFailureFlag : Run σ ℤ) (fun _ => Over env a t) (fun _ => Spoke env a t) := by
  refine Triple.bind (R := fun _ => Quits env a t) (Triple.modify fun _ hs => hs) fun _ => ?_
  refine logout_speaks.bind fun _ => ?_
  suffices h : Triple (HangsUp env a t) _ _ _ from h.weaken fun s hs => ⟨.leaving, rfl, rfl, hs⟩
  exact (cClose_speaks hsock).bind fun _ => Triple.pure fun _ hs => Or.inl hs

/-- After the last query, whatever the reply, the server is left. -/
theorem recount_speaks (messages : Int32) : Triple (ScanOver env a t) (recount conn env messages)
    (fun _ => Quits env a t) (fun _ => Spoke env a t) := by
  unfold recount
  split_ifs with hret
  · refine (status_speaks 2).conseq (fun s hs => ?_) (fun n s hs => ?_) fun _ _ hs => hs
    · obtain ⟨p, hquery, -, hs⟩ := hs
      exact ⟨p, by rw [hquery, lastQuery, if_pos hret], hs⟩
    · by_cases hneg : n < 0
      · exact hs.1 hneg
      · obtain ⟨r, -, hr⟩ := hs.2 hneg
        exact ⟨_, rfl, rfl, hr⟩
  · have hlast : lastQuery env = none := if_neg hret
    refine Triple.pure fun s hs => ?_
    obtain ⟨p, hquery, hquits, hs⟩ := hs
    exact ⟨p, hquery.trans hlast, hquits, hs⟩

/-- **A session** is a conversation. -/
theorem session_speaks {sock : ℕ} {proto : Protocol} (hsock : a.conn = some sock)
    (hproto : a.proto = some proto) (psock : ℕ) :
    Triple (Speaks env a t .start) (a.session conns env sock proto psock) (fun _ => Over env a t)
      (fun _ => Spoke env a t) := by
  refine (cOpen_speaks hsock _ _ _ _).bind fun opened => Triple.ite (fun hfailed => ?_) fun hok => ?_
  · rw [if_neg hfailed]
    exact (log_speaks _ _).bind fun _ => Triple.pure fun _ hs => Or.inl hs
  rw [if_pos (not_not.mp hok)]
  refine (login_speaks hproto).bind fun ok => ?_
  cases ok with
  | false =>
    refine Triple.bind (R := fun _ => HangsUp env a t) (Triple.modify fun _ hs => hs) fun _ => ?_
    exact (cClose_speaks hsock).bind fun _ => Triple.pure fun _ hs => Or.inl hs
  | true =>
    refine (status_speaks 0).bind fun messages => Triple.ite (fun hneg => ?_) fun hneg => ?_
    · exact (failed_speaks hsock _ psock).weaken fun s hs => hs.1 hneg
    suffices h : Triple (Next env a t (.stat 1)) _ _ _ from h.weaken fun s hs => by
      obtain ⟨r, hr, hs⟩ := hs.2 hneg
      exact ⟨_, by rw [Stage.query, if_neg (hr ▸ hneg)], hs⟩
    refine Triple.bind (R := fun _ => Next env a t (.stat 1)) (Triple.modify fun _ hs => hs) fun _ => ?_
    refine scan_speaks.bind fun result => Triple.ite (fun hneg => ?_) fun hneg => ?_
    · exact (failed_speaks hsock _ psock).weaken fun s hs => hs.quits hneg
    suffices h : Triple (ScanOver env a t) _ _ _ from h.weaken fun s hs => hs.ok hneg
    refine (recount_speaks messages).bind fun messages => Triple.ite (fun _ => ?_) fun _ => ?_
    · exact failed_speaks hsock _ psock
    refine Triple.bind (R := fun _ => Quits env a t) (Triple.modify fun _ hs => hs) fun _ => ?_
    refine logout_speaks.bind fun ok => Triple.ite (fun _ => ?_) fun _ =>
      Triple.pure fun _ hs => Or.inr hs
    suffices h : Triple (HangsUp env a t) _ _ _ from h.weaken fun s hs => ⟨.leaving, rfl, rfl, hs⟩
    exact (cClose_speaks hsock).bind fun _ => Triple.pure fun _ hs => Or.inl hs

theorem check_speaks : Triple (Speaks env a t .start) (a.check conns env) (fun _ => Over env a t)
    (fun _ => Spoke env a t) := by
  unfold Account.check
  split
  case h_2 => exact throw_spoke _ _
  case h_1 sock proto hsock hproto =>
    split
    case h_2 => exact throw_spoke _ _
    case h_1 psock _ => exact session_speaks hsock hproto psock

/-! ### The loop over the accounts -/

/-- The events are a conversation that has come to its end. -/
def Finished (env : Env) (a : Account) (u : List Event) : Prop :=
  (conversation env a).eval u = some .closed ∨ (conversation env a).eval u = some .leaving

/-- The conversations with some accounts, one after the other, up to the point where the program was
halted, if it was. -/
inductive Conversations (env : Env) : List Account → Bool → List Event → Prop
  | done : Conversations env [] true []
  | halted {a : Account} {accounts : List Account} {u : List Event}
      (hu : u ∈ (conversation env a).accepts) : Conversations env (a :: accounts) false u
  | next {a : Account} {accounts : List Account} {all : Bool} {u v : List Event}
      (hu : Finished env a u) (hv : Conversations env accounts all v) :
      Conversations env (a :: accounts) all (u ++ v)

/-- **The loop over the accounts** has one conversation with each of them. -/
theorem checkAccounts_speaks (accounts : List Account) (returnVal : ℤ) :
    Triple (fun s => s.trace = t) (checkAccounts conns env accounts returnVal)
      (fun _ s => ∃ u, s.trace = t ++ u ∧ Conversations env accounts true u)
      (fun _ s => ∃ u, s.trace = t ++ u ∧ Conversations env accounts false u) := by
  induction accounts generalizing returnVal t with
  | nil => exact Triple.pure fun s hs => ⟨[], by simpa using hs, .done⟩
  | cons a accounts ih =>
    have hrest (u : List Event) (hu : Finished env a u) (returnVal : ℤ) :
        Triple (fun s => s.trace = t ++ u) (checkAccounts conns env accounts returnVal)
          (fun _ s => ∃ u, s.trace = t ++ u ∧ Conversations env (a :: accounts) true u)
          (fun _ s => ∃ u, s.trace = t ++ u ∧ Conversations env (a :: accounts) false u) := by
      refine (ih returnVal).conseq (fun _ hs => hs) (fun _ s hs => ?_) fun _ s hs => ?_
      · obtain ⟨v, htrace, hv⟩ := hs
        exact ⟨u ++ v, by rw [htrace, List.append_assoc], .next hu hv⟩
      · obtain ⟨v, htrace, hv⟩ := hs
        exact ⟨u ++ v, by rw [htrace, List.append_assoc], .next hu hv⟩
    refine Triple.bind (R := fun _ s => s.trace = t) (Triple.modify fun _ hs => hs) fun _ => ?_
    have hcheck : Triple (Speaks env a t .start) (a.check conns env) (fun _ => Over env a t)
      (fun _ => Spoke env a t) := check_speaks
    refine Triple.bind (R := fun _ s => ∃ u, Finished env a u ∧ s.trace = t ++ u)
      (hcheck.conseq (fun s hs => ?_) (fun _ s hs => ?_) fun _ s hs => ?_) fun status => ?_
    · exact ⟨[], by simpa using hs, rfl⟩
    · rcases hs with ⟨u, htrace, hu⟩ | ⟨u, htrace, hu⟩
      · exact ⟨u, Or.inl hu, htrace⟩
      · exact ⟨u, Or.inr hu, htrace⟩
    · obtain ⟨p, u, htrace, hu⟩ := hs
      refine ⟨u, htrace, .halted ?_⟩
      rw [DFA.mem_accepts, hu]
      rfl
    · refine Triple.of_exists fun u => Triple.of_fact fun hu => ?_
      split
      · refine Triple.bind (R := fun _ s => s.trace = t ++ u) (Triple.modify fun _ hs => hs) fun _ => ?_
        exact hrest u hu _
      · exact hrest u hu _

end Speaking

end Mailfilter
