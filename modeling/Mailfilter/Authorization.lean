import Mailfilter.Closing
import Mailfilter.Conversation
import Mailfilter.Sifting

/-!
# Authorization

What the automaton of the conversations says about whole runs of the program.

* `main_converses`: the events of a run are conversations with the accounts of the rcfile, one with each;
* `Authorized`: a login was accepted, and the connection was neither closed nor opened since then;
* `Stage.loggedIn`, the stages behind the login, and `Learnt`, the invariant of the automaton;
* `main_authorized`: all other commands are written behind a login.
-/

namespace Mailfilter

open Pop3 Program

variable {σ : Type} {env : Env} {a : Account} {conns : ℕ → Connection σ} {p p' : Stage} {e : Event}
  {u v w : List Event} {msg : Bytes}

/-- The command belongs to a login. -/
def IsLogin (msg : Bytes) : Prop :=
  bytes "USER " <+: msg ∨ bytes "PASS " <+: msg ∨ bytes "APOP " <+: msg

/-- A password or a digest was written and accepted, over the connection that is still open. -/
def Authorized (u : List Event) : Prop :=
  ∃ x cmd ret reply y, u = x ++ [.write cmd, .read false ret (some reply)] ++ y ∧
    (bytes "PASS " <+: cmd ∨ bytes "APOP " <+: cmd) ∧ 0 < ret ∧ firstByte reply = chr '+' ∧ Quiet y

theorem Authorized.snoc (h : Authorized u) (ho : e.isOpened = false)
    (hc : ∀ sock, e.isClosed sock = false) : Authorized (u ++ [e]) := by
  obtain ⟨x, cmd, ret, reply, y, rfl, hcmd, hret, hreply, hy⟩ := h
  exact ⟨x, cmd, ret, reply, y ++ [e], by simp, hcmd, hret, hreply, hy.snoc ho hc⟩

theorem Authorized.append (h : Authorized u) (v : List Event) : Authorized (v ++ u) := by
  obtain ⟨x, cmd, ret, reply, y, rfl, hrest⟩ := h
  exact ⟨v ++ x, cmd, ret, reply, y, by simp, hrest⟩

/-! ### The login in a conversation -/

/-- The query whose answer lets the user in. -/
def Query.letsIn : Query → Bool
  | .pass => true
  | .apop _ => true
  | _ => false

/-- The user has logged in. -/
def Stage.loggedIn : Stage → Bool
  | .asked q => q.loggedIn
  | .answered q _ => q.loggedIn || q.letsIn
  | .condemned .. => true
  | .examined .. => true
  | .refused loggedIn => loggedIn
  | .leaving => true
  | _ => false

theorem isLogin_command {q : Query} (hq : q.loggedIn = false) : IsLogin (q.command env a) := by
  cases q with
  | user => exact Or.inl ⟨cstr a.usr ++ crlf, by simp [Query.command, userCommand]⟩
  | pass => exact Or.inr (Or.inl ⟨cstr a.passwd ++ crlf, by simp [Query.command, passCommand]⟩)
  | apop stamp =>
    refine Or.inr (Or.inr ⟨?_, ?_⟩)
    · exact cstr a.usr ++ bytes " " ++ Apop.getHash env stamp (cstr a.passwd) ++ crlf
    · simp [Query.command, Apop.apopCommand]
  | stat k => cases hq
  | list count i => cases hq
  | top count i size => cases hq

theorem letsIn_command {q : Query} (hq : q.letsIn = true) :
    bytes "PASS " <+: q.command env a ∨ bytes "APOP " <+: q.command env a := by
  cases q with
  | pass => exact Or.inl ⟨cstr a.passwd ++ crlf, by simp [Query.command, passCommand]⟩
  | apop stamp =>
    refine Or.inr ⟨cstr a.usr ++ bytes " " ++ Apop.getHash env stamp (cstr a.passwd) ++ crlf, ?_⟩
    simp [Query.command, Apop.apopCommand]
  | user => cases hq
  | stat k => cases hq
  | list count i => cases hq
  | top count i size => cases hq

/-- Only behind the login there is something else to be asked. -/
theorem loggedIn_of_query {q : Query} (hquery : p.query env a = some q) (hq : q.loggedIn = true) :
    p.loggedIn = true := by
  cases p with
  | greeted greeting =>
    obtain ⟨proto, -, hproto⟩ := Option.bind_eq_some_iff.mp hquery
    split at hproto
    · cases hproto
      cases hq
    · obtain ⟨stamp, -, rfl⟩ := Option.map_eq_some_iff.mp hproto
      cases hq
  | answered q' reply =>
    cases q' with
    | user =>
      cases hquery
      cases hq
    | _ => rfl
  | examined count i => rfl
  | _ => cases hquery

theorem loggedIn_of_quits (hquits : p.quits env = true) : p.loggedIn = true := by
  cases p with
  | asked q => exact hquits
  | refused loggedIn => exact hquits
  | answered q reply =>
    cases q with
    | stat k => rfl
    | top count i size => rfl
    | _ => cases hquits
  | examined count i => rfl
  | _ => cases hquits

/-- What is known of the events when the automaton has come to a stage. -/
structure Learnt (env : Env) (a : Account) (u : List Event) (p : Stage) : Prop where
  asked : ∀ q, p = .asked q → ∃ x, u = x ++ [.write (q.command env a)]
  authorized : p.loggedIn = true → Authorized u

theorem Learnt.write (h : Learnt env a u p) (hstep : p.write env a msg = some p') :
    Learnt env a (u ++ [.write msg]) p' := by
  have hkept (hp : p.loggedIn = true) : Authorized (u ++ [.write msg]) :=
    (h.authorized hp).snoc rfl fun _ => rfl
  unfold Stage.write at hstep
  split at hstep
  case h_1 q hquery =>
    obtain ⟨hmsg, hp'⟩ := Option.ite_none_right_eq_some.mp hstep
    obtain rfl := Option.some.inj hp'
    refine ⟨fun q' hq' => ?_, fun hq => hkept (loggedIn_of_query hquery hq)⟩
    obtain rfl := Stage.asked.inj hq'
    exact ⟨u, by rw [hmsg]⟩
  case h_2 =>
    split at hstep
    · obtain ⟨-, hp'⟩ := Option.ite_none_right_eq_some.mp hstep
      obtain rfl := Option.some.inj hp'
      exact ⟨nofun, fun _ => hkept rfl⟩
    · obtain ⟨hquits, hp'⟩ := Option.ite_none_right_eq_some.mp hstep
      obtain rfl := Option.some.inj hp'
      have hquits := (Bool.and_eq_true_iff.mp hquits).1
      exact ⟨nofun, fun _ => hkept (loggedIn_of_quits hquits)⟩

theorem Learnt.read (h : Learnt env a u p) {header : Bool} {ret : Int32} {reply : Option Bytes}
    (hstep : p.read header ret reply = some p') :
    Learnt env a (u ++ [.read header ret reply]) p' := by
  cases p with
  | opened =>
    cases header with
    | true => cases hstep
    | false =>
      obtain rfl := Option.some.inj hstep
      split_ifs <;> exact ⟨nofun, nofun⟩
  | asked q =>
    obtain ⟨hheader, hp'⟩ := Option.ite_none_right_eq_some.mp hstep
    obtain rfl := Option.some.inj hp'
    have hkept (hq : q.loggedIn = true) : Authorized (u ++ [.read header ret reply]) :=
      (h.authorized hq).snoc rfl fun _ => rfl
    unfold Query.replied
    split
    case isFalse => exact ⟨nofun, hkept⟩
    case isTrue hret =>
      cases reply with
      | none => exact ⟨nofun, hkept⟩
      | some r =>
        dsimp only
        split
        case isFalse => exact ⟨nofun, hkept⟩
        case isTrue hok =>
          refine ⟨nofun, fun hin => ?_⟩
          rcases Bool.or_eq_true_iff.mp hin with hq | hq
          · exact hkept hq
          · -- the answer lets the user in
            obtain ⟨x, rfl⟩ := h.asked q rfl
            obtain rfl : header = false := by cases q <;> first | exact hheader | cases hq
            refine ⟨x, q.command env a, ret, r, [], by simp, letsIn_command hq, hret, hok, ?_⟩
            exact fun e he => absurd he List.not_mem_nil
  | _ => cases hstep

/-- **One event** leaves what is known right. -/
theorem Learnt.step (h : Learnt env a u p) (hstep : p.step env a e = some p') :
    Learnt env a (u ++ [e]) p' := by
  cases e with
  | opened sock ret =>
    obtain ⟨-, hp'⟩ := Option.ite_none_right_eq_some.mp hstep
    obtain rfl := Option.some.inj hp'
    split_ifs <;> exact ⟨nofun, nofun⟩
  | closed sock ret =>
    obtain ⟨-, hp'⟩ := Option.ite_none_right_eq_some.mp hstep
    obtain rfl := Option.some.inj hp'
    exact ⟨nofun, nofun⟩
  | write msg => exact h.write hstep
  | read header ret reply => exact h.read hstep
  | weed before hdr verdict =>
    unfold Stage.step Stage.weed at hstep
    dsimp only at hstep
    split at hstep
    case h_2 => cases hstep
    case h_1 count i size reply =>
      have hkept : Authorized (u ++ [.weed before hdr verdict]) :=
        (h.authorized rfl).snoc rfl fun _ => rfl
      split at hstep
      case h_2 => cases hstep
      case h_1 =>
        obtain ⟨-, hp'⟩ := Option.ite_none_right_eq_some.mp hstep
        obtain rfl := Option.some.inj hp'
        split_ifs <;> exact ⟨nofun, fun _ => hkept⟩

/-- A conversation that the automaton allows. -/
theorem learnt_of_eval (h : (conversation env a).eval u = some p) : Learnt env a u p := by
  induction u using List.reverseRecOn generalizing p with
  | nil =>
    obtain rfl := Option.some.inj h
    exact ⟨nofun, nofun⟩
  | append_singleton u e ih =>
    rw [DFA.eval_append_singleton] at h
    obtain ⟨p', heval, hstep⟩ := Option.bind_eq_some_iff.mp h
    exact (ih heval).step hstep

/-- The automaton has allowed every part of a conversation. -/
theorem eval_of_append (h : (conversation env a).eval (u ++ v) = some p) :
    ∃ p', (conversation env a).eval u = some p' := by
  induction v using List.reverseRecOn generalizing p with
  | nil => exact ⟨p, by rwa [List.append_nil] at h⟩
  | append_singleton v e ih =>
    rw [← List.append_assoc, DFA.eval_append_singleton] at h
    obtain ⟨p', heval, -⟩ := Option.bind_eq_some_iff.mp h
    exact ih heval

/-- A command in a conversation belongs to the login, or is behind it. -/
theorem authorized_of_eval (h : (conversation env a).eval (u ++ .write msg :: v) = some p)
    (hmsg : ¬ IsLogin msg) : Authorized u := by
  rw [List.append_cons] at h
  obtain ⟨p₂, h₂⟩ := eval_of_append h
  rw [DFA.eval_append_singleton] at h₂
  obtain ⟨p₁, h₁, hstep⟩ := Option.bind_eq_some_iff.mp h₂
  have hlearnt := learnt_of_eval h₁
  refine hlearnt.authorized ?_
  unfold Stage.step Stage.write at hstep
  dsimp only at hstep
  split at hstep
  case h_1 q hquery =>
    obtain ⟨rfl, -⟩ := Option.ite_none_right_eq_some.mp hstep
    refine loggedIn_of_query hquery (Bool.not_eq_false _ ▸ fun hq => hmsg (isLogin_command hq))
  case h_2 =>
    split at hstep
    · rfl
    · obtain ⟨hquits, -⟩ := Option.ite_none_right_eq_some.mp hstep
      exact loggedIn_of_quits (Bool.and_eq_true_iff.mp hquits).1

/-! ### Whole runs -/

/-- A command in the conversations belongs to a login, or is behind one. -/
theorem Conversations.authorized {accounts : List Account} {all : Bool} {t : List Event}
    (h : Conversations env accounts all t) (ht : t = v ++ .write msg :: w) (hmsg : ¬ IsLogin msg) :
    Authorized v := by
  induction h generalizing v with
  | done => exact absurd ht (by simp)
  | halted hu =>
    subst ht
    obtain ⟨p, hp⟩ := Option.isSome_iff_exists.mp ((conversation env _).mem_accepts.mp hu)
    exact authorized_of_eval hp hmsg
  | @next a accounts all u u' hu hu' ih =>
    obtain ⟨p, hp⟩ : ∃ p, (conversation env a).eval u = some p := hu.elim (⟨_, ·⟩) (⟨_, ·⟩)
    rcases List.append_eq_append_iff.mp ht with ⟨x, rfl, hx⟩ | ⟨x, rfl, hx⟩
    · exact (ih hx).append u
    · cases x with
      | nil => simpa using (ih (v := []) hx.symm).append v
      | cons e x =>
        -- the command was written in the first conversation
        obtain ⟨rfl, -⟩ := List.cons.inj hx
        exact authorized_of_eval hp hmsg

/-- What a run has said, for whichever preferences it came to. -/
def Conversed (host : Host) (s : World σ) : Prop :=
  ∃ q accounts all, Conversations (host.env q) accounts all s.trace

section Main

variable {host : Host} {opts : List Opt} {q : Preferences}

theorem conversed_nil {s : World σ} (hs : s.trace = []) : Conversed host s :=
  ⟨Preferences.new ⟨0, 0⟩ 0, [], true, hs ▸ .done⟩

theorem work_converses (p : Preferences) :
    Triple (fun s => s.trace = []) (work host conns p) (fun _ => Conversed host)
      (fun _ => Conversed host) := by
  have hstop (call : LogCall) : Triple (fun s : World σ => s.trace = [])
      (do log call; pure (-1) : Run σ ℤ) (fun _ => Conversed host) (fun _ => Conversed host) :=
    Triple.bind (R := fun _ s => s.trace = []) (Triple.modify fun _ hs => hs) fun _ =>
      Triple.pure fun _ hs => conversed_nil hs
  refine Triple.ite (fun _ => hstop _) fun _ => Triple.ite (fun _ => ?_) fun _ => ?_
  · exact Triple.throw fun _ hs => conversed_nil hs
  rcases p.precompileExpressions host.regcomp with ⟨compErr, q, calls⟩
  have hcalls : Preserves (fun s : World σ => s.trace = []) (calls.forM log : Run σ PUnit) :=
    Preserves.forM fun call _ => Preserves.modify fun _ hs => hs
  refine Triple.bind (hcalls.errors fun _ _ hs => conversed_nil hs) fun _ => ?_
  refine Triple.ite (fun _ => Triple.pure fun _ hs => conversed_nil hs) fun _ => ?_
  refine Triple.bind (R := fun _ => Conversed host) ((checkAccounts_speaks q.accounts 0).conseq
    (fun _ hs => hs) (fun _ s hs => ?_) fun _ s hs => ?_) fun returnVal => ?_
  · obtain ⟨u, htrace, hu⟩ := hs
    exact ⟨q, q.accounts, true, by rwa [htrace]⟩
  · obtain ⟨u, htrace, hu⟩ := hs
    exact ⟨q, q.accounts, false, by rwa [htrace]⟩
  · refine Triple.ite (fun _ => ?_) fun _ => Triple.pure fun _ hs => hs
    exact Triple.bind (R := fun _ => Conversed host) (Triple.gets fun _ hs => hs) fun _ =>
      Triple.pure fun _ hs => hs

/-- Whatever the options and the rcfile, the events are conversations. -/
theorem main_conversed : Triple (fun s => s.trace = []) (main host conns opts)
    (fun _ => Conversed host) (fun _ => Conversed host) := by
  refine Triple.bind (R := fun _ s => s.trace = []) (Triple.modify fun _ hs => hs) fun _ => ?_
  split
  case h_1 => exact Triple.throw fun _ hs => conversed_nil hs
  case h_2 p hp =>
    split
    case h_1 =>
      exact Triple.bind (R := fun _ s => s.trace = []) (Triple.modify fun _ hs => hs) fun _ =>
        Triple.pure fun _ hs => conversed_nil hs
    case h_2 name file hopen =>
      split
      case h_1 => exact Triple.throw fun _ hs => conversed_nil hs
      case h_2 p' hfile => exact work_converses p'

/-- **A run is a conversation with each account**, one after the other, in the order of the rcfile;
when the program returns, all of them have come to their ends. -/
theorem main_converses (hload : Loads host opts q) (net : σ) :
    ∃ result s, exec (main host conns opts) (World.new net) = (result, s) ∧
      Conversations (host.env q) q.accounts result.isOk s.trace := by
  have hspeaks : Triple (fun s : World σ => s.trace = []) (checkAccounts conns (host.env q) q.accounts 0)
      (fun _ s => ∃ u, s.trace = [] ++ u ∧ Conversations (host.env q) q.accounts true u)
      (fun _ s => ∃ u, s.trace = [] ++ u ∧ Conversations (host.env q) q.accounts false u) :=
    checkAccounts_speaks q.accounts 0
  have hrun := hspeaks.exec (s := World.new net) rfl
  have hzero : { World.new net with mailboxStatus := 0 } = World.new net := rfl
  rw [exec_main hload, hzero, exec_bind]
  rcases hcheck : exec (checkAccounts conns (host.env q) q.accounts 0) (World.new net) with ⟨e | ret, s⟩
  · rw [hcheck] at hrun
    obtain ⟨u, htrace, hu⟩ := hrun
    exact ⟨_, s, rfl, by rwa [htrace]⟩
  · rw [hcheck] at hrun
    obtain ⟨u, htrace, hu⟩ := hrun
    rw [List.nil_append] at htrace
    dsimp only
    split_ifs
    · exact ⟨.ok s.mailboxStatus.toInt, s, rfl, htrace ▸ hu⟩
    · exact ⟨.ok ret, s, rfl, htrace ▸ hu⟩

theorem main_converses_smallServer :
    ∃ result s, exec (main smallHost (fun _ => prepared) [.returnValue]) (World.new smallServer) =
      (result, s) ∧ Conversations (smallHost.env smallPrefs) smallPrefs.accounts result.isOk s.trace :=
  main_converses smallPrefs_loads smallServer

/-- **Nothing but the login without a login**: for all options, rcfiles and servers, every other
command is written over a connection on which a password or a digest was accepted. -/
theorem main_authorized (host : Host) (conns : ℕ → Connection σ) (opts : List Opt) (net : σ) {k : ℕ}
    (hk : (exec (main host conns opts) (World.new net)).2.trace[k]? = some (.write msg))
    (hmsg : ¬ IsLogin msg) :
    Authorized ((exec (main host conns opts) (World.new net)).2.trace.take k) := by
  have hrun : Conversed host (exec (main host conns opts) (World.new net)).2 :=
    Triple.state main_conversed rfl
  obtain ⟨q, accounts, all, hall⟩ := hrun
  obtain ⟨hlt, hget⟩ := List.getElem?_eq_some_iff.mp hk
  have htrace := List.take_append_drop k (exec (main host conns opts) (World.new net)).2.trace
  rw [List.drop_eq_getElem_cons hlt, hget] at htrace
  exact hall.authorized htrace.symm hmsg

theorem main_authorized_stat :
    Authorized ((exec (main smallHost (fun _ => prepared) [])
      (World.new smallServer)).2.trace.take 6) :=
  main_authorized smallHost (fun _ => prepared) [] smallServer (k := 6)
    (show _ = some (Event.write statCommand) by decide +kernel) (by unfold IsLogin; decide)

end Main

end Mailfilter
