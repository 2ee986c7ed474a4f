import Mailfilter.Invariants
import Mailfilter.Status

/-!
# Opening and closing

Is every connection that was opened also closed?

* `ClosedOnce`: after every `c_open` that returned 0 the same connection is closed exactly once, before
  the next one is opened and by the end;
* `Shut` and `Open`, what a session adds to the trace if it leaves its connection closed or open;
* `Account.Drops`: the session comes to its end, and `QUIT` cannot be sent;
* `Visits`, the accounts that the loop checks, with the state in which it does;
* `checkAccounts_closedOnce_iff`: connections are paired unless a server drops the line at `QUIT`.
-/

namespace Mailfilter

open Pop3 Program

variable {σ : Type} {conns : ℕ → Connection σ} {env : Env} {t u : List Event} {e : Event} {sock : ℕ}

/-! ### Paired connections -/

def Event.isOpened : Event → Bool
  | .opened _ _ => true
  | _ => false

def Event.isClosed (sock : ℕ) : Event → Bool
  | .closed s _ => s = sock
  | _ => false

/-- How often the connection is closed before the next one is opened. -/
def closings (sock : ℕ) (t : List Event) : ℕ :=
  (t.takeWhile fun e => !e.isOpened).countP (Event.isClosed sock)

/-- A connection that was opened is closed exactly once, before the next one is opened and by the
end. -/
def ClosedOnce (t : List Event) : Prop :=
  ∀ pre sock post, t = pre ++ .opened sock 0 :: post → closings sock post = 1

theorem closedOnce_nil : ClosedOnce [] := fun _ _ _ h => absurd h (by simp)

theorem closedOnce_cons :
    ClosedOnce (e :: t) ↔ (∀ sock, e = .opened sock 0 → closings sock t = 1) ∧ ClosedOnce t := by
  constructor
  · intro h
    refine ⟨fun sock he => h [] sock t (by rw [he, List.nil_append]), fun pre sock post ht => ?_⟩
    exact h (e :: pre) sock post (by rw [ht, List.cons_append])
  · rintro ⟨he, h⟩ pre sock post ht
    cases pre with
    | nil =>
      rw [List.nil_append, List.cons.injEq] at ht
      rw [← ht.2]
      exact he sock ht.1
    | cons e' pre =>
      rw [List.cons_append, List.cons.injEq] at ht
      exact h pre sock post ht.2

/-- Where nothing is opened, nothing is asked for. -/
theorem closedOnce_append (hu : ∀ e ∈ u, e.isOpened = false) : ClosedOnce (u ++ t) ↔ ClosedOnce t := by
  induction u with
  | nil => rfl
  | cons e u ih =>
    rw [List.cons_append, closedOnce_cons, ih fun e' he' => hu e' (List.mem_cons_of_mem _ he')]
    refine and_iff_right fun sock he => ?_
    have hopened := hu e (List.mem_cons_self ..)
    rw [he] at hopened
    cases hopened

/-- The events of the sessions to come: there are none, or a connection is opened first. -/
def Starts (t : List Event) : Prop := ∀ e ∈ t.head?, e.isOpened = true

theorem closings_append (hu : ∀ e ∈ u, e.isOpened = false) (ht : Starts t) :
    closings sock (u ++ t) = u.countP (Event.isClosed sock) := by
  have hhead : (t.takeWhile fun e => !e.isOpened) = [] := by
    cases t with
    | nil => rfl
    | cons e t =>
      have he : e.isOpened = true := ht e rfl
      simp [he]
  unfold closings
  rw [List.takeWhile_append_of_pos fun e he => by simp [hu e he], hhead, List.append_nil]

/-! ### What a session adds to the trace -/

/-- Nothing is opened or closed. -/
def Quiet (u : List Event) : Prop := ∀ e ∈ u, e.isOpened = false ∧ ∀ sock, e.isClosed sock = false

/-- The session leaves its connection open. -/
def Open (sock : ℕ) (b : List Event) : Prop := ∃ u, b = .opened sock 0 :: u ∧ Quiet u

/-- The session leaves its connection closed, if it could be opened. -/
def Shut (sock : ℕ) (b : List Event) : Prop :=
  ∃ ret u, b = .opened sock ret :: u ∧ (∀ e ∈ u, e.isOpened = false) ∧
    (ret = 0 → u.countP (Event.isClosed sock) = 1)

theorem Quiet.snoc (hu : Quiet u) (he : e.isOpened = false) (hc : ∀ sock, e.isClosed sock = false) :
    Quiet (u ++ [e]) := by
  intro e' he'
  rcases List.mem_append.1 he' with h | h
  · exact hu e' h
  · rw [List.mem_singleton.1 h]
    exact ⟨he, hc⟩

theorem Quiet.countP (hu : Quiet u) : u.countP (Event.isClosed sock) = 0 :=
  List.countP_eq_zero.2 fun e he => by simp [(hu e he).2 sock]

theorem Open.snoc {b : List Event} (hb : Open sock b) (he : e.isOpened = false)
    (hc : ∀ sock, e.isClosed sock = false) : Open sock (b ++ [e]) := by
  obtain ⟨u, rfl, hu⟩ := hb
  exact ⟨u ++ [e], rfl, hu.snoc he hc⟩

theorem Open.close {b : List Event} (hb : Open sock b) (ret : Int32) :
    Shut sock (b ++ [.closed sock ret]) := by
  obtain ⟨u, rfl, hu⟩ := hb
  refine ⟨0, u ++ [.closed sock ret], rfl, fun e he => ?_, fun _ => ?_⟩
  · rcases List.mem_append.1 he with h | h
    · exact (hu e h).1
    · rw [List.mem_singleton.1 h]
      rfl
  · rw [List.countP_append, hu.countP]
    simp [Event.isClosed]

theorem Shut.starts {b : List Event} (hb : Shut sock b) : Starts (b ++ t) := by
  obtain ⟨ret, u, rfl, -, -⟩ := hb
  rintro e ⟨⟩
  rfl

theorem Open.starts {b : List Event} (hb : Open sock b) : Starts (b ++ t) := by
  obtain ⟨u, rfl, -⟩ := hb
  rintro e ⟨⟩
  rfl

/-- A session that leaves its connection closed does not matter. -/
theorem Shut.closedOnce {b : List Event} (hb : Shut sock b) (ht : Starts t) :
    ClosedOnce (b ++ t) ↔ ClosedOnce t := by
  obtain ⟨ret, u, rfl, hu, hcount⟩ := hb
  rw [List.cons_append, closedOnce_cons, closedOnce_append hu]
  refine and_iff_right fun sock' he => ?_
  injection he with hsock hret
  subst hsock
  rw [closings_append hu ht, hcount hret]

/-- One that leaves it open does. -/
theorem Open.not_closedOnce {b : List Event} (hb : Open sock b) (ht : Starts t) :
    ¬ ClosedOnce (b ++ t) := by
  obtain ⟨u, rfl, hu⟩ := hb
  intro h
  rw [List.cons_append, closedOnce_cons] at h
  have hone := h.1 sock rfl
  rw [closings_append (fun e he => (hu e he).1) ht, hu.countP] at hone
  exact absurd hone (by decide)

/-! ### A session -/

section Session

variable {t : List Event}

/-- The session has opened the connection, and it is open. -/
def IsOpen (t : List Event) (sock : ℕ) (s : World σ) : Prop :=
  ∃ b, s.trace = t ++ b ∧ Open sock b

/-- The session has left the connection closed. -/
def IsShut (t : List Event) (sock : ℕ) (s : World σ) : Prop :=
  ∃ b, s.trace = t ++ b ∧ Shut sock b

theorem IsOpen.record {s : World σ} (hs : IsOpen t sock s) (he : e.isOpened = false)
    (hc : ∀ sock, e.isClosed sock = false) : IsOpen t sock (s.record e) := by
  obtain ⟨b, htrace, hb⟩ := hs
  refine ⟨b ++ [e], ?_, hb.snoc he hc⟩
  show s.trace ++ [e] = t ++ (b ++ [e])
  rw [htrace, List.append_assoc]

/-- Nothing that is said to the server opens or closes a connection. -/
theorem keeps_isOpen (conn : Connection σ) : Keeps conn env (fun _ => True) (IsOpen t sock) :=
  Keeps.of_blind (fun _ _ _ hs => hs) (fun _ _ _ _ hs => hs.record rfl fun _ => rfl)
    (fun _ _ _ hs => hs.record rfl fun _ => rfl) fun _ _ _ _ _ hs => hs.record rfl fun _ => rfl

theorem cOpen_trace (host : Bytes) (port : ℤ) (timeOut : Int32) (protocol : ℕ) :
    Triple (fun s => s.trace = t) (cOpen conns sock host port timeOut protocol)
      (fun ret s => s.trace = t ++ [.opened sock ret]) (fun _ _ => True) := by
  have hwire := onWire_preserves (I := fun s : World σ => s.trace = t) (fun _ _ hs => hs)
    ((conns sock).cOpen host port timeOut protocol)
  refine Triple.bind (hwire.errors fun _ _ _ => trivial) fun ret => ?_
  refine Triple.bind (R := fun _ s => s.trace = t ++ [.opened sock ret])
    (Triple.modify fun s hs => ?_) fun _ => Triple.pure fun _ hs => hs
  show s.trace ++ [.opened sock ret] = t ++ [.opened sock ret]
  rw [hs]

theorem cClose_trace :
    Triple (IsOpen t sock) (cClose conns sock) (fun _ => IsShut t sock) (fun _ _ => True) := by
  have hwire := onWire_preserves (I := IsOpen (σ := σ) t sock) (fun _ _ hs => hs)
    (conns sock).cClose
  refine Triple.bind (hwire.errors fun _ _ _ => trivial) fun ret => ?_
  refine Triple.bind (R := fun _ => IsShut t sock) (Triple.modify ?_) fun _ =>
    Triple.pure fun _ hs => hs
  rintro s ⟨b, htrace, hb⟩
  refine ⟨b ++ [.closed sock ret], ?_, hb.close ret⟩
  show s.trace ++ [.closed sock ret] = t ++ (b ++ [.closed sock ret])
  rw [htrace, List.append_assoc]

/-- What is said to the server, in front of the rest of the session. -/
theorem said_trace {α β : Type} {p : Run σ α} {f : α → Run σ β} {Q : β → World σ → Prop}
    (hp : Preserves (IsOpen t sock) p)
    (hf : ∀ a, Triple (IsOpen t sock) (f a) Q fun _ _ => True) :
    Triple (IsOpen t sock) (p >>= f) Q fun _ _ => True :=
  Triple.bind (hp.errors fun _ _ _ => trivial) hf

/-- The session up to the count after the scan: where it fails, it closes what it has opened. -/
theorem examined_trace (a : Account) (proto : Protocol) (psock : ℕ) :
    Triple (fun s => s.trace = t) (a.examined conns env sock proto psock)
      (fun reported => if reported = none then IsShut t sock else IsOpen t sock)
      (fun _ _ => True) := by
  have hk : Keeps (conns psock) env (fun _ => True) (IsOpen t sock) := keeps_isOpen (conns psock)
  have hs := Speech.trivial env (cstr a.usr) (cstr a.passwd)
  have hlog := @log_preserves σ (IsOpen t sock) hk.blind
  have hclose : Triple (IsOpen (σ := σ) t sock) (do
      let _ ← cClose conns sock
      pure none : Run σ (Option Int32))
      (fun reported => if reported = none then IsShut t sock else IsOpen t sock)
      (fun _ _ => True) :=
    cClose_trace.bind fun _ => Triple.pure fun _ hs => hs
  have hleave := said_trace (hk.logout hs.quit) fun _ => hclose
  refine (cOpen_trace _ _ _ _).bind fun ret => Triple.ite (fun hret => ?_) fun hret => ?_
  · refine Triple.bind (R := fun _ s => s.trace = t ++ [.opened sock ret])
      (Triple.modify fun _ hs => hs) fun _ => Triple.pure fun s hs => ?_
    exact ⟨[.opened sock ret], hs, ret, [], rfl, fun _ h => absurd h List.not_mem_nil,
      fun h => absurd h hret⟩
  · suffices h : Triple (IsOpen t sock) _ _ _ from h.weaken fun s hs =>
      ⟨[.opened sock 0], not_not.1 hret ▸ hs, [], rfl, fun _ h => absurd h List.not_mem_nil⟩
    refine said_trace (hk.login proto hs) fun _ => Triple.ite (fun _ => said_trace (hlog _) fun _ =>
      hclose) fun _ => ?_
    refine said_trace (hk.status hs.stat) fun _ => Triple.ite (fun _ => said_trace (hlog _) fun _ =>
      hleave) fun _ => said_trace (hlog _) fun _ => ?_
    refine said_trace (hk.scan hs) fun _ => Triple.ite (fun _ => said_trace (hlog _) fun _ =>
      hleave) fun _ => ?_
    refine said_trace (hk.recount hs.stat _) fun _ => Triple.ite (fun _ =>
      said_trace (hlog _) fun _ => hleave) fun _ => Triple.pure fun _ hs => hs

/-- `QUIT` cannot be sent. -/
def QuitFails (conn : Connection σ) (s : World σ) : Prop :=
  (exec (conn.cWrite quitCommand) s.wire).1 = .ok (-1)

theorem logout_trace (conn : Connection σ) (fails : Prop) :
    Triple (fun s => IsOpen t sock s ∧ (QuitFails conn s ↔ fails)) (logout conn)
      (fun ok s => IsOpen t sock s ∧ (ok = false ↔ fails)) (fun _ _ => True) := by
  refine Triple.of_exec fun s hs => ?_
  obtain ⟨hs, hfails⟩ := hs
  have hwritten : IsOpen t sock (s.record (.write quitCommand)) := hs.record rfl fun _ => rfl
  have hwire : (s.record (.write quitCommand)).wire = s.wire := rfl
  unfold logout cWrite
  rw [exec_bind, exec_bind, exec_modify]
  simp only [exec_onWire, hwire]
  rw [← hfails, QuitFails]
  rcases exec (conn.cWrite quitCommand) s.wire with ⟨e | sent, wire⟩
  · trivial
  · refine ⟨hwritten, ?_⟩
    simp

/-- The end of the session: without `QUIT` the connection is not closed. -/
theorem conclude_trace (psock : ℕ) (messages : Int32) (fails : Prop) :
    Triple (fun s => IsOpen t sock s ∧ (QuitFails (conns psock) s ↔ fails))
      (conclude conns psock sock (some messages))
      (fun _ s => (fails ∧ IsOpen t sock s) ∨ (¬ fails ∧ IsShut t sock s)) (fun _ _ => True) := by
  refine Triple.bind (R := fun _ s => IsOpen t sock s ∧ (QuitFails (conns psock) s ↔ fails))
    (Triple.modify fun _ hs => hs) fun _ => (logout_trace _ fails).bind fun ok => ?_
  refine Triple.ite (fun hok => ?_) fun hok => ?_
  · suffices h : Triple (fun s => ¬ fails ∧ IsOpen t sock s) _ _ _ from h.weaken fun s hs =>
      ⟨fun h => absurd (hok.symm.trans (hs.2.2 h)) Bool.noConfusion, hs.1⟩
    exact Triple.of_fact fun hquit => cClose_trace.bind fun _ =>
      Triple.pure fun s hs => Or.inr ⟨hquit, hs⟩
  · exact Triple.pure fun s hs => Or.inl ⟨hs.2.1 (Bool.eq_false_iff.2 hok), hs.1⟩

/-- The session comes to its end, where `QUIT` cannot be sent. -/
def Account.Drops (conns : ℕ → Connection σ) (env : Env) (a : Account) (s : World σ) : Prop :=
  ∃ sock proto psock messages s', a.conn = some sock ∧ a.proto = some proto ∧
    proto.conn = some psock ∧ exec (a.examined conns env sock proto psock) s = (.ok (some messages), s') ∧
    QuitFails (conns psock) s'

/-- **A session leaves its connection open just when `QUIT` cannot be sent at its end.** -/
theorem check_trace {a : Account} {s s' : World σ} {status : ℤ}
    (hrun : exec (a.check conns env) s = (.ok status, s')) :
    ∃ sock, (a.Drops conns env s ∧ IsOpen s.trace sock s') ∨
      (¬ a.Drops conns env s ∧ IsShut s.trace sock s') := by
  unfold Account.check at hrun
  rcases hconn : a.conn with _ | sock
  · simp only [hconn] at hrun
    cases hrun
  rcases hproto : a.proto with _ | proto
  · simp only [hconn, hproto] at hrun
    cases hrun
  rcases hpconn : proto.conn with _ | psock
  · simp only [hconn, hproto, hpconn] at hrun
    cases hrun
  simp only [hconn, hproto, hpconn] at hrun
  rw [session_eq, exec_bind] at hrun
  have hexam := (@examined_trace σ conns env sock s.trace a proto psock).exec (s := s) rfl
  refine ⟨sock, ?_⟩
  rcases hex : exec (a.examined conns env sock proto psock) s with ⟨e | reported, s₁⟩
  · rw [hex] at hrun
    cases hrun
  rw [hex] at hrun hexam
  rcases reported with _ | messages
  · -- the session has failed before its end
    cases hrun
    refine Or.inr ⟨?_, hexam⟩
    rintro ⟨sock', proto', psock', messages, s₂, hconn', hproto', hpconn', hex', -⟩
    cases hconn.symm.trans hconn'
    cases hproto.symm.trans hproto'
    cases hpconn.symm.trans hpconn'
    cases hex.symm.trans hex'
  · have hdrops : a.Drops conns env s ↔ QuitFails (conns psock) s₁ := by
      constructor
      · rintro ⟨sock', proto', psock', messages', s₂, hconn', hproto', hpconn', hex', hquit⟩
        cases hconn.symm.trans hconn'
        cases hproto.symm.trans hproto'
        cases hpconn.symm.trans hpconn'
        cases hex.symm.trans hex'
        exact hquit
      · intro hquit
        exact ⟨sock, proto, psock, messages, s₁, hconn, hproto, hpconn, hex, hquit⟩
    have hend := (@conclude_trace σ conns sock s.trace psock messages _).exec (s := s₁)
      ⟨hexam, hdrops.symm⟩
    simp only at hrun
    rw [hrun] at hend
    exact hend

end Session

/-! ### The loop over the accounts -/

/-- The message in front of a check. -/
def Account.querying (a : Account) : LogCall :=
  printMsg (packageVersion ++ bytes " querying " ++ a.usr ++ bytes "@" ++ a.server ++ bytes ".") 3

/-- The message behind a check that failed. -/
def Account.skipping (a : Account) : LogCall :=
  printErr (bytes "Skipping account " ++ a.usr ++ bytes "@" ++ a.server ++
    bytes " due to earlier errors.")

/-- A round of the loop. -/
def Account.visit (conns : ℕ → Connection σ) (env : Env) (a : Account) : Run σ ℤ := do
  log a.querying
  let status ← a.check conns env
  if status ≠ 0 then do
    log a.skipping
    pure status
  else pure status

/-- The loop over the accounts, in this state, comes to check an account, in that state. -/
inductive Visits (conns : ℕ → Connection σ) (env : Env) :
    List Account → World σ → Account → World σ → Prop
  | here (a : Account) (accounts : List Account) (s : World σ) :
      Visits conns env (a :: accounts) s a (exec (log a.querying) s).2
  | later {a b : Account} {accounts : List Account} {s s' u : World σ} {status : ℤ}
      (hrun : exec (a.visit conns env) s = (.ok status, s')) (h : Visits conns env accounts s' b u) :
      Visits conns env (a :: accounts) s b u

theorem checkAccounts_cons (a : Account) (accounts : List Account) (returnVal : ℤ) :
    checkAccounts conns env (a :: accounts) returnVal =
      a.visit conns env >>= fun status =>
        checkAccounts conns env accounts (if status ≠ 0 then -1 else returnVal) := by
  simp only [checkAccounts, Account.visit, bind_assoc]
  refine bind_congr fun _ => bind_congr fun status => ?_
  by_cases hstatus : status = 0
  · simp [hstatus]
  · simp [hstatus, Account.skipping]

/-- A round adds to the trace what the session does. -/
theorem visit_trace {a : Account} {s s' : World σ} {status : ℤ}
    (hrun : exec (a.visit conns env) s = (.ok status, s')) :
    ∃ sock, (a.Drops conns env (exec (log a.querying) s).2 ∧ IsOpen s.trace sock s') ∨
      (¬ a.Drops conns env (exec (log a.querying) s).2 ∧ IsShut s.trace sock s') := by
  unfold Account.visit at hrun
  rw [exec_bind, show exec (log a.querying) s = (.ok ⟨⟩, (exec (log a.querying) s).2) from rfl]
    at hrun
  simp only [exec_bind] at hrun
  rcases hcheck : exec (a.check conns env) (exec (log a.querying) s).2 with ⟨e | status', s₁⟩
  · rw [hcheck] at hrun
    cases hrun
  · have htrace := check_trace hcheck
    rw [hcheck] at hrun
    by_cases hstatus : status' = 0
    · simp only [hstatus, ne_eq, not_true_eq_false, if_false, exec_pure] at hrun
      cases hrun
      exact htrace
    · simp only [ne_eq, hstatus, not_false_eq_true, if_true] at hrun
      cases hrun
      exact htrace

/-- What holds of all accounts that are checked. -/
theorem visits_cons {a : Account} {accounts : List Account} {s s' : World σ} {status : ℤ}
    (hrun : exec (a.visit conns env) s = (.ok status, s')) (P : Account → World σ → Prop) :
    (∀ b u, Visits conns env (a :: accounts) s b u → P b u) ↔
      P a (exec (log a.querying) s).2 ∧ ∀ b u, Visits conns env accounts s' b u → P b u := by
  constructor
  · intro h
    exact ⟨h a _ (.here a accounts s), fun b u hu => h b u (.later hrun hu)⟩
  · rintro ⟨hhere, hlater⟩ b u (_ | ⟨hrun', hu⟩)
    · exact hhere
    · cases hrun.symm.trans hrun'
      exact hlater b u hu

/-- **Connections are paired** in every run over any accounts that returns, if and only if no session
that comes to its end finds that `QUIT` cannot be sent. -/
theorem checkAccounts_closedOnce_iff {accounts : List Account} {returnVal ret : ℤ} {s s' : World σ}
    (hrun : exec (checkAccounts conns env accounts returnVal) s = (.ok ret, s')) :
    ∃ t, s'.trace = s.trace ++ t ∧ Starts t ∧
      (ClosedOnce t ↔ ∀ a u, Visits conns env accounts s a u → ¬ a.Drops conns env u) := by
  induction accounts generalizing returnVal s with
  | nil =>
    cases hrun
    refine ⟨[], (List.append_nil _).symm, (fun e he => nomatch he), iff_of_true closedOnce_nil ?_⟩
    rintro a u ⟨⟩
  | cons a accounts ih =>
    rw [checkAccounts_cons, exec_bind] at hrun
    rcases hvisit : exec (a.visit conns env) s with ⟨e | status, s₁⟩
    · rw [hvisit] at hrun
      cases hrun
    rw [hvisit] at hrun
    obtain ⟨t, htrace, ht, hiff⟩ := ih hrun
    obtain ⟨sock, ⟨hdrops, b, hb, hopen⟩ | ⟨hdrops, b, hb, hshut⟩⟩ := visit_trace hvisit
    · refine ⟨b ++ t, by rw [htrace, hb, List.append_assoc], hopen.starts, ?_⟩
      exact iff_of_false (hopen.not_closedOnce ht) fun h => h a _ (.here a accounts s) hdrops
    · refine ⟨b ++ t, by rw [htrace, hb, List.append_assoc], hshut.starts, ?_⟩
      rw [hshut.closedOnce ht, hiff, visits_cons hvisit]
      exact (and_iff_right hdrops).symm

/-- A server with an empty mailbox that hangs up when `QUIT` is written. -/
def hangingUp : Connection (List Bytes × Option Bytes) :=
  { prepared with cWrite := fun msg => if msg = quitCommand then pure (-1) else prepared.cWrite msg }

def joe : Account :=
  ⟨bytes "host", bytes "joe", bytes "secret", 110, some ⟨.pop3, protocolPop3, some 0⟩, some 0⟩

/-- Its connection is never closed. -/
theorem hangingUp_leaks :
    ∃ s', exec (checkAccounts (fun _ => hangingUp) smallMail [joe] 0) (World.new emptyServer) =
      (.ok (-1), s') ∧ ¬ ClosedOnce s'.trace := by
  refine ⟨_, rfl, fun h => ?_⟩
  exact absurd (h [] 0 _ rfl) (by decide)

/-- A server that does not hang up. -/
theorem checkAccounts_closedOnce_iff_emptyServer :
    ∃ s', exec (checkAccounts (fun _ => prepared) smallMail [joe] 0) (World.new emptyServer) =
      (.ok 0, s') ∧ ClosedOnce s'.trace := by
  have hrun : exec (checkAccounts (fun _ => prepared) smallMail [joe] 0) (World.new emptyServer) =
      (.ok 0, (exec (checkAccounts (fun _ => prepared) smallMail [joe] 0)
        (World.new emptyServer)).2) := rfl
  refine ⟨_, hrun, ?_⟩
  obtain ⟨t, htrace, -, hiff⟩ := checkAccounts_closedOnce_iff hrun
  rw [htrace]
  refine hiff.2 fun a u _ => ?_
  rintro ⟨sock, proto, psock, messages, s', -, -, -, -, hquit⟩
  exact absurd (Except.ok.inj hquit) (by decide)

end Mailfilter
