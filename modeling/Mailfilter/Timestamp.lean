import Mailfilter.Account
import Mailfilter.Deletion

/-!
# The timestamp of APOP

`APOP::login` answers a greeting with a digest of its timestamp and the password.  The check
`rfc822_valid_msgid`, which was taken over against the attack on such digests, is applied to the
message-IDs of headers, and not here.

* `StampAccepted`: the greeting has a timestamp that the check accepts;
* `Guarded`: a digest is written for such greetings only, and for no other greeting is anything
  written;
* `login_sent`: every timestamp is answered, and `login_guarded_iff`.
-/

namespace Mailfilter

open Pop3 Program

variable {σ : Type}

/-- The greeting has a timestamp, and the check for message-IDs accepts it. -/
def StampAccepted (greet : Bytes) : Prop :=
  ∃ ts, Apop.timestamp greet = some ts ∧ rfc822ValidMsgid ts = 0

/-- The run hands something to `c_write`. -/
def Wrote {α : Type} (p : Run σ α) (w : World σ) : Prop :=
  ∃ msg, Event.write msg ∈ (exec p w).2.trace.drop w.trace.length

/-- The login writes a command only if the timestamp of the greeting is accepted, and else it returns
false and has written nothing. -/
def Guarded (conn : Connection σ) (env : Env) (usr pass : Bytes) (w : World σ) (greet : Bytes) :
    Prop :=
  (Wrote (Apop.login conn env usr pass) w → StampAccepted greet) ∧
    (¬ StampAccepted greet → (exec (Apop.login conn env usr pass) w).1 = .ok false ∧
      ¬ Wrote (Apop.login conn env usr pass) w)

section Login

variable {conn : Connection σ} {env : Env} {usr pass : Bytes} {w w₁ : World σ} {ret : Int32}
  {greet : Bytes}

/-- The message was handed to `c_write` after the events `t`. -/
def Sent (t : List Event) (msg : Bytes) (s : World σ) : Prop :=
  ∃ rest, s.trace = t ++ .write msg :: rest

theorem commandOk_sent {t : List Event} {v : Weeder} (header : Bool) (msg : Bytes) :
    Triple (At t v) (commandOk conn header msg) (fun _ => Sent t msg) (fun _ => Sent t msg) := by
  have hsent : ∀ (tail : List Event) (s : World σ), At (t ++ [.write msg] ++ tail) v s →
      Sent t msg s := by
    intro tail s hs
    exact ⟨tail, by rw [hs.1, List.append_assoc, List.singleton_append]⟩
  have hsent₀ : ∀ s : World σ, At (t ++ [.write msg]) v s → Sent t msg s := fun s hs =>
    hsent [] s (by rwa [List.append_nil])
  refine Triple.bind (R := fun _ => At (t ++ [.write msg]) v)
    ((cWrite_spec msg).errors fun _ => hsent₀) fun sent => ?_
  split
  · exact Triple.pure hsent₀
  · refine (replyOk_spec header).conseq (fun _ h => h) (fun b s hs => ?_) fun _ => hsent₀
    cases b with
    | true =>
      obtain ⟨ret, r, -, hs⟩ := hs
      exact hsent _ s hs.1
    | false =>
      obtain ⟨ret, r, -, hs⟩ := hs
      exact hsent _ s hs

/-- The read of the greeting leaves one event. -/
theorem trace_cRead (hread : exec (cRead conn false) w = (.ok ret, w₁)) :
    w₁.trace = w.trace ++ [.read false ret (conn.cReply w₁.wire.net)] := by
  have h := (@cRead_spec σ conn w.trace w.weeder false).exec ⟨rfl, rfl⟩
  rw [hread] at h
  exact h.1

theorem exec_reply {s : World σ} {r : Bytes} (hreply : conn.cReply s.wire.net = some r) :
    exec (reply conn) s = (.ok r, s) := by
  unfold reply cReply
  rw [exec_bind, exec_gets, hreply]
  rfl

/-- A greeting that could not be read, or has no timestamp. -/
theorem exec_login_refused (hread : exec (cRead conn false) w = (.ok ret, w₁))
    (hreply : conn.cReply w₁.wire.net = some greet)
    (hno : ret = -1 ∨ Apop.timestamp greet = none) :
    exec (Apop.login conn env usr pass) w = (.ok false, w₁) := by
  unfold Apop.login
  rw [exec_bind, hread]
  by_cases hret : ret = -1
  · simp only [hret, if_true, exec_pure]
  · simp only [hret, if_false]
    rw [exec_bind, exec_reply hreply]
    simp only [hno.resolve_left hret, exec_pure]

/-- **Every timestamp is answered**, with the digest of itself and the password. -/
theorem login_sent (env : Env) (usr pass : Bytes) (hread : exec (cRead conn false) w = (.ok ret, w₁))
    (hreply : conn.cReply w₁.wire.net = some greet) (hret : ret ≠ -1) {ts : Bytes}
    (hts : Apop.timestamp greet = some ts) :
    Sent w₁.trace (Apop.apopCommand usr (Apop.getHash env ts pass))
      (exec (Apop.login conn env usr pass) w).2 := by
  unfold Apop.login
  rw [exec_bind, hread]
  simp only [hret, if_false]
  rw [exec_bind, exec_reply hreply]
  simp only [hts]
  refine Triple.state (P := At w₁.trace w₁.weeder) ?_ ⟨rfl, rfl⟩
  refine (commandOk_sent false _).bind fun ok => ?_
  split
  · exact Triple.bind (Triple.modify fun _ hs => hs) fun _ => Triple.pure fun _ hs => hs
  · exact Triple.pure fun _ hs => hs

/-- **APOP digests** are given for accepted timestamps only, just when the greeting has no timestamp or
an accepted one, or could not be read. -/
theorem login_guarded_iff (hread : exec (cRead conn false) w = (.ok ret, w₁))
    (hreply : conn.cReply w₁.wire.net = some greet) :
    Guarded conn env usr pass w greet ↔
      ret = -1 ∨ Apop.timestamp greet = none ∨ StampAccepted greet := by
  have htrace := trace_cRead hread
  constructor
  · intro hguarded
    by_cases hret : ret = -1
    · exact Or.inl hret
    · cases hts : Apop.timestamp greet with
      | none => exact Or.inr (Or.inl rfl)
      | some ts =>
        obtain ⟨rest, hsent⟩ := login_sent env usr pass hread hreply hret hts
        have hwrote : Wrote (Apop.login conn env usr pass) w := by
          refine ⟨Apop.apopCommand usr (Apop.getHash env ts pass), ?_⟩
          rw [hsent, htrace, List.append_assoc, List.drop_left]
          exact List.mem_append_right _ (List.mem_cons_self ..)
        exact Or.inr (Or.inr (hguarded.1 hwrote))
  · intro h
    by_cases hok : StampAccepted greet
    · exact ⟨fun _ => hok, fun hno => absurd hok hno⟩
    · have hrun : exec (Apop.login conn env usr pass) w = (.ok false, w₁) :=
        exec_login_refused hread hreply (h.imp_right (·.resolve_right hok))
      have hsilent : ¬ Wrote (Apop.login conn env usr pass) w := by
        rintro ⟨msg, hmem⟩
        rw [hrun, htrace, List.drop_left, List.mem_singleton] at hmem
        cases hmem
      exact ⟨fun hwrote => absurd hwrote hsilent, fun _ => ⟨by rw [hrun], hsilent⟩⟩

end Login

/-- A server that greets with the given line, and accepts what follows. -/
def greeted (line : Bytes) : World (List Bytes × Option Bytes) where
  wire := ⟨([line, bytes "+OK\r\n"], none), []⟩
  weeder := Weeder.new
  mailboxStatus := 0
  headerFile := ⟨0, false, []⟩
  trace := []

/-- A timestamp without an `@`. -/
def badGreeting : Bytes := bytes "+OK <x>\r\n"

/-- The digest is given away for it. -/
theorem badGreeting_answered :
    (exec (cRead prepared false) (greeted badGreeting)).1 = .ok 9 ∧
      prepared.cReply (exec (cRead prepared false) (greeted badGreeting)).2.wire.net =
        some badGreeting ∧
      ¬ StampAccepted badGreeting ∧
      Event.write (Apop.apopCommand (bytes "joe")
          (Apop.getHash smallMail (bytes "<x>") (bytes "secret"))) ∈
        (exec (Apop.login prepared smallMail (bytes "joe") (bytes "secret"))
          (greeted badGreeting)).2.trace ∧
      ¬ Guarded prepared smallMail (bytes "joe") (bytes "secret") (greeted badGreeting) badGreeting := by
  have hbad : ¬ StampAccepted badGreeting := by
    rintro ⟨ts, hts, hok⟩
    cases hts
    exact absurd hok (by decide)
  have hwrite : Event.write (Apop.apopCommand (bytes "joe")
        (Apop.getHash smallMail (bytes "<x>") (bytes "secret"))) ∈
      (exec (Apop.login prepared smallMail (bytes "joe") (bytes "secret"))
        (greeted badGreeting)).2.trace := by
    decide +kernel
  exact ⟨rfl, rfl, hbad, hwrite, fun hguarded => (hguarded.2 hbad).2 ⟨_, hwrite⟩⟩

/-- A timestamp as servers make them is answered, as it should be. -/
theorem login_guarded_iff_goodGreeting :
    Guarded prepared smallMail (bytes "joe") (bytes "secret") (greeted (bytes "+OK <1@host>\r\n"))
      (bytes "+OK <1@host>\r\n") :=
  (login_guarded_iff rfl rfl).2 (Or.inr (Or.inr ⟨_, rfl, by decide⟩))

end Mailfilter
