import Mailfilter.Deletion
import Mailfilter.Network

/-!
# The alarm

`Socket::c_open` arms an alarm, whose handler jumps back into it.  Is the alarm ever pending when
control has left `c_open`?

* `Mark`, what can be seen of a run: the calls that `c_open` makes, its returns, and the other calls of
  the system; `Os.watched` and `watched` note them down;
* `pending`, after some marks, and `NoStray`: nowhere outside `c_open` is the alarm pending;
* `Phase`, the marks of a `c_open` at work, with one lemma for each of its parts; `cOpen_settled`;
* `checkAccounts_noStray_iff`: there is no stray alarm if and only if the time-out is 0, or neither
  `BIO_new_socket` nor `SSL_connect` fails.
-/

namespace Mailfilter

open Program

variable {ω : Type}

/-! ### Marks -/

/-- What can be seen of a run. -/
inductive Mark
  | call (c : OpenCall) (r : OpenResult)
  | returned
  | other
  deriving DecidableEq

/-- The call belongs to `c_open`. -/
def Mark.isCall : Mark → Bool
  | .call _ _ => true
  | _ => false

/-- A failure of the negotiation that makes `c_open` return. -/
def Mark.isLeak : Mark → Bool
  | .call .bioNewSocket (.done false) => true
  | .call (.sslConnect _) (.done false) => true
  | _ => false

/-- Is the alarm pending afterwards?  `alarm` sets it or, with 0, takes it back, and the signal uses it
up. -/
def Mark.arm (pending : Bool) : Mark → Bool
  | .call _ .alarmed => false
  | .call (.alarm seconds) (.done _) => seconds ≠ 0
  | _ => pending

def pending (marks : List Mark) : Bool := marks.foldl Mark.arm false

/-- Behind these marks control is outside `c_open`. -/
def Outside (marks : List Mark) : Prop := ∀ m ∈ marks.getLast?, m.isCall = false

instance (marks : List Mark) : Decidable (Outside marks) :=
  inferInstanceAs (Decidable (∀ m ∈ marks.getLast?, _))

/-- Nowhere outside `c_open` is the alarm pending. -/
def NoStray (marks : List Mark) : Prop := ∀ pre, pre <+: marks → Outside pre → pending pre = false

/-- No alarm is asked for, or no negotiation fails. -/
def NeverLeaks (timeOut : Int32) (marks : List Mark) : Prop :=
  timeOut = 0 ∨ ∀ m ∈ marks, m.isLeak = false

/-- A call behind `c_open` is noted down. -/
def other {α : Type} (f : ω → α × ω) (s : ω × List Mark) : α × (ω × List Mark) :=
  ((f s.1).1, (f s.1).2, s.2 ++ [.other])

/-- The system, with the marks so far. -/
def Os.watched (os : Os ω) : Os (ω × List Mark) where
  openCall c s :=
    ((os.openCall c s.1).1, (os.openCall c s.1).2, s.2 ++ [.call c (os.openCall c s.1).1])
  close := other os.close
  sslShutdown s := (os.sslShutdown s.1, s.2 ++ [.other])
  sslSet s := os.sslSet s.1
  getFlags := other os.getFlags
  setFlags flags := other (os.setFlags flags)
  select timeOut := other (os.select timeOut)
  recv := other os.recv
  sslRead := other os.sslRead
  write msg := other (os.write msg)
  sslWrite msg := other (os.sslWrite msg)
  strerror s := os.strerror s.1

/-- `c_open` returns. -/
def noteReturn : Program Halt (Wire (Net (ω × List Mark))) Unit := modify fun w =>
  { w with net := { w.net with os := (w.net.os.1, w.net.os.2 ++ [.returned]) } }

/-- The sockets of the accounts, with the marks so far. -/
def watched (os : ℕ → Os ω) (fuel sock : ℕ) : Connection (Net (ω × List Mark)) :=
  let conn := networked (fun sock => (os sock).watched) fuel sock
  { conn with cOpen := fun host port timeOut protocol => do
      let ret ← conn.cOpen host port timeOut protocol
      noteReturn
      pure ret }

/-! ### One more mark -/

variable {M cs : List Mark} {m : Mark}

theorem pending_concat : pending (M ++ [m]) = m.arm (pending M) := by
  simp [pending]

theorem outside_concat : Outside (M ++ [m]) ↔ m.isCall = false := by
  simp [Outside]

theorem noStray_concat : NoStray (M ++ [m]) ↔
    NoStray M ∧ (m.isCall = false → pending (M ++ [m]) = false) := by
  constructor
  · intro h
    refine ⟨fun pre hpre hout => h pre (hpre.trans (List.prefix_append ..)) hout, fun hm => ?_⟩
    exact h _ (List.prefix_refl _) (outside_concat.2 hm)
  · rintro ⟨hM, hlast⟩ pre hpre hout
    rcases List.prefix_concat_iff.1 hpre with rfl | hpre
    · exact hlast (outside_concat.1 hout)
    · exact hM pre hpre hout

theorem noStray_calls (hcs : ∀ m ∈ cs, m.isCall = true) : NoStray (M ++ cs) ↔ NoStray M := by
  induction cs using List.reverseRecOn with
  | nil => rw [List.append_nil]
  | append_singleton cs m ih =>
    rw [← List.append_assoc, noStray_concat, ih fun c hc => hcs c (List.mem_append_left _ hc)]
    refine and_iff_left fun hm => ?_
    have hcall := hcs m (List.mem_append_right _ (List.mem_singleton_self m))
    rw [hm] at hcall
    cases hcall

theorem neverLeaks_append {timeOut : Int32} :
    NeverLeaks timeOut (M ++ cs) ↔ NeverLeaks timeOut M ∧ NeverLeaks timeOut cs := by
  unfold NeverLeaks
  rw [← or_and_left]
  simp only [List.mem_append, or_imp, forall_and]

/-! ### The other calls -/

/-- Between the calls of `c_open` there is a stray alarm just when there was a leak. -/
structure Settled (timeOut : Int32) (s : ω × List Mark) : Prop where
  outside : Outside s.2
  noStray_iff : NoStray s.2 ↔ NeverLeaks timeOut s.2

theorem Settled.other {timeOut : Int32} {s : ω × List Mark} (h : Settled timeOut s) (s' : ω) :
    Settled timeOut (s', s.2 ++ [.other]) := by
  refine ⟨outside_concat.2 rfl, ?_⟩
  rw [noStray_concat, neverLeaks_append, ← h.noStray_iff]
  refine and_congr_right fun hno => iff_of_true (fun _ => ?_) (Or.inr (by simp [Mark.isLeak]))
  rw [pending_concat]
  exact hno _ (List.prefix_refl _) h.outside

theorem watched_keeps (os : Os ω) (timeOut : Int32) : os.watched.Keeps (Settled timeOut) where
  close _ h := h.other _
  sslShutdown _ h := h.other _
  getFlags _ h := h.other _
  setFlags _ _ h := h.other _
  select _ _ h := h.other _
  recv _ h := h.other _
  sslRead _ h := h.other _
  write _ _ h := h.other _
  sslWrite _ _ h := h.other _

/-! ### Opening a connection -/

/-- Within `c_open`: its calls so far, whether the alarm is pending, and whether there was a leak. -/
def Phase (M : List Mark) (armed leak : Bool) (s : ω × List Mark) : Prop :=
  ∃ cs, s.2 = M ++ cs ∧ (∀ m ∈ cs, m.isCall = true) ∧ cs.any Mark.isLeak = leak ∧
    (pending M = false → pending s.2 = armed)

/-- `c_open` may return: the alarm is pending just if one was asked for and there was a leak. -/
def MayReturn (timeOut : Int32) (M : List Mark) (s : ω × List Mark) : Prop :=
  ∃ armed leak, Phase M armed leak s ∧ (armed = false ↔ timeOut = 0 ∨ leak = false)

/-- The program has ended within `c_open`. -/
def Exited (M : List Mark) (s : ω × List Mark) : Prop := ∃ armed, Phase M armed false s

variable {os : Os ω} {timeOut : Int32} {armed leak : Bool}

theorem Phase.call {s : ω × List Mark} (h : Phase M armed leak s) (c : OpenCall) (r : OpenResult)
    (s' : ω) : Phase M ((Mark.call c r).arm armed) (leak || (Mark.call c r).isLeak)
      (s', s.2 ++ [.call c r]) := by
  obtain ⟨cs, hs, hcalls, rfl, hpending⟩ := h
  refine ⟨cs ++ [.call c r], by rw [hs, List.append_assoc], fun m hm => ?_, by simp, fun hM => ?_⟩
  · rcases List.mem_append.1 hm with hm | hm
    · exact hcalls m hm
    · rw [List.mem_singleton.1 hm]
      rfl
  · show pending (s.2 ++ [Mark.call c r]) = _
    rw [pending_concat, hpending hM]

theorem Phase.mayReturn {s : ω × List Mark} (h : Phase M false leak s) (hleak : leak = false) :
    MayReturn timeOut M s :=
  ⟨false, leak, h, iff_of_true rfl (Or.inr hleak)⟩

section Open

open Socket

variable {E : Halt → Wire (Socket (ω × List Mark)) → Prop}
  {Q : Int32 → Wire (Socket (ω × List Mark)) → Prop}

theorem say_phase (call : LogCall) :
    Triple (OnOs (Phase M armed leak)) (say call : Call (ω × List Mark) Unit)
      (fun _ => OnOs (Phase M armed leak)) E :=
  Triple.modify fun _ hw => hw

theorem openCall_phase (c : OpenCall) :
    Triple (OnOs (Phase M armed leak)) (sys (os.watched.openCall c))
      (fun r => OnOs (Phase M ((Mark.call c r).arm armed) (leak || (Mark.call c r).isLeak))) E :=
  Triple.of_exec fun _ hw => Phase.call hw c _ _

/-- A call that the signal may interrupt: then the alarm is used up. -/
theorem guarded_phase {c : OpenCall} {next : Bool → Call (ω × List Mark) Int32}
    (hnext : ∀ ok, Triple (OnOs (Phase M ((Mark.call c (.done ok)).arm armed)
      (leak || (Mark.call c (.done ok)).isLeak))) (next ok) Q E)
    (hjump : ∀ w, OnOs (Phase M false leak) w → Q (-1) w) :
    Triple (OnOs (Phase M armed leak)) (guarded os.watched c next) Q E := by
  refine (openCall_phase c).bind fun r => ?_
  cases r with
  | done ok => exact hnext ok
  | alarmed =>
    have hfalse : (leak || (Mark.call c .alarmed).isLeak) = leak := by cases c <;> exact Bool.or_false _
    have harm : (Mark.call c .alarmed).arm armed = false := rfl
    simp only [hfalse, harm]
    exact (say_phase _).bind fun _ => Triple.pure hjump

/-- The alarm is taken back. -/
theorem reset_phase : Triple (OnOs (Phase M armed leak)) (sys (os.watched.openCall (.alarm 0)))
    (fun _ => OnOs (Phase M false leak)) E := by
  refine (openCall_phase (.alarm 0)).conseq (fun _ hw => hw) (fun r w hw => ?_) fun _ _ h => h
  have harm : (Mark.call (.alarm 0) r).arm armed = false := by cases r <;> rfl
  have hfalse : (leak || (Mark.call (.alarm 0) r).isLeak) = leak := by
    cases r <;> exact Bool.or_false _
  rwa [harm, hfalse] at hw

theorem opened_phase : Triple (OnOs (Phase M armed false)) (opened os.watched)
    (fun _ => OnOs (MayReturn timeOut M)) E :=
  reset_phase.bind fun _ => Triple.pure fun _ hw => Phase.mayReturn hw rfl

theorem openFailure_phase (text : Bytes) :
    Triple (OnOs (Phase M armed false)) (openFailure os.watched text)
      (fun _ => OnOs (MayReturn timeOut M)) E :=
  (say_phase _).bind fun _ => reset_phase.bind fun _ =>
    Triple.pure fun _ hw => Phase.mayReturn hw rfl

/-- A failure of the negotiation that returns with the alarm on. -/
theorem leak_phase (text : Bytes) :
    Triple (OnOs (Phase M (timeOut ≠ 0) true)) (do
      say (printErr text)
      pure (-1) : Call (ω × List Mark) Int32) (fun _ => OnOs (MayReturn timeOut M)) E := by
  refine (say_phase _).bind fun _ => Triple.pure fun w hw => ⟨_, _, hw, ?_⟩
  simp

/-- The jump out of `c_open`. -/
theorem jump_phase (w : Wire (Socket (ω × List Mark))) (hw : OnOs (Phase M false false) w) :
    OnOs (MayReturn timeOut M) w :=
  Phase.mayReturn hw rfl

theorem negotiate_phase (hostName : Bytes) :
    Triple (OnOs (Phase M (timeOut ≠ 0) false)) (negotiate os.watched hostName)
      (fun _ => OnOs (MayReturn timeOut M)) (fun _ => OnOs (Exited M)) := by
  refine guarded_phase (fun ok => Triple.ite (fun _ => ?_) fun _ => ?_) jump_phase
  · exact (say_phase _).bind fun _ => Triple.throw fun w hw => ⟨_, hw⟩
  refine guarded_phase (fun ok => Triple.ite (fun hok => ?_) fun hok => ?_) jump_phase
  · obtain rfl : ok = false := by simpa using hok
    exact leak_phase _
  obtain rfl : ok = true := by simpa using hok
  refine guarded_phase (fun ok => Triple.ite (fun hok => ?_) fun hok => ?_) jump_phase
  · obtain rfl : ok = false := by simpa using hok
    exact leak_phase _
  · obtain rfl : ok = true := by simpa using hok
    exact opened_phase

/-- From `connect` on, with the alarm on. -/
theorem connected_phase (hostName : Bytes) :
    Triple (OnOs (Phase M (timeOut ≠ 0) false)) (do
      if ← Program.gets fun w => w.net.sslUsed then negotiate os.watched hostName
      else opened os.watched : Call (ω × List Mark) Int32)
      (fun _ => OnOs (MayReturn timeOut M)) (fun _ => OnOs (Exited M)) := by
  refine Triple.bind (R := fun _ => OnOs (Phase M (timeOut ≠ 0) false)) (Triple.gets fun _ hw => hw)
    fun ssl => ?_
  exact Triple.ite (fun _ => negotiate_phase hostName) fun _ => opened_phase

/-- The calls of `c_open`. -/
theorem cOpen_phase (hostName : Bytes) (port : ℤ) (protocol : ℕ) :
    Triple (OnOs (Phase M false false)) (Socket.cOpen os.watched hostName port timeOut protocol)
      (fun _ => OnOs (MayReturn timeOut M)) (fun _ => OnOs (Exited M)) := by
  have hfail : ∀ text, Triple (OnOs (Phase M false false)) (do
      say (printErr text)
      pure (-1) : Call (ω × List Mark) Int32) (fun _ => OnOs (MayReturn timeOut M))
      (fun _ => OnOs (Exited M)) :=
    fun text => (say_phase _).bind fun _ => Triple.pure jump_phase
  have hlookUp : Triple (OnOs (Phase M (timeOut ≠ 0) false)) (guarded os.watched .socket fun ok =>
      if !ok then openFailure os.watched (bytes "DNS look up error; is the hostname correct?")
      else guarded os.watched (.gethostbyname hostName) fun ok =>
        if !ok then openFailure os.watched (bytes "DNS look up error; is the hostname correct?")
        else guarded os.watched (.connect port) fun ok =>
          if !ok then openFailure os.watched (bytes "Server connection could not be established.")
          else do
            if ← Program.gets fun w => w.net.sslUsed then negotiate os.watched hostName
            else opened os.watched)
      (fun _ => OnOs (MayReturn timeOut M)) (fun _ => OnOs (Exited M)) := by
    refine guarded_phase (fun ok => Triple.ite (fun _ => openFailure_phase _) fun _ => ?_) jump_phase
    refine guarded_phase (fun ok => Triple.ite (fun _ => openFailure_phase _) fun _ => ?_) jump_phase
    refine guarded_phase (fun ok => Triple.ite (fun _ => openFailure_phase _) fun _ => ?_) jump_phase
    exact connected_phase hostName
  refine Triple.bind (R := fun _ => OnOs (Phase M false false)) (Triple.modify fun _ hw => hw)
    fun _ => (openCall_phase .sigaction).bind fun r => ?_
  cases r with
  | alarmed => exact hfail _
  | done ok =>
    cases ok with
    | false => exact hfail _
    | true =>
      refine guarded_phase (fun _ => Triple.ite (fun _ => ?_) fun _ => ?_) jump_phase
      · refine (say_phase _).bind fun _ => ?_
        refine Triple.bind (R := fun _ => OnOs (Phase M (timeOut ≠ 0) false))
          (Triple.modify fun _ hw => hw) fun _ => ?_
        exact hlookUp
      · exact (say_phase _).bind fun _ => hlookUp

end Open

/-! ### The loop over the accounts -/

/-- There is a stray alarm just when there was a leak. -/
def Matches (timeOut : Int32) (s : ω × List Mark) : Prop := NoStray s.2 ↔ NeverLeaks timeOut s.2

theorem any_isLeak_eq_false : cs.any Mark.isLeak = false ↔ ∀ m ∈ cs, m.isLeak = false := by
  simp

/-- `c_open` returns after its calls. -/
theorem MayReturn.settled {s₀ s : ω × List Mark} (h₀ : Settled timeOut s₀)
    (h : MayReturn timeOut s₀.2 s) : Settled timeOut (s.1, s.2 ++ [.returned]) := by
  obtain ⟨armed, leak, ⟨cs, hs, hcalls, hleak, hpending⟩, harmed⟩ := h
  refine ⟨outside_concat.2 rfl, ?_⟩
  have hleaks : NeverLeaks timeOut cs ↔ armed = false := by
    rw [harmed, ← hleak, any_isLeak_eq_false, NeverLeaks]
  have hlast : NeverLeaks timeOut [Mark.returned] := Or.inr (by simp [Mark.isLeak])
  rw [noStray_concat, neverLeaks_append, and_iff_left hlast, pending_concat, hs, noStray_calls hcalls,
    neverLeaks_append, ← h₀.noStray_iff, hleaks, ← hs]
  refine and_congr_right fun hno => ?_
  have hp : pending s.2 = armed := hpending (hno _ (List.prefix_refl _) h₀.outside)
  rw [hp]
  exact ⟨fun h => h rfl, fun h _ => h⟩

/-- The program ends within `c_open`. -/
theorem Exited.matches {s₀ s : ω × List Mark} (h₀ : Settled timeOut s₀) (h : Exited s₀.2 s) :
    Matches timeOut s := by
  obtain ⟨armed, cs, hs, hcalls, hleak, -⟩ := h
  rw [Matches, hs, noStray_calls hcalls, neverLeaks_append, h₀.noStray_iff]
  exact (and_iff_left (Or.inr (any_isLeak_eq_false.1 hleak))).symm

theorem cOpen_settled (os : ℕ → Os ω) (fuel sock : ℕ) (host : Bytes) (port : ℤ) (protocol : ℕ) :
    Triple (OnNet (Settled timeOut)) (cOpen (watched os fuel) sock host port timeOut protocol)
      (fun _ => OnNet (Settled timeOut)) (fun _ => OnNet (Matches timeOut)) := by
  have hconn : ∀ s₀ : ω × List Mark, Settled timeOut s₀ →
      Triple (fun w => Phase s₀.2 false false w.net.os)
        ((watched os fuel sock).cOpen host port timeOut protocol)
        (fun _ w => Settled timeOut w.net.os) (fun _ w => Matches timeOut w.net.os) := by
    intro s₀ h₀
    have hphase := @cOpen_phase ω s₀.2 (os sock) timeOut host port protocol
    have hopen := @onSocket_triple _ _ _ _ _ sock _ hphase
    refine (hopen.errors fun _ _ h => Exited.matches h₀ h).bind fun ret => ?_
    refine Triple.bind (R := fun _ w => Settled timeOut w.net.os) ?_ fun _ => Triple.pure fun _ hw => hw
    exact Triple.modify fun _ hw => MayReturn.settled h₀ hw
  refine Triple.bind ?_ fun ret => ((record_preserves (fun _ hs => hs) ret).errors
    fun _ s hs => hs.noStray_iff : Triple (OnNet (Settled timeOut)) _ _ _)
  refine onWire_onNet fun w hw => hconn w.net.os hw w ?_
  exact ⟨[], (List.append_nil _).symm, fun m hm => absurd hm List.not_mem_nil, rfl, id⟩

theorem watched_sessions (os : ℕ → Os ω) (fuel : ℕ) (env : Env) :
    SessionKeeps (watched os fuel) env (fun _ => True) (OnNet (Settled env.prefs.timeOut))
      (OnNet (Matches env.prefs.timeOut)) where
  kept sock :=
    have h : Keeps (networked (fun sock => (os sock).watched) fuel sock) env (fun _ => True)
        (OnNet (Settled env.prefs.timeOut)) :=
      networked_keeps (fun sock => watched_keeps (os sock) env.prefs.timeOut) fuel sock
    ⟨h.blind, h.read, h.write, h.weed⟩
  opened sock host port protocol := cOpen_settled os fuel sock host port protocol
  closed sock := Triple.bind (onWire_onNet (onSocket_triple
    (Socket.cClose_onOs (watched_keeps (os sock) _)))) fun ret => record_preserves (fun _ hs => hs) ret
  counted _ _ hs := hs
  halted _ hs := hs.noStray_iff

/-- **There is no stray alarm** in any run over any accounts, if and only if the time-out is 0 or no
negotiation fails at `BIO_new_socket` or `SSL_connect`. -/
theorem checkAccounts_noStray_iff (os : ℕ → Os ω) (fuel : ℕ) (env : Env) (accounts : List Account)
    (returnVal : ℤ) {s : World (Net (ω × List Mark))} (hs : s.wire.net.os.2 = []) :
    let marks := (exec (checkAccounts (watched os fuel) env accounts returnVal) s).2.wire.net.os.2
    NoStray marks ↔ env.prefs.timeOut = 0 ∨ ∀ m ∈ marks, m.isLeak = false := by
  have hstart : OnNet (Settled env.prefs.timeOut) s := by
    have hnil : Settled env.prefs.timeOut (s.wire.net.os.1, []) := by
      refine ⟨fun m hm => (nomatch hm), iff_of_true (fun pre hpre _ => ?_) (Or.inr fun m hm => ?_)⟩
      · rw [List.prefix_nil.1 hpre]
        rfl
      · exact absurd hm List.not_mem_nil
    rw [← hs] at hnil
    exact hnil
  have hloop := (watched_sessions os fuel env).checkAccounts
    (fun a (_ : a ∈ accounts) => Speech.trivial env _ _) returnVal
  have hrun := hloop.conseq (fun _ hs => hs)
    (fun _ s (hs : OnNet (Settled env.prefs.timeOut) s) => hs.noStray_iff) fun _ _ h => h
  exact hrun.state hstart

/-- A server that may refuse the handshake, and says nothing. -/
def mute (handshake : Bool) : Os Unit where
  openCall c _ := (.done (match c with | .sslConnect _ => handshake | _ => true), ())
  close _ := (0, ())
  sslShutdown _ := ()
  sslSet _ := true
  getFlags _ := (none, ())
  setFlags _ _ := (true, ())
  select _ _ := (.timedOut, ())
  recv _ := (none, ())
  sslRead _ := ((none, .none), ())
  write msg _ := (Int32.ofNat msg.length, ())
  sslWrite msg _ := (Int32.ofNat msg.length, ())
  strerror _ := []

/-- An account with SSL. -/
def jane : Account :=
  ⟨bytes "host", bytes "jane", bytes "secret", 995, some ⟨.pop3, protocolPop3 ||| sslC, some 0⟩, some 0⟩

/-- The sockets before they are used. -/
def unused : World (Net (Unit × List Mark)) := World.new ⟨((), []), fun _ => ⟨0, none, false⟩⟩

/-- The marks of a run over the account. -/
def janeMarks (handshake : Bool) : List Mark :=
  (exec (checkAccounts (watched (fun _ => mute handshake) 1) smallMail [jane] 0) unused).2.wire.net.os.2

/-- A handshake that fails leaves the alarm pending. -/
theorem handshake_leaks : ¬ NoStray (janeMarks false) := fun h =>
  absurd (h _ (List.prefix_refl _) (by decide)) (by decide)

/-- One that succeeds does not. -/
theorem checkAccounts_noStray_iff_handshake : NoStray (janeMarks true) := by
  have hstart : unused.wire.net.os.2 = [] := rfl
  refine (checkAccounts_noStray_iff (fun _ => mute true) 1 smallMail [jane] 0 hstart).2 (Or.inr ?_)
  show ∀ m ∈ janeMarks true, m.isLeak = false
  decide

end Mailfilter
