import Mailfilter.Pop3

/-!
# What a scan examines and deletes

The trace that `Pop3.scan` leaves, for every connection.

* `Exam`, the examination of one message: the commands, the replies, the header, the verdict;
* `Scanned`: the messages from `i` on were examined in order, with the weeder passed from one to the
  next, and then at most the lookup of one more message failed;
* `examine_spec` and `scanFrom_spec`: one round of the loop, and all of them;
* `scan_deletes`: the messages that are deleted are those that the weeder condemned.
-/

namespace Mailfilter

open Pop3 Program Rfc822

/-! ### Examinations -/

/-- A message with this verdict is deleted, and that is not only simulated. -/
def Deleted (env : Env) (verdict : ℤ) : Prop := verdict = 1 ∧ env.prefs.testMode = false

instance (env : Env) (verdict : ℤ) : Decidable (Deleted env verdict) :=
  inferInstanceAs (Decidable (_ ∧ _))

/-- The examination of a message. -/
structure Exam where
  number : ℕ
  listRet : Int32
  listReply : Bytes
  topRet : Int32
  topReply : Bytes
  before : Weeder
  header : Header
  verdict : ℤ

namespace Exam

variable (env : Env) (e : Exam)

/-- The commands, the replies and the call of the weeder. -/
def lookup : List Event :=
  [.write (listCommand (decimal e.number)), .read false e.listRet (some e.listReply),
    .write (topCommand (decimal e.number)), .read true e.topRet (some e.topReply),
    .weed e.before e.header e.verdict]

/-- Everything that happens about the message. -/
def events : List Event :=
  e.lookup ++ if Deleted env e.verdict then [.write (deleCommand e.number)] else []

/-- The state of the weeder afterwards. -/
def after : Weeder := (isWeed env.prefs env.regexec e.header e.before).2.1

/-- The replies were read without an error, the header is what was parsed from them, and the verdict
is the weeder's. -/
structure Sound : Prop where
  list_ok : 0 < e.listRet ∧ firstByte e.listReply = chr '+'
  top_ok : 0 < e.topRet ∧ firstByte e.topReply = chr '+'
  parsed : rfcparse env.prefs (Header.new (atoi (cstr (substrAfterLast (chr ' ') e.listReply))))
    (rfclex (substrAfterFirst (chr '\n') e.topReply)) = .ok e.header
  judged : (isWeed env.prefs env.regexec e.header e.before).1 = e.verdict

end Exam

/-- The weeder is passed from one examination to the next. -/
def Threaded (env : Env) : Weeder → List Exam → Weeder → Prop
  | w, [], w' => w = w'
  | w, e :: es, w' => e.before = w ∧ Threaded env (e.after env) es w'

/-- What is left of a lookup that failed: commands about message `k`, and replies. -/
def FailedAt (k : ℕ) (tail : List Event) : Prop :=
  ∀ ev ∈ tail, ev = .write (listCommand (decimal k)) ∨ ev = .write (topCommand (decimal k)) ∨
    ∃ header ret reply, ev = .read header ret reply

/-- The messages from `i` on were examined, at most `k` of them, and the next one perhaps failed. -/
structure Scanned (env : Env) (i k : ℕ) (t : List Event) (w : Weeder) (exams : List Exam)
    (tail t' : List Event) (w' : Weeder) : Prop where
  trace : t' = t ++ exams.flatMap (Exam.events env) ++ tail
  numbers : exams.map Exam.number = List.range' i exams.length
  length_le : exams.length ≤ k
  sound : ∀ e ∈ exams, e.Sound env
  threaded : Threaded env w exams w'
  failed : FailedAt (i + exams.length) tail

/-- What a command leaves that fails. -/
def Lost (msg : Bytes) (tail : List Event) : Prop :=
  ∀ ev ∈ tail, ev = .write msg ∨ ∃ header ret reply, ev = .read header ret reply

theorem Lost.write (msg : Bytes) : Lost msg [.write msg] := fun _ hev =>
  Or.inl (List.mem_singleton.1 hev)

theorem Lost.read (msg : Bytes) (header : Bool) (ret : Int32) (reply : Option Bytes) :
    Lost msg [.write msg, .read header ret reply] := fun ev hev => by
  rcases List.mem_pair.1 hev with rfl | rfl
  · exact Or.inl rfl
  · exact Or.inr ⟨header, ret, reply, rfl⟩

/-! ### The calls that a protocol makes -/

section Calls

variable {σ : Type} {conn : Connection σ} {env : Env} {t : List Event} {w : Weeder}

/-- The trace and the weeder are known. -/
def At (t : List Event) (w : Weeder) (s : World σ) : Prop := s.trace = t ∧ s.weeder = w

/-- So is the reply. -/
def Replied (conn : Connection σ) (t : List Event) (w : Weeder) (r : Bytes) (s : World σ) : Prop :=
  At t w s ∧ conn.cReply s.wire.net = some r

theorem onWire_spec {α : Type} (p : Program Halt (Wire σ) α) :
    Triple (At t w) (onWire p) (fun _ => At t w) (fun _ => At t w) :=
  Triple.of_exec fun s hs => by
    rw [exec_onWire]
    rcases exec p s.wire with ⟨_ | _, _⟩ <;> exact hs

theorem cWrite_spec (msg : Bytes) :
    Triple (At t w) (cWrite conn msg) (fun _ => At (t ++ [.write msg]) w)
      (fun _ => At (t ++ [.write msg]) w) :=
  Triple.bind (R := fun _ => At (t ++ [.write msg]) w)
    (Triple.modify fun _ hs => ⟨by rw [← hs.1]; rfl, hs.2⟩) fun _ => onWire_spec _

theorem cRead_spec (header : Bool) :
    Triple (At t w) (cRead conn header)
      (fun ret s => At (t ++ [.read header ret (conn.cReply s.wire.net)]) w s) (fun _ => At t w) :=
  (onWire_spec _).bind fun ret => Triple.bind (R := fun _ s =>
      At (t ++ [.read header ret (conn.cReply s.wire.net)]) w s)
    (Triple.modify fun _ hs => ⟨by rw [← hs.1]; rfl, hs.2⟩) fun _ => Triple.pure fun _ hs => hs

theorem reply_spec {r : Bytes} :
    Triple (Replied conn t w r) (reply conn) (fun r' s => r' = r ∧ Replied conn t w r s)
      (fun _ _ => False) := by
  refine Triple.bind (R := fun o s => o = some r ∧ Replied conn t w r s)
    (Triple.gets fun s hs => ⟨hs.2, hs⟩) fun o => Triple.of_fact fun ho => ?_
  subst ho
  exact Triple.pure fun s hs => ⟨rfl, hs⟩

theorem log_spec {r : Bytes} {call : LogCall} :
    Triple (Replied conn t w r) (log call) (fun _ => Replied conn t w r) (fun _ _ => False) :=
  Triple.modify fun _ hs => hs

theorem log_at {call : LogCall} :
    Triple (At t w) (log call : Run σ Unit) (fun _ => At t w) (fun _ _ => False) :=
  Triple.modify fun _ hs => hs

/-- A good reply: the read succeeded, and the reply begins with a `+`. -/
def GoodReply (ret : Int32) (r : Option Bytes) : Prop := 0 < ret ∧ r.map firstByte = some (chr '+')

/-- What `status` leaves when it returns `n`: the number of a good reply, or −1 without one. -/
def StatRead (n : Int32) (stat : List Event) : Prop :=
  (stat = [.write statCommand] ∧ n = -1) ∨
    ∃ ret o, stat = [.write statCommand, .read false ret o] ∧
      (∀ r, o = some r → GoodReply ret o → n = atoi (secondWord (cstr r))) ∧
      (¬ GoodReply ret o → n = -1)

theorem StatRead.lost {n : Int32} {stat : List Event} (h : StatRead n stat) : Lost statCommand stat := by
  rcases h with ⟨rfl, -⟩ | ⟨ret, o, rfl, -, -⟩
  · exact Lost.write statCommand
  · exact Lost.read statCommand false ret o

/-- The macros: true after a good reply, false after a read of another. -/
theorem replyOk_spec (header : Bool) :
    Triple (At t w) (replyOk conn header)
      (fun b s => if b then ∃ ret r, (0 < ret ∧ firstByte r = chr '+') ∧
          Replied conn (t ++ [.read header ret (some r)]) w r s
        else ∃ ret r, ¬ GoodReply ret r ∧ At (t ++ [.read header ret r]) w s)
      (fun _ => At t w) := by
  refine (cRead_spec header).bind fun ret => ?_
  split
  case isFalse hret => exact Triple.pure fun s hs => ⟨ret, _, fun h => hret h.1, hs⟩
  case isTrue hret =>
    refine Triple.bind (R := fun o s => At (t ++ [.read header ret o]) w s ∧
        conn.cReply s.wire.net = o) (Triple.gets fun s hs => ⟨hs, rfl⟩) fun o => ?_
    cases o with
    | none => exact Triple.pure fun s hs => ⟨ret, none, (fun h => nomatch h.2), hs.1⟩
    | some r =>
      refine Triple.pure fun s hs => ?_
      by_cases hr : firstByte r = chr '+'
      · simpa only [hr, decide_true, if_true] using ⟨ret, r, ⟨hret, hr⟩, hs⟩
      · have hbad : ¬ GoodReply ret (some r) := fun h => hr (Option.some.inj h.2)
        simpa only [hr, decide_false, Bool.false_eq_true, if_false] using ⟨ret, some r, hbad, hs.1⟩

/-- A command that is answered well, or one that fails and leaves nothing but itself and a read. -/
theorem commandOk_spec (header : Bool) (msg : Bytes) :
    Triple (At t w) (commandOk conn header msg)
      (fun b s => if b then ∃ ret r, (0 < ret ∧ firstByte r = chr '+') ∧
          Replied conn (t ++ [.write msg, .read header ret (some r)]) w r s
        else ∃ tail, Lost msg tail ∧ At (t ++ tail) w s)
      (fun _ s => ∃ tail, Lost msg tail ∧ At (t ++ tail) w s) := by
  refine Triple.bind (R := fun _ => At (t ++ [.write msg]) w)
    ((cWrite_spec msg).errors fun _ s hs => ⟨_, Lost.write msg, hs⟩) fun sent => ?_
  split
  · exact Triple.pure fun s hs => ⟨_, Lost.write msg, hs⟩
  · refine (replyOk_spec header).conseq (fun _ h => h) (fun b s hs => ?_)
      fun _ s hs => ⟨_, Lost.write msg, hs⟩
    cases b with
    | true =>
      obtain ⟨ret, r, hok, hs⟩ := hs
      rw [List.append_assoc] at hs
      exact ⟨ret, r, hok, hs⟩
    | false =>
      obtain ⟨ret, r, -, hs⟩ := hs
      rw [List.append_assoc] at hs
      exact ⟨_, Lost.read msg header ret r, hs⟩

theorem showHeader_spec {r : Bytes} :
    Triple (Replied conn t w r) (showHeader conn env) (fun _ => Replied conn t w r)
      (fun _ _ => False) := by
  unfold showHeader
  split
  case isFalse => exact Triple.pure fun _ hs => hs
  case isTrue =>
    refine reply_spec.bind fun r' => Triple.of_fact fun _ => ?_
    refine Triple.bind (R := fun _ => Replied conn t w r) (Triple.of_exec fun s hs => ?_) fun b => ?_
    · obtain ⟨b, file, hrun⟩ := exec_printHeader env (cstr r') s
      rw [hrun]
      exact hs
    · split
      · exact log_spec
      · exact Triple.pure fun _ hs => hs

/-- The weeder decides, and the message is deleted if it is condemned. -/
theorem dispose_spec (i : ℕ) (hdr : Header) :
    let verdict := (isWeed env.prefs env.regexec hdr w).1
    let t' := t ++ [.weed w hdr verdict] ++
      if Deleted env verdict then [.write (deleCommand i)] else []
    Triple (At t w) (dispose conn env i hdr)
      (fun _ => At t' (isWeed env.prefs env.regexec hdr w).2.1)
      (fun _ => At t' (isWeed env.prefs env.regexec hdr w).2.1) := by
  intro verdict t'
  refine Triple.bind (R := fun v s => v = verdict ∧
    At (t ++ [.weed w hdr verdict]) (isWeed env.prefs env.regexec hdr w).2.1 s)
    (Triple.of_exec fun s hs => ?_) fun v => Triple.of_fact fun hv => ?_
  · obtain ⟨rfl, rfl⟩ := hs
    exact ⟨rfl, rfl, rfl⟩
  · subst hv
    split
    case isFalse hne => exact Triple.pure fun s hs => by simpa [t', Deleted, hne] using hs
    case isTrue heq =>
      refine Triple.bind (R := fun _ => At t' (isWeed env.prefs env.regexec hdr w).2.1) ?_
        fun _ => Triple.pure fun _ hs => hs
      unfold removeMsg
      split
      case isTrue htest =>
        refine Triple.bind (R := fun _ => At t' (isWeed env.prefs env.regexec hdr w).2.1) ?_
          fun _ => Triple.pure fun _ hs => hs
        refine log_at.total.weaken fun s hs => ?_
        simpa [t', Deleted, htest] using hs
      case isFalse htest =>
        refine Triple.bind (R := fun _ => At t' (isWeed env.prefs env.regexec hdr w).2.1) ?_
          fun _ => Triple.pure fun _ hs => hs
        have ht : t' = t ++ [.weed w hdr verdict] ++ [.write (deleCommand i)] := by
          simp only [t', if_pos (show Deleted env verdict from ⟨heq, Bool.eq_false_iff.2 htest⟩)]
        rw [ht]
        exact cWrite_spec _

/-! ### The loop -/

/-- How a round ends that does not come to the weeder. -/
def Failed (i : ℕ) (t : List Event) (w : Weeder) (s : World σ) : Prop :=
  ∃ tail, FailedAt i tail ∧ At (t ++ tail) w s

/-- How a round ends that does. -/
def Examined (env : Env) (i : ℕ) (t : List Event) (w : Weeder) (s : World σ) : Prop :=
  ∃ e : Exam, (e.number = i ∧ e.before = w ∧ e.Sound env) ∧ At (t ++ e.events env) (e.after env) s

/-- How a round ends that returns. -/
def RoundEnds (env : Env) (i : ℕ) (t : List Event) (w : Weeder) (result : ℤ) (s : World σ) : Prop :=
  (result = 0 ∧ Examined env i t w s) ∨ (result < 0 ∧ Failed i t w s)

/-- The commands about a message, when both are answered. -/
def answered (i : ℕ) (lret : Int32) (lr : Bytes) (tret : Int32) (tr : Bytes) : List Event :=
  [.write (listCommand (decimal i)), .read false lret (some lr),
    .write (topCommand (decimal i)), .read true tret (some tr)]

/-- A round that reports an error. -/
theorem fail_spec {i : ℕ} (call : LogCall) :
    Triple (Failed i t w) (do log call; pure genFailureFlag : Run σ ℤ)
      (RoundEnds env i t w)
      (fun _ s => Examined env i t w s ∨ Failed i t w s) :=
  Triple.bind (R := fun _ => Failed i t w) (Triple.modify fun _ hs => hs) fun _ =>
    Triple.pure fun _ hs => Or.inr ⟨by decide, hs⟩

/-- The round from the reply to `TOP` on. -/
theorem judge_spec {i : ℕ} {lret tret : Int32} {lr tr : Bytes}
    (hlok : 0 < lret ∧ firstByte lr = chr '+') (htok : 0 < tret ∧ firstByte tr = chr '+') :
    Triple (Replied conn (t ++ answered i lret lr tret tr) w tr)
      (judge conn env i (decimal i) (atoi (cstr (substrAfterLast (chr ' ') lr))))
      (RoundEnds env i t w)
      (fun _ s => Examined env i t w s ∨ Failed i t w s) := by
  have hfailed : ∀ s : World σ, At (t ++ answered i lret lr tret tr) w s → Failed i t w s :=
    fun s hs => ⟨_, by simp [answered, FailedAt], hs⟩
  refine showHeader_spec.total.bind fun _ => ?_
  refine reply_spec.total.bind fun tr' => Triple.of_fact fun htr => ?_
  subst htr
  simp only [invokeMsgParser]
  rcases hparse : rfcparse env.prefs (Header.new (atoi (cstr (substrAfterLast (chr ' ') lr))))
    (rfclex (substrAfterFirst (chr '\n') tr')) with (⟨e⟩ | h) | hdr
  · simp only [show memFailureFlag < 0 from by decide, if_true]
    refine Triple.bind (R := fun _ => Failed i t w) ?_ fun _ => fail_spec _
    have hlogs : Preserves (Failed i t w) (e.printed.forM log : Run σ Unit) :=
      Preserves.forM fun call _ => Preserves.modify fun _ hs => hs
    exact (Triple.errors hlogs fun _ _ h => Or.inr h).weaken fun s hs => hfailed s hs.1
  · exact Triple.throw fun s hs => Or.inr (hfailed s hs.1)
  · refine Triple.bind (R := fun _ => At (t ++ answered i lret lr tret tr') w)
      (Triple.pure fun s hs => hs.1) fun _ => ?_
    let e : Exam := ⟨i, lret, lr, tret, tr', w, hdr, (isWeed env.prefs env.regexec hdr w).1⟩
    have hend : ∀ s : World σ, At (t ++ answered i lret lr tret tr' ++ [.weed w hdr e.verdict] ++
          if Deleted env e.verdict then [.write (deleCommand i)] else [])
        (e.after env) s → Examined env i t w s := by
      intro s hs
      refine ⟨e, ⟨rfl, rfl, hlok, htok, hparse, rfl⟩, ?_⟩
      simpa [e, Exam.events, Exam.lookup, answered] using hs
    exact Triple.bind (R := fun _ => Examined env i t w)
      ((dispose_spec i hdr).conseq (fun _ h => h) (fun _ s hs => hend s hs)
        fun _ s hs => Or.inl (hend s hs))
      fun _ => Triple.pure fun _ hs => Or.inl ⟨rfl, hs⟩

/-- One round: the message is examined, or the lookup fails. -/
theorem examine_spec (i : ℕ) :
    Triple (At t w) (examine conn env i (decimal i))
      (RoundEnds env i t w)
      (fun _ s => Examined env i t w s ∨ Failed i t w s) := by
  have hlist : ∀ tail, Lost (listCommand (decimal i)) tail → FailedAt i tail :=
    fun tail h ev hev => (h ev hev).imp id Or.inr
  have htop : ∀ ret r tail, Lost (topCommand (decimal i)) tail →
      FailedAt i ([.write (listCommand (decimal i)), .read false ret (some r)] ++ tail) := by
    intro ret r tail h ev hev
    rcases List.mem_append.1 hev with hev | hev
    · exact hlist _ (Lost.read _ _ _ _) ev hev
    · exact Or.inr (h ev hev)
  refine Triple.bind (R := fun b s => if b then ∃ ret r, (0 < ret ∧ firstByte r = chr '+') ∧
      Replied conn (t ++ [.write (listCommand (decimal i)), .read false ret (some r)]) w r s
    else Failed i t w s) ((commandOk_spec false _).conseq (fun _ h => h) (fun b s hs => ?_)
      fun _ s ⟨tail, hl, hs⟩ => Or.inr ⟨tail, hlist tail hl, hs⟩) fun b => ?_
  · cases b with
    | true => exact hs
    | false =>
      obtain ⟨tail, hl, hs⟩ := hs
      exact ⟨tail, hlist tail hl, hs⟩
  cases b with
  | false => exact fail_spec _
  | true =>
    refine Triple.of_exists fun lret => Triple.of_exists fun lr => Triple.of_fact fun hlok => ?_
    refine reply_spec.total.bind
      fun lr' => Triple.of_fact fun hlr => ?_
    subst hlr
    refine Triple.bind (R := fun b s => if b then ∃ ret r, (0 < ret ∧ firstByte r = chr '+') ∧
        Replied conn (t ++ answered i lret lr' ret r) w r s
      else Failed i t w s) (((commandOk_spec true _).weaken fun _ h => h.1).conseq (fun _ h => h)
        (fun b s hs => ?_) fun _ s ⟨tail, hl, hs⟩ => Or.inr ⟨_, htop lret lr' tail hl, ?_⟩)
      fun b => ?_
    · cases b with
      | true =>
        obtain ⟨ret, r, hok, hs⟩ := hs
        rw [List.append_assoc] at hs
        exact ⟨ret, r, hok, hs⟩
      | false =>
        obtain ⟨tail, hl, hs⟩ := hs
        rw [List.append_assoc] at hs
        exact ⟨_, htop lret lr' tail hl, hs⟩
    · rwa [List.append_assoc] at hs
    cases b with
    | false => exact fail_spec _
    | true =>
      refine Triple.of_exists fun tret => Triple.of_exists fun tr => Triple.of_fact fun htok => ?_
      exact judge_spec hlok htok

theorem Failed.of_at {i : ℕ} {s : World σ} (h : At t w s) : Failed i t w s :=
  ⟨[], (fun _ hev => nomatch hev), by rwa [List.append_nil]⟩

theorem Failed.scanned {i k : ℕ} {s : World σ} (h : Failed i t w s) :
    ∃ tail, Scanned env i k t w [] tail s.trace s.weeder := by
  obtain ⟨tail, hfail, htrace, hweed⟩ := h
  exact ⟨tail, by simp [htrace], rfl, Nat.zero_le k, fun _ he => (nomatch he), hweed.symm, hfail⟩

theorem Scanned.cons {e : Exam} {i k : ℕ} {exams : List Exam} {tail t' : List Event} {w' : Weeder}
    (he : e.number = i ∧ e.before = w ∧ e.Sound env)
    (h : Scanned env (i + 1) k (t ++ e.events env) (e.after env) exams tail t' w') :
    Scanned env i (k + 1) t w (e :: exams) tail t' w' where
  trace := by simp [h.trace]
  numbers := by rw [List.map_cons, h.numbers, he.1, List.length_cons, List.range'_succ]
  length_le := Nat.succ_le_succ h.length_le
  sound := List.forall_mem_cons.2 ⟨he.2.2, h.sound⟩
  threaded := ⟨he.2.1, h.threaded⟩
  failed := by simpa [Nat.add_comm, Nat.add_left_comm] using h.failed

/-- All rounds. -/
theorem scanFrom_spec (k i : ℕ) :
    Triple (At t w) (scanFrom conn env k i [])
      (fun result s => ∃ exams tail, Scanned env i k t w exams tail s.trace s.weeder ∧
        (result = 0 → exams.length = k ∧ tail = []))
      (fun _ s => ∃ exams tail, Scanned env i k t w exams tail s.trace s.weeder) := by
  induction k generalizing i t w with
  | zero =>
    refine Triple.pure fun s hs => ⟨[], [], ?_, fun _ => ⟨rfl, rfl⟩⟩
    exact ⟨by simp [hs.1], rfl, le_rfl, fun _ he => (nomatch he), hs.2.symm, fun _ hev => nomatch hev⟩
  | succ k ih =>
    -- what the rounds after this one did, seen from before it
    have hcons : ∀ {e : Exam} {exams : List Exam} {tail : List Event} (s : World σ),
        (e.number = i ∧ e.before = w ∧ e.Sound env) →
        Scanned env (i + 1) k (t ++ e.events env) (e.after env) exams tail s.trace s.weeder →
        Scanned env i (k + 1) t w (e :: exams) tail s.trace s.weeder := fun s he h => h.cons he
    have hone : ∀ s : World σ, Examined env i t w s →
        ∃ exams tail, Scanned env i (k + 1) t w exams tail s.trace s.weeder := by
      rintro s ⟨e, he, hs⟩
      obtain ⟨tail, h⟩ := (Failed.of_at hs).scanned (i := i + 1) (k := k)
      exact ⟨_, _, hcons s he h⟩
    refine Triple.bind (R := RoundEnds env i t w) ((examine_spec i).errors
      fun _ s hs => hs.elim (hone s) fun h => ⟨_, h.scanned⟩) fun result => ?_
    split
    case isTrue hneg =>
      refine Triple.pure fun s hs => ?_
      rcases hs with ⟨rfl, -⟩ | ⟨-, hfail⟩
      · exact absurd hneg (lt_irrefl 0)
      · obtain ⟨tail, h⟩ := hfail.scanned
        exact ⟨_, _, h, fun h0 => absurd (h0 ▸ hneg) (lt_irrefl 0)⟩
    case isFalse hneg =>
      have hexam : ∀ s : World σ, RoundEnds env i t w result s → Examined env i t w s :=
        fun s hs => hs.elim And.right fun h => absurd h.1 hneg
      split
      case isTrue => exact Triple.throw fun s hs => hone s (hexam s hs)
      case isFalse =>
        have hrest : Triple (Examined env i t w) (scanFrom conn env k (i + 1) [])
            (fun result s => ∃ exams tail, Scanned env i (k + 1) t w exams tail s.trace s.weeder ∧
              (result = 0 → exams.length = k + 1 ∧ tail = []))
            (fun _ s => ∃ exams tail, Scanned env i (k + 1) t w exams tail s.trace s.weeder) := by
          refine Triple.of_exists fun e => Triple.of_fact fun he => ?_
          refine (ih (i + 1)).conseq (fun _ h => h) (fun result s hs => ?_) fun _ s hs => ?_
          · obtain ⟨exams, tail, h, hzero⟩ := hs
            refine ⟨_, _, hcons s he h, fun h0 => ?_⟩
            rw [List.length_cons, (hzero h0).1]
            exact ⟨rfl, (hzero h0).2⟩
          · obtain ⟨exams, tail, h⟩ := hs
            exact ⟨_, _, hcons s he h⟩
        exact hrest.weaken hexam

/-- `STAT` is written, and if it can be a reply is read. -/
theorem status_reads :
    Triple (At t w) (status conn) (fun n s => ∃ stat, StatRead n stat ∧ At (t ++ stat) w s)
      (fun _ => At (t ++ [.write statCommand]) w) := by
  refine (cWrite_spec statCommand).bind fun sent => ?_
  split
  · exact Triple.pure fun s hs => ⟨_, Or.inl ⟨rfl, rfl⟩, hs⟩
  · refine (replyOk_spec false).bind fun b => ?_
    cases b with
    | false =>
      refine Triple.pure fun s hs => ?_
      obtain ⟨ret, o, hbad, hs⟩ := hs
      rw [List.append_assoc] at hs
      exact ⟨_, Or.inr ⟨ret, o, rfl, fun r _ hgood => absurd hgood hbad, fun _ => rfl⟩, hs⟩
    | true =>
      refine Triple.of_exists fun ret => Triple.of_exists fun r => Triple.of_fact fun hgood => ?_
      refine reply_spec.total.bind fun r' => Triple.of_fact fun hr' => ?_
      subst hr'
      refine Triple.pure fun s hs => ?_
      have hat := hs.1
      rw [List.append_assoc] at hat
      refine ⟨_, Or.inr ⟨ret, some r', rfl, fun r hr _ => ?_, fun hbad => ?_⟩, hat⟩
      · rw [Option.some.inj hr]
      · exact absurd ⟨hgood.1, congrArg some hgood.2⟩ hbad

/-- A scan, from the number that `status` returns. -/
theorem scan_scanned {n : Int32} {s s₁ : World σ} (hstat : exec (status conn) s = (.ok n, s₁)) :
    ∃ exams tail, Scanned env 1 n.toInt.toNat s₁.trace s₁.weeder exams tail
        (exec (scan conn env) s).2.trace (exec (scan conn env) s).2.weeder ∧
      ((exec (scan conn env) s).1 = .ok 0 → exams.length = n.toInt.toNat ∧ tail = []) := by
  unfold scan
  rw [exec_bind, hstat]
  dsimp only
  split
  case isTrue hneg =>
    have hn : n.toInt.toNat = 0 := by
      have := Int32.lt_iff_toInt_lt.1 hneg
      simp only [Int32.toInt_zero] at this
      omega
    have htrace : s₁.trace = s₁.trace ++ [].flatMap (Exam.events env) ++ [] := by simp
    exact ⟨[], [], ⟨htrace, rfl, Nat.zero_le _, fun _ he => (nomatch he), rfl,
      fun _ hev => nomatch hev⟩, fun _ => ⟨hn.symm, rfl⟩⟩
  case isFalse =>
    have hs₁ : At s₁.trace s₁.weeder s₁ := ⟨rfl, rfl⟩
    have h := (@scanFrom_spec σ conn env s₁.trace s₁.weeder n.toInt.toNat 1).exec hs₁
    rcases hrun : exec (scanFrom conn env n.toInt.toNat 1 []) s₁ with ⟨e | result, s₂⟩ <;>
      rw [hrun] at h
    · obtain ⟨exams, tail, h⟩ := h
      exact ⟨exams, tail, h, fun h0 => nomatch h0⟩
    · obtain ⟨exams, tail, h, hzero⟩ := h
      exact ⟨exams, tail, h, fun h0 => hzero (Except.ok.inj h0)⟩

end Calls

/-! ### The messages that are deleted -/

/-- Is it a `DELE` command? -/
def isDele (msg : Bytes) : Bool := (msg.take 4).map toupper = bytes "DELE"

/-- The `DELE` commands that were handed to `c_write`. -/
def deletions (events : List Event) : List Bytes :=
  events.filterMap fun
    | .write msg => if isDele msg then some msg else none
    | _ => none

theorem deletions_append (evs evs' : List Event) :
    deletions (evs ++ evs') = deletions evs ++ deletions evs' :=
  List.filterMap_append

theorem deletions_of_lost {msg : Bytes} (hmsg : isDele msg = false) {tail : List Event}
    (h : Lost msg tail) : deletions tail = [] := by
  refine List.filterMap_eq_nil_iff.2 fun ev hev => ?_
  rcases h ev hev with rfl | ⟨_, _, _, rfl⟩
  · simp [hmsg]
  · rfl

theorem isDele_listCommand (msgNo : Bytes) : isDele (listCommand msgNo) = false := rfl

theorem isDele_topCommand (msgNo : Bytes) : isDele (topCommand msgNo) = false := rfl

theorem isDele_deleCommand (num : ℕ) : isDele (deleCommand num) = true := rfl

theorem deletions_of_failedAt {k : ℕ} {tail : List Event} (h : FailedAt k tail) :
    deletions tail = [] := by
  refine List.filterMap_eq_nil_iff.2 fun ev hev => ?_
  rcases h ev hev with rfl | rfl | ⟨_, _, _, rfl⟩
  · simp [isDele_listCommand]
  · simp [isDele_topCommand]
  · rfl

theorem deletions_events (env : Env) (e : Exam) :
    deletions (e.events env) = if Deleted env e.verdict then [deleCommand e.number] else [] := by
  rw [Exam.events, deletions_append]
  split_ifs <;> rfl

theorem deletions_exams (env : Env) (exams : List Exam) :
    deletions (exams.flatMap (Exam.events env)) =
      (exams.filter fun e => Deleted env e.verdict).map fun e => deleCommand e.number := by
  induction exams with
  | nil => rfl
  | cons e exams ih =>
    rw [List.flatMap_cons, deletions_append, deletions_events, ih]
    by_cases h : Deleted env e.verdict <;> simp [h]

/-- **Exactly the condemned messages are deleted.**  Whatever the connection does, a scan examines
the messages `1, 2, …` in order, with the weeder passed from one to the next, and hands `DELE` to
`c_write` for those with verdict 1, in order and once each.  If it returns 0 it has examined all
messages that `STAT` counted; else only the lookup of one more message follows. -/
theorem scan_deletes {σ : Type} (conn : Connection σ) (env : Env) (htest : env.prefs.testMode = false)
    {s s₁ s₂ : World σ} {n : Int32} {out : Except Halt ℤ}
    (hstat : exec (status conn) s = (.ok n, s₁)) (hrun : exec (scan conn env) s = (out, s₂)) :
    ∃ stat exams tail,
      s₂.trace = s.trace ++ (stat ++ exams.flatMap (Exam.events env) ++ tail) ∧
      s₁.trace = s.trace ++ stat ∧ StatRead n stat ∧
      exams.map Exam.number = List.range' 1 exams.length ∧ exams.length ≤ n.toInt.toNat ∧
      (∀ e ∈ exams, e.Sound env) ∧ Threaded env s.weeder exams s₂.weeder ∧
      deletions (stat ++ exams.flatMap (Exam.events env) ++ tail) =
        (exams.filter fun e => e.verdict = 1).map (fun e => deleCommand e.number) ∧
      FailedAt (exams.length + 1) tail ∧
      (out = .ok 0 → exams.length = n.toInt.toNat ∧ tail = []) := by
  obtain ⟨exams, tail, h, hzero⟩ := @scan_scanned σ conn env n s s₁ hstat
  rw [hrun] at h hzero
  have hs : At s.trace s.weeder s := ⟨rfl, rfl⟩
  have hs₁ := (@status_reads σ conn s.trace s.weeder).exec hs
  rw [hstat] at hs₁
  obtain ⟨stat, hread, htrace, hweeder⟩ := hs₁
  have hcond : ∀ e : Exam, Deleted env e.verdict ↔ e.verdict = 1 := fun e => by
    simp [Deleted, htest]
  refine ⟨stat, exams, tail, ?_, htrace, hread, h.numbers, h.length_le, h.sound,
    hweeder ▸ h.threaded, ?_, Nat.add_comm 1 _ ▸ h.failed, hzero⟩
  · rw [h.trace, htrace, List.append_assoc, List.append_assoc, List.append_assoc]
  · rw [deletions_append, deletions_append, deletions_of_lost rfl hread.lost,
      deletions_of_failedAt h.failed, deletions_exams]
    simp [hcond]

/-- A connection whose server has prepared its replies. -/
def prepared : Connection (List Bytes × Option Bytes) where
  cOpen _ _ _ _ := pure 0
  cClose := pure 0
  cRead _ := Program.step fun wire => match wire.net.1 with
    | [] => (.ok (-1), wire)
    | r :: rs => (.ok (Int32.ofNat r.length), { wire with net := (rs, some r) })
  cWrite msg := pure (Int32.ofNat msg.length)
  cReply net := net.2

/-- A limit of one byte. -/
def smallMail : Env where
  prefs := (Preferences.new ⟨0, 0⟩ 0).setMaxSizeDeny 1
  regexec _ _ := 1
  openAppend _ _ := true
  md5 _ _ := 0

/-- A mailbox with one message of two bytes, and no header. -/
def oneMessage : World (List Bytes × Option Bytes) where
  wire := ⟨([bytes "+OK 1 2\r\n", bytes "+OK 1 2\r\n", bytes "+OK\r\n"], none), []⟩
  weeder := Weeder.new
  mailboxStatus := 0
  headerFile := ⟨0, false, []⟩
  trace := []

/-- A mailbox with a message of one byte and one of two; the last reply is the one to `DELE`. -/
def smallAndLarge : World (List Bytes × Option Bytes) :=
  { oneMessage with
    wire := ⟨([bytes "+OK 2 3\r\n", bytes "+OK 1 1\r\n", bytes "+OK\r\n", bytes "+OK 2 2\r\n",
      bytes "+OK\r\n", bytes "+OK\r\n"], none), []⟩ }

/-- The first message is kept and the second one deleted. -/
theorem scan_deletes_smallAndLarge :
    ∃ (stat : List Event) (exams : List Exam),
      (exec (scan prepared smallMail) smallAndLarge).2.trace =
        stat ++ exams.flatMap (Exam.events smallMail) ∧ StatRead 2 stat ∧
      exams.map Exam.number = [1, 2] ∧ exams.map (fun e => decide (e.verdict = 1)) = [false, true] ∧
      deletions (exec (scan prepared smallMail) smallAndLarge).2.trace = [deleCommand 2] := by
  have hstat : exec (status prepared) smallAndLarge =
      (.ok 2, (exec (status prepared) smallAndLarge).2) := rfl
  have hresult : (exec (scan prepared smallMail) smallAndLarge).1 = .ok 0 := by decide +kernel
  have hdele : deletions (exec (scan prepared smallMail) smallAndLarge).2.trace = [deleCommand 2] := by
    decide +kernel
  obtain ⟨stat, exams, tail, htrace, -, hread, hnumbers, -, -, -, hdel, -, hzero⟩ :=
    scan_deletes prepared smallMail rfl hstat Prod.mk.eta.symm
  obtain ⟨hlength, rfl⟩ := hzero hresult
  obtain ⟨e, e', rfl⟩ := List.length_eq_two.1 hlength
  obtain ⟨he, he'⟩ : e.number = 1 ∧ e'.number = 2 := by simpa [List.range'] using hnumbers
  rw [show smallAndLarge.trace = [] from rfl, List.nil_append, List.append_nil] at htrace
  rw [List.append_nil] at hdel
  refine ⟨stat, [e, e'], htrace, hread, hnumbers, ?_, hdele⟩
  -- any other verdicts would delete other messages
  rw [htrace, hdel] at hdele
  by_cases hv : e.verdict = 1 <;> by_cases hv' : e'.verdict = 1 <;> simp [hv, hv', he, he'] at hdele ⊢
  exact absurd hdele (by decide)

end Mailfilter
