import Mailfilter.Link
import Mailfilter.Sizes

/-!
# Replies and commands

Does a scan take each reply for the reply to the command before it?

* `Paired`: every reply that was read is the reply to the command written immediately before it;
* `Steady`, `Idle` and `Pending`, the states of a session in which this can be kept up, with one triple
  for each function of the protocol;
* `replies_paired`: it is kept up by a scan, and by a `STAT` after it, in every run in which nothing
  goes wrong on the link; then the headers have the sizes that the server lists;
* `unreadDele_shifts`: the reply to a `DELE`, which is never read, is taken for the next one.
-/

namespace Mailfilter

open Pop3 Program
open Rfc822 (rfcparse_msgSize)

/-! ### Pairing -/

/-- The commands that were written. -/
def written (t : List Event) : List Bytes :=
  t.filterMap fun
    | .write msg => some msg
    | _ => none

/-- Every reply that was read is the reply to the command written immediately before it. -/
def Paired (server : Server) (base : List Bytes) (t : List Event) : Prop :=
  ∀ pre header ret reply post, t = pre ++ .read header ret reply :: post → 0 < ret →
    ∃ before cmd, pre = before ++ [.write cmd] ∧
      reply = some (server.answer (base ++ written before ++ [cmd]))

variable {server : Server} {base : List Bytes} {t : List Event} {l l' : Link} {cmd : Bytes}

@[simp] theorem written_nil : written [] = [] := rfl

theorem written_append (t t' : List Event) : written (t ++ t') = written t ++ written t' :=
  List.filterMap_append

@[simp] theorem written_write (t : List Event) (msg : Bytes) :
    written (t ++ [.write msg]) = written t ++ [msg] :=
  written_append t _

@[simp] theorem written_read (t : List Event) (header : Bool) (ret : Int32) (reply : Option Bytes) :
    written (t ++ [.read header ret reply]) = written t :=
  (written_append t _).trans (List.append_nil _)

@[simp] theorem written_weed (t : List Event) (before : Weeder) (hdr : Header) (verdict : ℤ) :
    written (t ++ [.weed before hdr verdict]) = written t :=
  (written_append t _).trans (List.append_nil _)

/-- One more event: if it is a read, the reply must be the right one. -/
theorem Paired.snoc {e : Event} (h : Paired server base t)
    (he : ∀ header ret reply, e = .read header ret reply → 0 < ret → ∃ before cmd,
      t = before ++ [.write cmd] ∧ reply = some (server.answer (base ++ written before ++ [cmd]))) :
    Paired server base (t ++ [e]) := by
  intro pre header ret reply post heq hret
  rcases List.eq_nil_or_concat post with rfl | ⟨post', e', rfl⟩
  · obtain ⟨rfl, hread⟩ := List.append_inj' heq rfl
    exact he header ret reply (List.singleton_inj.1 hread) hret
  · rw [List.concat_eq_append, ← List.cons_append, ← List.append_assoc] at heq
    exact h pre header ret reply post' (List.append_inj' heq rfl).1 hret

/-! ### The states of a session -/

/-- The link knows the commands, and the replies so far were the right ones, if all was fair. -/
structure Steady (server : Server) (base : List Bytes) (t : List Event) (l : Link) : Prop where
  sent : l.sent = base ++ written t
  paired : l.Fair → Paired server base t

/-- No reply is to come, unless it is that to a `DELE`. -/
def Idle (server : Server) (base : List Bytes) (t : List Event) (l : Link) : Prop :=
  Steady server base t l ∧ (l.Fair → l.unread = [] ∨ l.sent.getLast?.any isDele = true)

/-- The command was written, and its reply is to come. -/
def Pending (server : Server) (base : List Bytes) (cmd : Bytes) (t : List Event) (l : Link) : Prop :=
  Steady server base t l ∧ (∃ before, t = before ++ [.write cmd]) ∧
    (l.Fair → l.unread = server.answer l.sent)

theorem fair_of_write (h : (l.write server cmd).Fair) : l.Fair := h.of_prefix (List.prefix_append ..)

theorem Steady.write (h : Steady server base t l) (cmd : Bytes) :
    Steady server base (t ++ [.write cmd]) (l.write server cmd) where
  sent := by
    show l.sent ++ [cmd] = _
    rw [written_write, h.sent, List.append_assoc]
  paired hfair := (h.paired (fair_of_write hfair)).snoc fun _ _ _ he => nomatch he

theorem Steady.weed (h : Steady server base t l) (before : Weeder) (hdr : Header) (verdict : ℤ) :
    Steady server base (t ++ [.weed before hdr verdict]) l where
  sent := by rw [written_weed, h.sent]
  paired hfair := (h.paired hfair).snoc fun _ _ _ he => nomatch he

/-- What is left of a session after a step that only lets the link remember more. -/
theorem Steady.since (h : Steady server base t l) (hl : l'.Since l.sent l.history) :
    Steady server base t l' where
  sent := hl.1.trans h.sent
  paired hfair := h.paired (hfair.of_prefix hl.2)

/-- A command whose reply is awaited. -/
theorem Idle.write (h : Idle server base t l) (hcmd : Awaited cmd) :
    Pending server base cmd (t ++ [.write cmd]) (l.write server cmd) := by
  refine ⟨h.1.write cmd, ⟨t, rfl⟩, fun hfair => ?_⟩
  have hwrote : (Moment.wrote l.sent.getLast? cmd).Fair :=
    hfair _ (List.mem_append_right _ (List.mem_singleton_self _))
  have hdone : l.unread = [] :=
    (h.2 (fair_of_write hfair)).resolve_right fun hdele => hwrote hdele hcmd
  show l.unread ++ _ = server.answer (l.sent ++ [cmd])
  rw [hdone, List.nil_append]

/-- A `DELE`. -/
theorem Idle.writeDele (h : Idle server base t l) (hcmd : isDele cmd = true) :
    Idle server base (t ++ [.write cmd]) (l.write server cmd) := by
  refine ⟨h.1.write cmd, fun _ => Or.inr ?_⟩
  show (l.sent ++ [cmd]).getLast?.any isDele = true
  rw [List.getLast?_concat]
  exact hcmd

/-- The reply is read. -/
theorem Pending.read (h : Pending server base cmd t l) (hl : l'.Since l.sent l.history) {header : Bool}
    {ret : Int32} {reply : Option Bytes}
    (hread : 0 < ret → l'.Fair → reply = some (server.answer l.sent) ∧ l'.unread = []) :
    Steady server base (t ++ [.read header ret reply]) l' ∧
      (0 < ret → Idle server base (t ++ [.read header ret reply]) l') := by
  have hsteady : Steady server base (t ++ [.read header ret reply]) l' := by
    refine ⟨by rw [written_read, hl.1, h.1.sent], fun hfair => ?_⟩
    refine ((h.1.since hl).paired hfair).snoc fun header' ret' reply' he hret => ?_
    cases he
    obtain ⟨before, rfl⟩ := h.2.1
    refine ⟨before, cmd, rfl, ?_⟩
    rw [(hread hret hfair).1, h.1.sent, written_write, List.append_assoc]
  exact ⟨hsteady, fun hret => ⟨hsteady, fun hfair => Or.inl (hread hret hfair).2⟩⟩

theorem Pending.getLast (h : Pending server base cmd t l) : l.sent.getLast? = some cmd := by
  obtain ⟨before, rfl⟩ := h.2.1
  rw [h.1.sent, written_write, ← List.append_assoc, List.getLast?_concat]

theorem Pending.answer_ne_nil (h : Pending server base cmd t l) : server.answer l.sent ≠ [] := by
  obtain ⟨before, rfl⟩ := h.2.1
  rw [h.1.sent, written_write, ← List.append_assoc]
  exact (server.reply _ cmd).ne_nil

/-! ### The calls of the connection -/

/-- The sockets of a link. -/
abbrev linkConn (server : Server) (timing : Timing) (fuel : ℕ) : Connection (Socket Link) :=
  Socket.connection (linkOs server timing) fuel

/-- The session of the program is in such a state. -/
def On (P : List Event → Link → Prop) (s : World (Socket Link)) : Prop := P s.trace s.wire.net.os

variable {timing : Timing} {fuel : ℕ} {env : Env} {P Q : List Event → Link → Prop}

theorem on_logBlind : LogBlind (On P) := fun _ _ _ hs => hs

theorem cWrite_on {msg : Bytes} (hnul : 0 ∉ msg)
    (hwrite : ∀ t l, P t l → Q (t ++ [.write msg]) (l.write server msg))
    {E : Halt → World (Socket Link) → Prop} :
    Triple (On P) (cWrite (linkConn server timing fuel) msg) (fun _ => On Q) E := by
  refine Triple.bind (R := fun _ s => Q s.trace (s.wire.net.os.write server msg))
    (Triple.modify fun s hs => hwrite _ _ hs) fun _ => ?_
  exact Triple.onPart (R := fun s x => Q s.trace (x.net.os.write server msg))
    (S := fun s _ x => Q s.trace x.net.os) (F := fun _ _ _ => False)
    (fun s => cWrite_link (P := Q s.trace) hnul) (fun _ hs => hs) (fun _ _ _ _ hx => hx)
    fun _ _ _ _ hx => hx.elim

/-- How a call ends that tells whether the reply was read. -/
abbrev Ends (server : Server) (base : List Bytes) (good : Prop) (s : World (Socket Link)) : Prop :=
  On (Steady server base) s ∧ (good → On (Idle server base) s)

theorem cRead_idle : Triple (On (Pending server base cmd))
    (cRead (linkConn server timing fuel) (isTop cmd)) (fun ret => Ends server base (0 < ret))
    (fun _ => On (Steady server base)) := by
  refine Triple.bind (R := fun ret s => ∃ l, Pending server base cmd s.trace l ∧
      s.wire.net.os.Since l.sent l.history ∧ (0 < ret → s.wire.net.os.Fair →
        s.wire.net.readBuffer = some (server.answer l.sent) ∧ s.wire.net.os.unread = []))
    ?_ fun ret => ?_
  · refine Triple.onPart (R := fun s x => Pending server base cmd s.trace s.wire.net.os ∧
          Expecting s.wire.net.os.sent s.wire.net.os.history (server.answer s.wire.net.os.sent) x)
      (fun s => Triple.of_fact fun h => cRead_link h.answer_ne_nil h.getLast fuel)
      (fun s hs => ⟨hs, ⟨rfl, List.prefix_refl _⟩, hs.2.2⟩)
      (fun s ret x hs hx => ⟨_, hs, hx⟩) fun s e x hs hx => hs.1.since hx
  · refine Triple.bind (R := fun _ => Ends server base (0 < ret))
      (Triple.modify fun s hs => ?_) fun _ => Triple.pure fun s hs => hs
    obtain ⟨l, hpending, hsince, hread⟩ := hs
    exact hpending.read hsince hread

theorem replyOk_idle {header : Bool} (hheader : header = isTop cmd) :
    Triple (On (Pending server base cmd)) (replyOk (linkConn server timing fuel) header)
      (fun ok => Ends server base (ok = true)) (fun _ => On (Steady server base)) := by
  subst hheader
  refine cRead_idle.bind fun ret => ?_
  split
  case isFalse => exact Triple.pure fun s hs => ⟨hs.1, fun h => nomatch h⟩
  case isTrue hret =>
    refine Triple.bind (R := fun _ => On (Idle server base)) (Triple.gets fun s hs => hs.2 hret)
      fun o => ?_
    cases o <;> exact Triple.pure fun s hs => ⟨hs.1, fun _ => hs⟩

/-- A command whose reply is awaited, and its reply. -/
theorem commandOk_idle (hcmd : Awaited cmd) (hnul : 0 ∉ cmd) {header : Bool}
    (hheader : header = isTop cmd) :
    Triple (On (Idle server base)) (commandOk (linkConn server timing fuel) header cmd)
      (fun ok => Ends server base (ok = true)) (fun _ => On (Steady server base)) := by
  refine (cWrite_on hnul fun t l h => Idle.write h hcmd).bind fun sent => ?_
  split
  · exact Triple.pure fun s hs => ⟨hs.1, fun h => nomatch h⟩
  · exact replyOk_idle hheader

/-! ### The functions of the protocol -/

theorem zero_not_mem_numbered (i : ℕ) {pre post : Bytes} (hpre : 0 ∉ pre) (hpost : 0 ∉ post) :
    0 ∉ pre ++ decimal i ++ post := by
  simp [hpre, hpost, not_mem_decimal (c := 0) rfl i]

theorem zero_not_mem_listCommand (i : ℕ) : 0 ∉ listCommand (decimal i) :=
  zero_not_mem_numbered i (by decide) (by decide)

theorem zero_not_mem_topCommand (i : ℕ) : 0 ∉ topCommand (decimal i) :=
  zero_not_mem_numbered i (by decide) (by decide)

theorem zero_not_mem_deleCommand (i : ℕ) : 0 ∉ deleCommand i :=
  zero_not_mem_numbered i (by decide) (by decide)

theorem awaited_listCommand (msgNo : Bytes) : Awaited (listCommand msgNo) :=
  ⟨rfl, fun h => absurd (show some (chr 'L') = some (chr 'Q') from congrArg List.head? h) (by decide)⟩

theorem awaited_topCommand (msgNo : Bytes) : Awaited (topCommand msgNo) :=
  ⟨rfl, fun h => absurd (show some (chr 'T') = some (chr 'Q') from congrArg List.head? h) (by decide)⟩

/-- `status`: it has its reply unless the result is negative. -/
theorem status_idle : Triple (On (Idle server base)) (status (linkConn server timing fuel))
    (fun n => Ends server base (¬ n < 0)) (fun _ => On (Steady server base)) := by
  refine (cWrite_on (by decide) fun t l h => Idle.write h (by decide)).bind fun sent => ?_
  split
  · exact Triple.pure fun s hs => ⟨hs.1, fun h => absurd (by decide) h⟩
  · refine (replyOk_idle rfl).bind fun ok => ?_
    cases ok with
    | false => exact Triple.pure fun s hs => ⟨hs.1, fun h => absurd (by decide) h⟩
    | true =>
      refine Triple.bind (R := fun _ => On (Idle server base))
        ((reply_preserves (I := On (Idle server base))).conseq (fun s hs => hs.2 rfl) (fun _ _ hs => hs)
          fun _ _ hs => hs.1) fun r => Triple.pure fun s hs => ⟨hs.1, fun _ => hs⟩

/-- After a `DELE` the reply to it is to come. -/
theorem dispose_idle (i : ℕ) (hdr : Header) :
    Preserves (On (Idle server base)) (dispose (linkConn server timing fuel) env i hdr) := by
  refine Preserves.bind ?_ fun verdict => ?_
  · exact Triple.of_exec fun s hs => ⟨hs.1.weed _ _ _, hs.2⟩
  · refine Preserves.ite (Preserves.bind ?_ fun _ => Preserves.pure _) (Preserves.pure _)
    unfold removeMsg
    refine Preserves.ite ((log_preserves on_logBlind _).bind fun _ => Preserves.pure _)
      (Preserves.bind ?_ fun sent => Preserves.pure _)
    exact cWrite_on (zero_not_mem_deleCommand i) fun t l h => h.writeDele (isDele_deleCommand i)

/-- A round of the loop: the replies are its own, unless it reports an error. -/
theorem examine_idle (i : ℕ) :
    Triple (On (Idle server base)) (examine (linkConn server timing fuel) env i (decimal i))
      (fun result => Ends server base (¬ result < 0)) (fun _ => On (Steady server base)) := by
  -- an error is reported
  have hfail : ∀ (call : LogCall) (good : Prop),
      Triple (Ends server base good) (do log call; pure genFailureFlag : Run (Socket Link) ℤ)
        (fun result => Ends server base (¬ result < 0)) (fun _ => On (Steady server base)) := by
    intro call good
    refine Triple.bind (R := fun _ => On (Steady server base)) (Triple.modify fun s hs => hs.1)
      fun _ => Triple.pure fun s hs => ⟨hs, fun h => absurd (by decide) h⟩
  have hjudge : ∀ size, Triple (On (Idle server base))
      (judge (linkConn server timing fuel) env i (decimal i) size)
      (fun result => Ends server base (¬ result < 0)) (fun _ => On (Steady server base)) :=
    fun size => (judge_preserves on_logBlind (dispose_idle i) (decimal i) size).conseq (fun _ hs => hs)
      (fun _ _ hs => ⟨hs.1, fun _ => hs⟩) fun _ _ hs => hs.1
  refine (commandOk_idle (awaited_listCommand _) (zero_not_mem_listCommand i) rfl).bind fun ok => ?_
  cases ok with
  | false => exact hfail _ _
  | true =>
    refine Triple.bind (R := fun _ => On (Idle server base))
      ((reply_preserves (I := On (Idle server base))).conseq (fun s hs => hs.2 rfl) (fun _ _ hs => hs)
        fun _ _ hs => hs.1) fun r => ?_
    refine (commandOk_idle (awaited_topCommand _) (zero_not_mem_topCommand i) rfl).bind fun ok => ?_
    cases ok with
    | false => exact hfail _ _
    | true => exact (hjudge _).weaken fun s hs => hs.2 rfl

/-- All rounds. -/
theorem scanFrom_idle (k i : ℕ) :
    Triple (On (Idle server base)) (scanFrom (linkConn server timing fuel) env k i [])
      (fun result => Ends server base (¬ result < 0)) (fun _ => On (Steady server base)) := by
  induction k generalizing i with
  | zero => exact Triple.pure fun s hs => ⟨hs.1, fun _ => hs⟩
  | succ k ih =>
    refine (examine_idle i).bind fun result => ?_
    split
    case isTrue => exact Triple.pure fun s hs => hs
    case isFalse hneg =>
      split
      · exact Triple.throw fun s hs => hs.1
      · exact (ih (i + 1)).weaken fun s hs => hs.2 hneg

theorem scan_idle : Triple (On (Idle server base)) (scan (linkConn server timing fuel) env)
    (fun result => Ends server base (¬ result < 0)) (fun _ => On (Steady server base)) := by
  refine status_idle.bind fun n => ?_
  split
  case isTrue =>
    exact Triple.bind (R := fun _ => On (Steady server base)) (Triple.modify fun s hs => hs.1)
      fun _ => Triple.pure fun s hs => ⟨hs, fun h => absurd (by decide) h⟩
  case isFalse hneg => exact (scanFrom_idle _ 1).weaken fun s hs => hs.2 hneg

/-! ### Sizes -/

theorem atoi_listReply {i size : ℕ} (hsize : size < 2 ^ 31) :
    (atoi (cstr (substrAfterLast (chr ' ') (listReply i size)))).toInt = size := by
  have hreply : listReply i size = numbersReply i size none := by
    simp [listReply, numbersReply]
  have hkept : SizeKept size none := fun _ htext => absurd htext (Option.not_mem_none _)
  rw [hreply]
  exact (atoi_size_iff hsize).2 hkept

/-- The reply to `LIST` that an examination has read. -/
theorem Paired.listReply {e : Exam} (h : Paired server base t) (he : e.Sound env)
    (ht : e.events env <:+: t) :
    ∃ cmds, e.listReply = server.answer (cmds ++ [listCommand (decimal e.number)]) := by
  obtain ⟨pre, post, rfl⟩ := ht
  have hread := h (pre ++ [.write (listCommand (decimal e.number))]) false e.listRet (some e.listReply)
    ((e.events env).drop 2 ++ post) (by simp [Exam.events, Exam.lookup]) he.list_ok.1
  obtain ⟨before, cmd, hbefore, hreply⟩ := hread
  obtain ⟨rfl, hcmd⟩ := List.append_inj' hbefore rfl
  cases hcmd
  exact ⟨_, Option.some.inj hreply⟩

/-- The header has the size that the server lists. -/
theorem Exam.Sound.msgSize {e : Exam} (he : e.Sound env) {cmds : List Bytes}
    (hlist : e.listReply = server.answer (cmds ++ [listCommand (decimal e.number)]))
    (hsize : server.size e.number < 2 ^ 31) : e.header.msgSize.toInt = server.size e.number := by
  have hreply : e.listReply = Mailfilter.listReply e.number (server.size e.number) :=
    hlist.trans (server.list _ _ (hlist ▸ he.list_ok.2))
  rw [rfcparse_msgSize he.parsed, hreply]
  exact atoi_listReply hsize

/-! ### Runs -/

/-- Nothing is recorded yet, and nothing is to come from the server. -/
def Synced (s : World (Socket Link)) : Prop := s.trace = [] ∧ s.wire.net.os.unread = []

theorem Synced.idle {s : World (Socket Link)} (hs : Synced s) :
    On (Idle server s.wire.net.os.sent) s := by
  obtain ⟨htrace, hunread⟩ := hs
  have hpaired : Paired server s.wire.net.os.sent s.trace := fun pre _ _ _ _ heq _ => by
    rw [htrace] at heq
    exact absurd heq (by simp)
  exact ⟨⟨by rw [htrace, written_nil, List.append_nil], fun _ => hpaired⟩, fun _ => Or.inl hunread⟩

/-- **Every reply is the reply to the command before it**, in a scan and in a `STAT` that follows it,
for every server, all timings and whatever the weeder decides, if nothing goes wrong on the link.
Then the headers of the messages have the sizes that the server lists for them. -/
theorem replies_paired (server : Server) (timing : Timing) (fuel : ℕ) (env : Env)
    {s s₁ : World (Socket Link)} (hs : Synced s) {out : Except Halt ℤ}
    (hrun : exec (scan (linkConn server timing fuel) env) s = (out, s₁)) :
    (s₁.wire.net.os.Fair → Paired server s.wire.net.os.sent s₁.trace) ∧
    (∀ n s', exec (status (linkConn server timing fuel)) s = (.ok n, s') →
      ∃ exams tail, Scanned env 1 n.toInt.toNat s'.trace s'.weeder exams tail s₁.trace s₁.weeder ∧
        (s₁.wire.net.os.Fair → ∀ e ∈ exams, server.size e.number < 2 ^ 31 →
          e.header.msgSize.toInt = server.size e.number)) ∧
    ∀ result, out = .ok result → 0 ≤ result → ∀ out₂ s₂,
      exec (status (linkConn server timing fuel)) s₁ = (out₂, s₂) →
      s₂.wire.net.os.Fair → Paired server s.wire.net.os.sent s₂.trace := by
  have hscan := (@scan_idle server _ timing fuel env).exec hs.idle
  rw [hrun] at hscan
  have hpaired : s₁.wire.net.os.Fair → Paired server s.wire.net.os.sent s₁.trace := by
    rcases out with e | result
    · exact hscan.paired
    · exact hscan.1.paired
  refine ⟨hpaired, fun n s' hstat => ?_, fun result hout hnonneg out₂ s₂ hstat => ?_⟩
  · obtain ⟨exams, tail, h, -⟩ := @scan_scanned _ _ env _ _ _ hstat
    rw [hrun] at h
    refine ⟨exams, tail, h, fun hfair e he hsize => ?_⟩
    have hevents : e.events env <:+: s₁.trace := by
      have hexam : e.events env <:+: exams.flatMap (Exam.events env) :=
        List.infix_of_mem_flatten (List.mem_map_of_mem he)
      rw [h.trace]
      exact hexam.trans (List.infix_append _ _ _)
    obtain ⟨cmds, hlist⟩ := (hpaired hfair).listReply (h.sound e he) hevents
    exact (h.sound e he).msgSize hlist hsize
  · subst hout
    have hidle := hscan.2 (by omega)
    have hstatus := (@status_idle server _ timing fuel).exec hidle
    rw [hstat] at hstatus
    rcases out₂ with e | n
    · exact hstatus.paired
    · exact hstatus.1.paired

/-! ### A mailbox -/

/-- The number in a command to list a message. -/
def listed (cmd : Bytes) : Bytes := (cmd.drop 5).takeWhile isdigit

/-- The replies of a mailbox with `n` messages of seven bytes. -/
def respond (n : ℕ) (cmd : Bytes) : Bytes :=
  if (bytes "LIST ").isPrefixOf cmd then bytes "+OK " ++ listed cmd ++ bytes " 7" ++ Pop3.crlf
  else if cmd = statCommand then numbersReply n (7 * n) none
  else if isTop cmd then bytes "+OK\r\nA: b\r\n\r\n.\r\n"
  else bytes "+OK\r\n"

theorem respond_reply (n : ℕ) (cmd : Bytes) : Reply (respond n cmd) := by
  unfold respond
  split
  · refine Reply.line _ (Or.inl ⟨bytes " " ++ listed cmd ++ bytes " 7", by simp [bytes]⟩) ?_
    have hdigits : chr '\n' ∉ listed cmd := fun h => absurd (List.mem_takeWhile_imp h) (by decide)
    simpa [hdigits] using (by decide : chr '\n' ∉ bytes "+OK " ∧ chr '\n' ∉ bytes " 7")
  · split
    · have hline : numbersReply n (7 * n) none =
          (bytes "+OK" ++ (bytes " " ++ decimal n ++ bytes " " ++ decimal (7 * n))) ++ Pop3.crlf := by
        simp [numbersReply, bytes]
      rw [hline]
      refine Reply.line _ (Or.inl (List.prefix_append ..)) ?_
      simpa [not_mem_decimal (c := chr '\n') rfl] using
        (by decide : chr '\n' ∉ bytes "+OK" ∧ chr '\n' ∉ bytes " ")
    · split
      · exact Reply.multiline (.of_dropLast (by decide) (by decide) (by decide))
      · exact Reply.line (bytes "+OK") (by decide) (by decide)

theorem respond_listCommand (n i : ℕ) : respond n (listCommand (decimal i)) = listReply i 7 := by
  have hlisted : listed (listCommand (decimal i)) = decimal i := by
    show (decimal i ++ Pop3.crlf).takeWhile isdigit = decimal i
    rw [List.takeWhile_append_of_pos fun c hc => decimal_isdigit hc]
    exact List.append_nil _
  have hlist : (bytes "LIST ").isPrefixOf (listCommand (decimal i)) = true := rfl
  unfold respond
  rw [if_pos hlist, hlisted]
  rw [listReply, show bytes " 7" = bytes " " ++ decimal 7 by decide]
  simp only [List.append_assoc]

/-- Some messages of seven bytes. -/
def mailbox (n : ℕ) : Server where
  answer cmds := respond n (cmds.getLast?.getD [])
  size _ := 7
  reply cmds cmd := by
    rw [List.getLast?_concat]
    exact respond_reply n cmd
  list cmds i _ := by
    rw [List.getLast?_concat]
    exact respond_listCommand n i

theorem mailbox_answer (n : ℕ) (cmds : List Bytes) (cmd : Bytes) :
    (mailbox n).answer (cmds ++ [cmd]) = respond n cmd := by
  show respond n ((cmds ++ [cmd]).getLast?.getD []) = _
  rw [List.getLast?_concat]
  rfl

/-- Before the scan. -/
def ready : World (Socket Link) where
  wire := ⟨⟨⟨[], [], [], 0, false, []⟩, 30, none, false⟩, []⟩
  weeder := Weeder.new
  mailboxStatus := 0
  headerFile := ⟨0, false, []⟩
  trace := []

/-- No limit. -/
def keepAll : Env := { smallMail with prefs := Preferences.new ⟨0, 0⟩ 0 }

/-- Every reply is there when it is asked for. -/
def prompt : Timing := ⟨fun _ => true, fun _ => some 511⟩

/-- The eleventh moment comes before the end of the replies. -/
def late : Timing := ⟨fun _ => true, fun n => if n = 10 then some 4 else if n = 11 then none else some 511⟩

/-- With a limit of one byte the first message is deleted, and the reply to its `DELE` is taken for the
size of the second one. -/
theorem unreadDele_shifts :
    Synced ready ∧ ¬ Paired (mailbox 2) [] (exec (scan (linkConn (mailbox 2) late 20) smallMail) ready).2.trace ∧
      ((exec (scan (linkConn (mailbox 2) late 20) smallMail) ready).2.trace.filterMap fun
        | .weed _ hdr _ => some hdr.msgSize
        | _ => none) = [7, 0] := by
  refine ⟨⟨rfl, rfl⟩, fun h => ?_, by decide +kernel⟩
  obtain ⟨before, cmd, hbefore, hreply⟩ := h
    ((exec (scan (linkConn (mailbox 2) late 20) smallMail) ready).2.trace.take 9) false 5
    (some (bytes "+OK\r\n"))
    ((exec (scan (linkConn (mailbox 2) late 20) smallMail) ready).2.trace.drop 10)
    (by decide +kernel) (by decide)
  have hlast : ((exec (scan (linkConn (mailbox 2) late 20) smallMail) ready).2.trace.take 9).getLast? =
      some (.write (listCommand (decimal 2))) := by decide +kernel
  rw [hbefore, List.getLast?_concat] at hlast
  cases hlast
  rw [mailbox_answer] at hreply
  exact absurd hreply (by decide)

/-- No reply is late; nothing is deleted, or only the last message, after which nothing is asked. -/
theorem replies_paired_mailbox :
    Paired (mailbox 2) [] (exec (scan (linkConn (mailbox 2) prompt 20) keepAll) ready).2.trace ∧
      Paired (mailbox 2) [] (exec (status (linkConn (mailbox 2) prompt 20))
        (exec (scan (linkConn (mailbox 2) prompt 20) keepAll) ready).2).2.trace ∧
      deletions (exec (scan (linkConn (mailbox 1) prompt 20) smallMail) ready).2.trace =
        [deleCommand 1] ∧
      Paired (mailbox 1) [] (exec (scan (linkConn (mailbox 1) prompt 20) smallMail) ready).2.trace := by
  have hout : (exec (scan (linkConn (mailbox 2) prompt 20) keepAll) ready).1 = .ok 0 := by
    decide +kernel
  have hfair : (exec (scan (linkConn (mailbox 2) prompt 20) keepAll) ready).2.wire.net.os.Fair := by
    decide +kernel
  have hfair₂ : (exec (status (linkConn (mailbox 2) prompt 20))
      (exec (scan (linkConn (mailbox 2) prompt 20) keepAll) ready).2).2.wire.net.os.Fair := by
    decide +kernel
  have hfair₁ : (exec (scan (linkConn (mailbox 1) prompt 20) smallMail) ready).2.wire.net.os.Fair := by
    decide +kernel
  obtain ⟨hscan, -, hstat⟩ :=
    replies_paired (mailbox 2) prompt 20 keepAll (s := ready) ⟨rfl, rfl⟩ Prod.mk.eta.symm
  obtain ⟨hdeleted, -, -⟩ :=
    replies_paired (mailbox 1) prompt 20 smallMail (s := ready) ⟨rfl, rfl⟩ Prod.mk.eta.symm
  exact ⟨hscan hfair, hstat 0 hout le_rfl _ _ Prod.mk.eta.symm hfair₂, by decide +kernel,
    hdeleted hfair₁⟩

end Mailfilter
