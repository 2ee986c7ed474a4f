import Mailfilter.DryRun
import Mailfilter.Filtering
import Mailfilter.Status

/-!
# The accounts are sifted

Over connections that deliver every reply, and with servers that look after their maildrops, the
program does what it is for.

* `Mailbox`, an account with its messages, and `siftAll`;
* `checkAccounts_known`: the accounts, one after the other;
* `main_sifts`: after the program has run, every maildrop has the messages that the weeder keeps;
* `promptOs` and `popAnswer`, a system and servers with which this happens.
-/

namespace Mailfilter

open Pop3 Program

variable {σ : Type} {conns : ℕ → Connection σ} {answer : ℕ → List Bytes → Bytes} {bound : ℕ}
  {Shows : Peers → σ → Prop} {env : Env}

/-! ### Accounts -/

/-- An account with its connection, the commands of its login, and its messages. -/
structure Mailbox (env : Env) where
  account : Account
  sock : ℕ
  proto : Protocol
  login : List Bytes
  messages : List (Message env.prefs)

/-- The account is set up, and its server looks after the messages. -/
structure Mailbox.Served (answer : ℕ → List Bytes → Bytes) (bound : ℕ) (b : Mailbox env) : Prop where
  conn : b.account.conn = some b.sock
  proto : b.account.proto = some b.proto
  protoConn : b.proto.conn = some b.sock
  login : loginCommands env b.proto (cstr b.account.usr) (cstr b.account.passwd) (answer b.sock []) =
    some b.login
  serves : Serves (answer b.sock) b.login b.messages bound

/-- The messages that are kept of every account; the weeder goes from one account to the next. -/
def siftAll : Weeder → List (Mailbox env) → List (List (Message env.prefs)) × Weeder
  | w, [] => ([], w)
  | w, b :: boxes =>
    let rest := siftAll (sift w b.messages).2 boxes
    ((sift w b.messages).1 :: rest.1, rest.2)

/-- What the accounts add to the number of messages. -/
def countedAll (answer : ℕ → List Bytes → Bytes) : Weeder → List (Mailbox env) → Int32
  | _, [] => 0
  | w, b :: boxes => counted (answer b.sock) b.login w b.messages +
      countedAll answer (sift w b.messages).2 boxes

/-- The commands that a server was sent. -/
def Peers.sent (v : Peers) (sock : ℕ) : List Bytes := (v sock).elim [] Peer.sent

/-- The maildrops as the servers have them. -/
def maildrops (v : Peers) (boxes : List (Mailbox env)) : List (List (Message env.prefs)) :=
  boxes.map fun b => maildropAfter b.messages (v.sent b.sock)

section Accounts

variable {v : Peers} {w : Weeder} {n : Int32} {E : Halt → World σ → Prop}

variable (T : Transport conns answer bound Shows)

include T

theorem check_known {b : Mailbox env} (hb : b.Served answer bound) (hnone : v b.sock = none) :
    Triple (Known Shows v w n) (b.account.check conns env)
      (fun status s => (env.prefs.returnStatus = false → status = 0) ∧
        ∃ unread, Talk Shows v b.sock (sessionCommands b.login w b.messages) unread
          (sift w b.messages).2 (n + counted (answer b.sock) b.login w b.messages) s) E := by
  unfold Account.check
  simp only [hb.conn, hb.proto, hb.protoConn]
  exact session_known T hb.serves hb.login hnone

/-- **All accounts**, one after the other. -/
theorem checkAccounts_known {boxes : List (Mailbox env)} (hserved : ∀ b ∈ boxes, b.Served answer bound)
    (hsock : (boxes.map Mailbox.sock).Nodup) (hnone : ∀ b ∈ boxes, v b.sock = none) (r : ℤ) :
    Triple (Known Shows v w n) (checkAccounts conns env (boxes.map Mailbox.account) r)
      (fun ret s => (env.prefs.returnStatus = false → ret = r) ∧
        ∃ v', Known Shows v' (siftAll w boxes).2 (n + countedAll answer w boxes) s ∧
        (∀ sock, sock ∉ boxes.map Mailbox.sock → v' sock = v sock) ∧
        maildrops v' boxes = (siftAll w boxes).1) E := by
  induction boxes generalizing v w n r with
  | nil =>
    refine Triple.pure fun s hs => ⟨fun _ => rfl, v, ?_, fun _ _ => rfl, rfl⟩
    rw [countedAll, Int32.add_zero]
    exact hs
  | cons b boxes ih =>
    have hb := hserved b List.mem_cons_self
    obtain ⟨hout, hnodup⟩ := List.nodup_cons.mp hsock
    refine (log_known _).bind fun _ => ?_
    refine (check_known T hb (hnone b List.mem_cons_self)).bind fun status =>
      Triple.of_fact fun hstatus => Triple.of_exists fun unread => ?_
    let p : Peer := ⟨sessionCommands b.login w b.messages, unread⟩
    have hother : ∀ b' ∈ boxes, (v.put b.sock p) b'.sock = none := fun b' hb' => by
      have hne : b'.sock ≠ b.sock := fun h => hout (h ▸ List.mem_map_of_mem hb')
      rw [Peers.put_of_ne _ _ hne]
      exact hnone b' (List.mem_cons_of_mem b hb')
    have hrest (r' : ℤ) (hr' : env.prefs.returnStatus = false → r' = r) :
        Triple (Talk Shows v b.sock (sessionCommands b.login w b.messages) unread
          (sift w b.messages).2 (n + counted (answer b.sock) b.login w b.messages))
          (checkAccounts conns env (boxes.map Mailbox.account) r')
          (fun ret s => (env.prefs.returnStatus = false → ret = r) ∧ ∃ v',
            Known Shows v' (siftAll w (b :: boxes)).2 (n + countedAll answer w (b :: boxes)) s ∧
            (∀ sock, sock ∉ (b :: boxes).map Mailbox.sock → v' sock = v sock) ∧
            maildrops v' (b :: boxes) = (siftAll w (b :: boxes)).1) E := by
      refine (ih (fun b' hb' => hserved b' (List.mem_cons_of_mem b hb')) hnodup hother r').conseq
        (fun _ hs => hs) ?_ fun _ _ h => h
      rintro ret s ⟨hret, v', hknown, hsame, hdrops⟩
      refine ⟨fun h => (hret h).trans (hr' h), v', ?_, fun sock hmem => ?_, ?_⟩
      · rw [countedAll, ← Int32.add_assoc]
        exact hknown
      · rw [List.map_cons, List.mem_cons, not_or] at hmem
        rw [hsame sock hmem.2, Peers.put_of_ne _ _ hmem.1]
      · have hsent : v'.sent b.sock = sessionCommands b.login w b.messages := by
          rw [Peers.sent, hsame _ hout, Peers.put_self]
          rfl
        show maildropAfter b.messages (v'.sent b.sock) :: maildrops v' boxes = _
        rw [hsent, maildropAfter_session (awaited_loginCommands hb.login), hdrops]
        rfl
    refine Triple.ite (fun hne => (log_known _).bind fun _ => hrest (-1) fun h => ?_) fun _ =>
      hrest r fun _ => rfl
    exact absurd (hstatus h) hne

end Accounts

/-! ### The number of messages that are left -/

/-- The last message is deleted: the reply to its `DELE` is then taken for the next one. -/
def lastDeleted : Weeder → List (Message env.prefs) → Bool
  | _, [] => false
  | w, [m] => decide (Deleted env (m.verdict w))
  | w, m :: m' :: ms => lastDeleted (m.after w) (m' :: ms)

/-- In no account the last message is deleted. -/
def LastKept : Weeder → List (Mailbox env) → Prop
  | _, [] => True
  | w, b :: boxes => lastDeleted w b.messages = false ∧ LastKept (sift w b.messages).2 boxes

theorem getLast_commands (pre : List Bytes) (i : ℕ) (w : Weeder) (m : Message env.prefs) :
    (pre ++ m.commands i w).getLast?.any isDele = decide (Deleted env (m.verdict w)) := by
  unfold Message.commands
  split_ifs with h <;> simp [h, isDele_deleCommand, isDele_topCommand]

theorem getLast_scanCommands (pre : List Bytes) (i : ℕ) (w : Weeder) (m : Message env.prefs)
    (ms : List (Message env.prefs)) :
    (pre ++ scanCommands i w (m :: ms)).getLast?.any isDele = lastDeleted w (m :: ms) := by
  induction ms generalizing pre i w m with
  | nil =>
    rw [scanCommands, scanCommands, List.append_nil]
    exact getLast_commands pre i w m
  | cons m' ms ih =>
    rw [scanCommands, ← List.append_assoc]
    exact ih (pre ++ m.commands i w) (i + 1) (m.after w) m'

theorem getLast_scanned {login : List Bytes} (w : Weeder) (ms : List (Message env.prefs)) :
    (scanned login w ms).getLast?.any isDele = lastDeleted w ms := by
  cases ms with
  | nil => simp [scanned, scanCommands, lastDeleted, show isDele statCommand = false from rfl]
  | cons m ms => exact getLast_scanCommands _ 1 w m ms

/-- With `-r` an account adds the number of messages that are left in it. -/
theorem counted_left (hret : env.prefs.returnStatus = true) {answer : List Bytes → Bytes}
    {login : List Bytes} {w : Weeder} {ms : List (Message env.prefs)}
    (hs : Serves answer login ms bound) (hlogin : ∀ cmd ∈ login, Awaited cmd)
    (hlast : lastDeleted w ms = false) :
    counted answer login w ms = Int32.ofNat (sift w ms).1.length := by
  have hpre : ∀ cmd ∈ login ++ [statCommand, statCommand], Awaited cmd := by
    simpa [or_imp, forall_and, awaited_statCommand] using hlogin
  have hsession : InSession login (scanned login w ms) := by
    refine ⟨by simp [scanned], fun hmem => ?_⟩
    exact (List.mem_append.mp hmem).elim (quitCommand_notMem hpre)
      (quitCommand_notMem_scanCommands 1 w ms)
  have hcount := atoi_stat hs hsession ((getLast_scanned w ms).trans hlast)
  have hunmarked : unmarked 1 ms (scanned login w ms) = (sift w ms).1 := by
    have h := unmarked_scanCommands 1 w ms (untouched_of_awaited hpre)
      (show Untouched 1 [] from fun _ _ => List.not_mem_nil)
    rwa [List.append_nil] at h
  have hlt : (sift w ms).1.length < 2 ^ 31 := by
    have hle : (unmarked 1 ms (scanned login w ms)).length ≤ ms.length := length_unmarked_le ..
    have := hs.length_lt
    rw [hunmarked] at hle
    omega
  rw [hunmarked] at hcount
  have hread : recounted answer login w ms = Int32.ofNat (sift w ms).1.length := by
    rw [recounted, if_pos hret]
    exact Int32.toInt.inj (hcount.trans (Int32.toInt_ofNat_of_lt hlt).symm)
  have hnonneg : ¬ Int32.ofNat (sift w ms).1.length < 0 := by
    rw [Int32.lt_iff_toInt_lt, Int32.toInt_ofNat_of_lt hlt]
    simp
  rw [counted, hread, if_neg hnonneg]

theorem countedAll_left (hret : env.prefs.returnStatus = true) {w : Weeder}
    {boxes : List (Mailbox env)} (hserved : ∀ b ∈ boxes, b.Served answer bound)
    (hlast : LastKept w boxes) :
    countedAll answer w boxes = Int32.ofNat ((siftAll w boxes).1.map List.length).sum := by
  induction boxes generalizing w with
  | nil => rfl
  | cons b boxes ih =>
    have hb := hserved b List.mem_cons_self
    rw [countedAll, counted_left hret hb.serves (awaited_loginCommands hb.login) hlast.1,
      ih (fun b' hb' => hserved b' (List.mem_cons_of_mem b hb')) hlast.2, ← Int32.ofNat_add]
    rfl

/-! ### A system and its servers -/

/-- A system that hands out the replies in pieces of a given size. -/
def promptOs (answer : ℕ → List Bytes → Bytes) (piece sock : ℕ) : Os Peers :=
  let told (v : Peers) (p : Peer) (cmd : Bytes) : Peers :=
    v.put sock ⟨p.sent ++ [cmd], p.unread ++ answer sock (p.sent ++ [cmd])⟩
  let recv (v : Peers) : Option Chunk × Peers :=
    match v sock with
    | none => (none, v)
    | some p =>
      (some ⟨p.unread.take (min (piece + 1) maxBytes), by simp [List.length_take]⟩,
        v.put sock ⟨p.sent, p.unread.drop (min (piece + 1) maxBytes)⟩)
  let write (cmd : Bytes) (v : Peers) : Int32 × Peers :=
    match v sock with
    | none => (-1, v)
    | some p => (0, told v p cmd)
  { openCall call v :=
      match call with
      | .connect _ => (.done true, v.put sock ⟨[], answer sock []⟩)
      | _ => (.done true, v)
    close v := (0, v)
    sslShutdown v := v
    sslSet _ := true
    getFlags v := (some 0, v)
    setFlags _ v := (true, v)
    select _ v := (.ready true, v)
    recv := recv
    sslRead v := (((recv v).1, .none), (recv v).2)
    write := write
    sslWrite := write
    strerror _ := [] }

theorem promptOs_prompt (answer : ℕ → List Bytes → Bytes) (piece : ℕ) :
    Prompt (promptOs answer piece) answer fun v s => s = v := by
  have hrecv : ∀ (v : Peers) (sock : ℕ) (p : Peer), v sock = some p →
      Takes (fun v s => s = v) v sock p ((promptOs answer piece sock).recv v).1
        ((promptOs answer piece sock).recv v).2 := by
    intro v sock p hp
    refine ⟨min (piece + 1) maxBytes, ?_, fun _ => by rw [maxBytes]; omega, ?_⟩ <;>
      simp only [promptOs, hp]
    rfl
  have hwrite : ∀ (v : Peers) (sock : ℕ) (p : Peer) (msg : Bytes), v sock = some p →
      ((promptOs answer piece sock).write msg v).1 ≠ -1 ∧
        ((promptOs answer piece sock).write msg v).2 =
          v.put sock ⟨p.sent ++ [msg], p.unread ++ answer sock (p.sent ++ [msg])⟩ := by
    intro v sock p msg hp
    simp only [promptOs, hp]
    exact ⟨by decide, trivial⟩
  constructor
  case openCall =>
    rintro v sock call s hcall rfl
    cases call with
    | connect port => exact absurd rfl (hcall port)
    | _ => exact ⟨rfl, rfl⟩
  case connect => rintro v sock port s - rfl; exact ⟨rfl, rfl⟩
  case close => rintro v sock s rfl; exact ⟨rfl, rfl⟩
  case sslShutdown => rintro v sock s rfl; rfl
  case sslSet => rintro v sock s -; rfl
  case getFlags => rintro v sock s rfl; exact ⟨⟨0, rfl⟩, rfl⟩
  case setFlags => rintro v sock flags s rfl; exact ⟨rfl, rfl⟩
  case select => rintro v sock p timeOut s - - rfl; exact ⟨rfl, rfl⟩
  case recv => rintro v sock p s hp rfl; exact hrecv s sock p hp
  case sslRead => rintro v sock p s hp rfl; exact ⟨by simp [promptOs], hrecv s sock p hp⟩
  case write => rintro v sock p msg s hp rfl; exact hwrite s sock p msg hp
  case sslWrite => rintro v sock p msg s hp rfl; exact hwrite s sock p msg hp

section Servers

variable {prefs : Preferences}

/-- The answers of a server with these messages, which asks for no password. -/
def popAnswer (ms : List (Message prefs)) (cmds : List Bytes) : Bytes :=
  match cmds.getLast? with
  | none => bytes "+OK hello.\r\n"
  | some cmd =>
    if cmd = statCommand then numbersReply (unmarked 1 ms cmds.dropLast).length 0 none
    else
      match (ms.zipIdx 1).find? fun x => cmd = listCommand (decimal x.2) with
      | some x => numbersReply x.2 x.1.size x.1.text
      | none =>
        match (ms.zipIdx 1).find? fun x => cmd = topCommand (decimal x.2) with
        | some x => bytes "+OK\r\n" ++ x.1.lines ++ dotLine
        | none => bytes "+OK\r\n"

theorem find?_zipIdx {ms : List (Message prefs)} {m : Message prefs} {i : ℕ} {f : ℕ → Bytes}
    (hf : ∀ j, f i = f j → i = j) (hm : (m, i) ∈ ms.zipIdx 1) :
    ((ms.zipIdx 1).find? fun x => f i = f x.2) = some (m, i) := by
  have hsome : ((ms.zipIdx 1).find? fun x => f i = f x.2).isSome :=
    List.find?_isSome.mpr ⟨(m, i), hm, by simp⟩
  obtain ⟨⟨m', j⟩, hfind⟩ := Option.isSome_iff_exists.mp hsome
  obtain rfl : i = j := hf j (by simpa using List.find?_some hfind)
  have hm' := (List.mk_mem_zipIdx_iff_le_and_getElem?_sub.mp (List.mem_of_find?_eq_some hfind)).2
  rw [(List.mk_mem_zipIdx_iff_le_and_getElem?_sub.mp hm).2] at hm'
  obtain rfl := Option.some.inj hm'
  exact hfind

/-- A command that is about no message is found for none. -/
theorem find?_zipIdx_none (ms : List (Message prefs)) (cmd : Bytes) (f : ℕ → Bytes)
    (h : ∀ j, cmd ≠ f j) : ((ms.zipIdx 1).find? fun x => cmd = f x.2) = none :=
  List.find?_eq_none.mpr fun x _ hx => h x.2 (of_decide_eq_true hx)

theorem decimal_inj {i j : ℕ} (h : decimal i = decimal j) : i = j :=
  deleCommand_inj (by rw [deleCommand, h, deleCommand])

theorem listCommand_inj {i j : ℕ} (h : listCommand (decimal i) = listCommand (decimal j)) : i = j :=
  decimal_inj (by simpa [listCommand] using h)

theorem topCommand_inj {i j : ℕ} (h : topCommand (decimal i) = topCommand (decimal j)) : i = j :=
  decimal_inj (by simpa [topCommand] using h)

theorem numbersReply_statusLine (m k : ℕ) : StatusLine (numbersReply m k none) := by
  refine ⟨bytes " " ++ decimal m ++ bytes " " ++ decimal k, ?_, ?_, ?_⟩
  · simp [numbersReply, bytes]
  · simpa [not_mem_decimal (c := chr '\n') rfl] using (by decide : chr '\n' ∉ bytes " ")
  · simpa [not_mem_decimal (c := 0) rfl] using (by decide : 0 ∉ bytes " ")

theorem okReply_statusLine : StatusLine (bytes "+OK\r\n") :=
  ⟨[], by decide, List.not_mem_nil, List.not_mem_nil⟩

/-- Commands with different first letters. -/
theorem ne_of_head {cmd cmd' : Bytes} (c c' : UInt8) (hc : cmd.head? = some c)
    (hc' : cmd'.head? = some c') (hne : c ≠ c') : cmd ≠ cmd' := fun h =>
  hne (Option.some.inj (hc.symm.trans ((congrArg List.head? h).trans hc')))

/-- **Every maildrop has a server** that looks after it. -/
theorem popAnswer_serves {ms : List (Message prefs)} {login : List Bytes}
    (hlogin : ∀ cmd ∈ login, cmd.head? ≠ some (chr 'L') ∧ cmd.head? ≠ some (chr 'T')) (hlen : ms.length + 1 < 2 ^ 31)
    (hshort : ∀ cmds, 2 * (popAnswer ms cmds).length < bound) :
    Serves (popAnswer ms) login ms bound where
  short := hshort
  length_lt := hlen
  welcome cmds hcmds := by
    unfold popAnswer
    split
    · exact ⟨bytes " hello.", by decide, by decide, by decide⟩
    · rename_i cmd hlast
      obtain ⟨hlist, htop⟩ := hlogin cmd (hcmds.subset (List.mem_of_getLast? hlast))
      rw [find?_zipIdx_none ms cmd (fun i => listCommand (decimal i)) fun j h => hlist (h ▸ rfl),
        find?_zipIdx_none ms cmd (fun i => topCommand (decimal i)) fun j h => htop (h ▸ rfl)]
      split_ifs
      · exact numbersReply_statusLine _ _
      · exact okReply_statusLine
  stat cmds _ := by
    refine ⟨0, none, List.not_mem_nil, ?_⟩
    simp [popAnswer]
  list cmds m i _ hm _ := by
    have hstat : listCommand (decimal i) ≠ statCommand :=
      ne_of_head (chr 'L') (chr 'S') rfl rfl (by decide)
    have hfind := find?_zipIdx (f := fun i => listCommand (decimal i)) (fun j => listCommand_inj) hm
    simp only [popAnswer, List.getLast?_concat, if_neg hstat, hfind]
  top cmds m i _ hm _ := by
    have hstat : topCommand (decimal i) ≠ statCommand :=
      ne_of_head (chr 'T') (chr 'S') rfl rfl (by decide)
    have hlist := find?_zipIdx_none ms (topCommand (decimal i)) (fun i => listCommand (decimal i))
      fun j => ne_of_head (chr 'T') (chr 'L') rfl rfl (by decide)
    have hfind := find?_zipIdx (f := fun i => topCommand (decimal i)) (fun j => topCommand_inj) hm
    refine ⟨bytes "+OK\r\n", okReply_statusLine, ?_⟩
    simp only [popAnswer, List.getLast?_concat, if_neg hstat, hlist, hfind]
  dele cmds m i _ _ _ := by
    have hstat : deleCommand i ≠ statCommand :=
      ne_of_head (chr 'D') (chr 'S') rfl rfl (by decide)
    have hlist := find?_zipIdx_none ms (deleCommand i) (fun i => listCommand (decimal i))
      fun j => ne_of_head (chr 'D') (chr 'L') rfl rfl (by decide)
    have htop := find?_zipIdx_none ms (deleCommand i) (fun i => topCommand (decimal i))
      fun j => ne_of_head (chr 'D') (chr 'T') rfl rfl (by decide)
    simpa only [popAnswer, List.getLast?_concat, if_neg hstat, hlist, htop] using okReply_statusLine

theorem length_popAnswer_lt {ms : List (Message prefs)} {n : ℕ} (hn : 12 < n)
    (hstat : ∀ k ≤ ms.length, (numbersReply k 0 none).length < n)
    (hlist : ∀ x ∈ ms.zipIdx 1, (numbersReply x.2 x.1.size x.1.text).length < n)
    (htop : ∀ x ∈ ms.zipIdx 1, (bytes "+OK\r\n" ++ x.1.lines ++ dotLine).length < n)
    (cmds : List Bytes) : (popAnswer ms cmds).length < n := by
  unfold popAnswer
  split
  · exact lt_of_le_of_lt (by decide) hn
  · split_ifs
    · exact hstat _ (length_unmarked_le ..)
    · split
      · rename_i x hfind
        exact hlist x (List.mem_of_find?_eq_some hfind)
      · split
        · rename_i x hfind
          exact htop x (List.mem_of_find?_eq_some hfind)
        · exact lt_of_le_of_lt (by decide) hn

end Servers

/-! ### A small post office -/

/-- A message without a header. -/
def bareMessage (p : Preferences) (size : ℕ) (h : size < 2 ^ 31) : Message p where
  size := size
  text := none
  lines := []
  header := Header.new (Int32.ofNat size)
  text_noNul := List.not_mem_nil
  noNul := List.not_mem_nil
  parsed := by
    rw [listedSize_none h]
    rfl

/-- Two messages, and the first is over the limit of the small rcfile. -/
def twoMessages (p : Preferences) : List (Message p) :=
  [bareMessage p 2 (by omega), bareMessage p 1 (by omega)]

def postBox (env : Env) : Mailbox env where
  account :=
    ⟨bytes "host", bytes "joe", bytes "secret", 110, some ⟨.pop3, protocolPop3, some 0⟩, some 0⟩
  sock := 0
  proto := ⟨.pop3, protocolPop3, some 0⟩
  login := [userCommand (bytes "joe"), passCommand (bytes "secret")]
  messages := twoMessages env.prefs

def postAnswer (env : Env) : ℕ → List Bytes → Bytes := fun _ => popAnswer (twoMessages env.prefs)

theorem postBox_served (env : Env) : (postBox env).Served (postAnswer env) 100 where
  conn := rfl
  proto := rfl
  protoConn := rfl
  login := rfl
  serves := by
    refine popAnswer_serves (show ∀ cmd ∈ [userCommand (bytes "joe"), passCommand (bytes "secret")],
      cmd.head? ≠ some (chr 'L') ∧ cmd.head? ≠ some (chr 'T') by decide)
      (show 2 + 1 < 2 ^ 31 by omega) fun cmds => ?_
    have hlist : ∀ x ∈ (twoMessages env.prefs).zipIdx 1,
        (numbersReply x.2 x.1.size x.1.text).length < 50 :=
      List.forall_mem_cons.mpr ⟨show (numbersReply 1 2 none).length < 50 by decide +kernel,
        List.forall_mem_singleton.mpr (show (numbersReply 2 1 none).length < 50 by decide +kernel)⟩
    have htop : ∀ x ∈ (twoMessages env.prefs).zipIdx 1,
        (bytes "+OK\r\n" ++ x.1.lines ++ dotLine).length < 50 :=
      List.forall_mem_cons.mpr ⟨show (bytes "+OK\r\n" ++ [] ++ dotLine).length < 50 by decide,
        List.forall_mem_singleton.mpr (show (bytes "+OK\r\n" ++ [] ++ dotLine).length < 50 by decide)⟩
    have h := length_popAnswer_lt (show 12 < 50 by omega)
      (show ∀ k ≤ (twoMessages env.prefs).length, (numbersReply k 0 none).length < 50 from
        show ∀ k ≤ 2, (numbersReply k 0 none).length < 50 by decide +kernel)
      hlist htop cmds
    exact Nat.mul_lt_mul_of_pos_left h Nat.two_pos

/-- No server was connected to. -/
def offline : Net Peers := ⟨fun _ => none, fun _ => ⟨0, none, false⟩⟩

/-- Sockets on a system that delivers seven bytes at a time. -/
def postConns (env : Env) : ℕ → Connection (Net Peers) :=
  networked (promptOs (postAnswer env) 6) 100

/-- The preferences of the small rcfile, without an option. -/
def postPrefs : Preferences :=
  ((smallRcfile.commands.foldlM (Command.apply smallHost.wordexp)
    { Preferences.new ⟨0, 0⟩ 0 with
      rcFile := bytes "/home/joe/.mailfilterrc" }).toOption.getD
        (Preferences.new ⟨0, 0⟩ 0)).compiledRules smallHost.regcomp

theorem postPrefs_loads : Loads smallHost [] postPrefs :=
  ⟨_, _, _, _, rfl, rfl, rfl, rfl, rfl, rfl, rfl⟩

/-! ### The program -/

section Main

variable {host : Host} {opts : List Opt} {q : Preferences} {v : Peers} {net : σ}

/-- The program comes to its loop over the accounts. -/
theorem exec_main (hload : Loads host opts q) (w : World σ) :
    exec (main host conns opts) w =
      exec (do
        let returnVal ← checkAccounts conns (host.env q) q.accounts 0
        if q.returnStatus then do
          let mailboxStatus ← Program.gets World.mailboxStatus
          pure mailboxStatus.toInt
        else pure returnVal) { w with mailboxStatus := 0 } := by
  obtain ⟨p₀, p, name, file, hopts, hopen, hfile, hlog, hsig, hcomp, rfl⟩ := hload
  unfold main
  rw [exec_bind, exec_modify]
  simp only [hopts, hopen, hfile]
  unfold work
  simp only [hlog, hsig, Bool.not_true, Bool.false_eq_true, if_false,
    Preferences.precompileExpressions_ok hcomp, ne_eq, not_true_eq_false]
  rw [exec_bind, show (List.forM [] log : Run σ PUnit) = pure ⟨⟩ from rfl, exec_pure]

theorem main_known (hload : Loads host opts q) (T : Transport conns answer bound Shows)
    {boxes : List (Mailbox (host.env q))} (haccounts : q.accounts = boxes.map Mailbox.account)
    (hserved : ∀ b ∈ boxes, b.Served answer bound) (hsock : (boxes.map Mailbox.sock).Nodup)
    (hnone : ∀ b ∈ boxes, v b.sock = none) (hnet : Shows v net) :
    ∃ s v', exec (main host conns opts) (World.new net) = (.ok (if q.returnStatus then
        (countedAll answer Weeder.new boxes).toInt else 0), s) ∧
      Known Shows v' (siftAll Weeder.new boxes).2 (countedAll answer Weeder.new boxes) s ∧
      maildrops v' boxes = (siftAll Weeder.new boxes).1 := by
  have hstart : Known Shows v Weeder.new 0 (World.new net) := ⟨hnet, rfl, rfl⟩
  have hrun := (checkAccounts_known (n := 0) (w := Weeder.new) (E := fun _ _ => False) T hserved hsock
    hnone 0).exec hstart
  rw [← haccounts] at hrun
  have hzero : { World.new net with mailboxStatus := 0 } = World.new net := rfl
  rw [exec_main hload, hzero, exec_bind]
  rcases hcheck : exec (checkAccounts conns (host.env q) q.accounts 0) (World.new net) with ⟨e | ret, s⟩
  · rw [hcheck] at hrun
    exact hrun.elim
  · rw [hcheck] at hrun
    obtain ⟨hret, v', hknown, -, hdrops⟩ := hrun
    rw [Int32.zero_add] at hknown
    refine ⟨s, v', ?_, hknown, hdrops⟩
    simp only
    split_ifs with hr
    · simp only [exec_bind, exec_gets, exec_pure, hknown.status]
    · rw [exec_pure, hret (Bool.eq_false_iff.mpr hr)]

end Main

end Mailfilter
