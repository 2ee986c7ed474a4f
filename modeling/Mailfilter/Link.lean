import Mailfilter.Deletion
import Mailfilter.Reading

/-!
# A link to a server

A server that answers every command with one reply, in the order of the commands, and a connection
over which the replies arrive at any time and in any pieces.

* `Reply`, the replies of the protocol, and `Server`, which carries the proof that it gives such
  replies and lists the sizes of the messages;
* `Link`, what was sent and what was not read yet, with a `history` of the moments that decide whether
  replies and commands stay together; `linkOs`, the system that such a link gives, for every `Timing`;
* `Moment.Fair`: at the moment nothing goes wrong;
* `cWrite_link` and `cRead_link`: what the sockets do with such a link.
-/

namespace Mailfilter

open Pop3 Program

/-! ### Servers -/

/-- A reply: a status line, or several lines of which the last one is a dot. -/
inductive Reply : Bytes → Prop
  | line (text : Bytes) (hstatus : bytes "+OK" <+: text ∨ bytes "-ERR" <+: text)
      (hlf : chr '\n' ∉ text) : Reply (text ++ crlf)
  | multiline {r : Bytes} (h : Multiline r) : Reply r

/-- The reply to `LIST` for a message of the given size. -/
def listReply (i size : ℕ) : Bytes := bytes "+OK " ++ decimal i ++ bytes " " ++ decimal size ++ crlf

/-- A server: the answer to the last command, by all commands so far, and the sizes of the messages.
A command to list a message is answered with the size, or with an error. -/
structure Server where
  answer : List Bytes → Bytes
  size : ℕ → ℕ
  reply : ∀ cmds cmd, Reply (answer (cmds ++ [cmd]))
  list : ∀ cmds i, firstByte (answer (cmds ++ [listCommand (decimal i)])) = chr '+' →
    answer (cmds ++ [listCommand (decimal i)]) = listReply i (size i)

theorem Reply.ne_nil {r : Bytes} (h : Reply r) : r ≠ [] := by
  cases h with
  | line text hstatus hlf => exact fun h => absurd (List.append_eq_nil_iff.1 h).2 (by decide)
  | multiline h => exact fun hnil => absurd (List.prefix_nil.1 (hnil ▸ h.ok)) (by decide)

/-! ### Links -/

def isTop (cmd : Bytes) : Bool := (bytes "TOP ").isPrefixOf cmd

/-- A command whose reply is read: not `DELE`, whose reply never is, and not `QUIT`. -/
def Awaited (cmd : Bytes) : Prop := isDele cmd = false ∧ cmd ≠ quitCommand

instance (cmd : Bytes) : Decidable (Awaited cmd) := inferInstanceAs (Decidable (_ ∧ _))

/-- What happens on a link. -/
inductive Moment
  /-- A command was written, after another one. -/
  | wrote (before : Option Bytes) (cmd : Bytes)
  /-- The first piece of a reply was delivered. -/
  | began (chunk : Bytes)
  /-- Nothing was there to be received: the last command, what was delivered since `select`, and what
  is still to come. -/
  | blocked (cmd : Option Bytes) (got rest : Bytes)
  deriving DecidableEq

/-- Nothing goes wrong at the moment: no command whose reply is awaited follows a `DELE`; the first
piece of a reply is without NUL; and when nothing is there to be received, the reply is complete, or it
is that of a `TOP` and does not look complete. -/
def Moment.Fair : Moment → Prop
  | .wrote before cmd => before.any isDele = true → ¬ Awaited cmd
  | .began chunk => 0 ∉ chunk
  | .blocked cmd got rest => rest = [] ∨ (cmd.any isTop = true ∧ ¬ StopsAt got)

instance : (m : Moment) → Decidable m.Fair
  | .wrote _ _ => inferInstanceAs (Decidable (_ → _))
  | .began _ => inferInstanceAs (Decidable (¬ _))
  | .blocked _ _ _ => inferInstanceAs (Decidable (_ ∨ _))

/-- The state of the connection to a server: the commands that were sent, the bytes of the replies
that were not received yet, those received since the last `select`, the time, and whether `select` has
just reported that there is something to be received. -/
structure Link where
  sent : List Bytes
  unread : Bytes
  got : Bytes
  clock : ℕ
  fresh : Bool
  history : List Moment
  deriving DecidableEq

/-- Nothing has gone wrong. -/
def Link.Fair (l : Link) : Prop := ∀ m ∈ l.history, m.Fair

instance (l : Link) : Decidable l.Fair := inferInstanceAs (Decidable (∀ m ∈ l.history, m.Fair))

/-- When replies arrive: whether `select` reports them before its time is out, and whether a call of
`recv` finds a byte, and how many more. -/
structure Timing where
  ready : ℕ → Bool
  arrive : ℕ → Option ℕ

namespace Link

variable (server : Server) (timing : Timing) (l : Link)

/-- The server gets a command and answers it. -/
def write (cmd : Bytes) : Link :=
  { l with
    sent := l.sent ++ [cmd]
    unread := l.unread ++ server.answer (l.sent ++ [cmd])
    history := l.history ++ [.wrote l.sent.getLast? cmd] }

/-- `select` waits for the next byte. -/
def select : Selected × Link :=
  if l.unread ≠ [] ∧ timing.ready l.clock = true then
    (.ready true, { l with got := [], clock := l.clock + 1, fresh := true })
  else (.timedOut, { l with clock := l.clock + 1 })

/-- Some bytes are delivered. -/
def deliver (k : ℕ) : Option Chunk × Link :=
  (some ⟨l.unread.take (min k maxBytes), by simp [List.length_take]⟩,
    { l with
      unread := l.unread.drop (min k maxBytes)
      got := l.got ++ l.unread.take (min k maxBytes)
      clock := l.clock + 1
      fresh := false
      history := l.history ++
        if l.fresh then [.began (l.unread.take (min k maxBytes))] else [] })

/-- Nothing is there. -/
def block : Option Chunk × Link :=
  (none, { l with
    clock := l.clock + 1
    history := l.history ++ [.blocked l.sent.getLast? l.got l.unread] })

/-- `recv` -/
def recv : Option Chunk × Link :=
  if l.unread = [] then l.block
  else
    match timing.arrive l.clock with
    | some k => l.deliver (k + 1)
    | none => l.block

end Link

/-- The system that a link gives, with and without SSL. -/
def linkOs (server : Server) (timing : Timing) : Os Link where
  openCall _ l := (.done true, l)
  close l := (0, l)
  sslShutdown l := l
  sslSet _ := true
  getFlags l := (some 0, l)
  setFlags _ l := (true, l)
  select _ l := l.select timing
  recv l := l.recv timing
  sslRead l :=
    (((l.recv timing).1, if (l.recv timing).1.isSome then .none else .wantRead), (l.recv timing).2)
  write cmd l := (Int32.ofNat cmd.length, l.write server cmd)
  sslWrite cmd l := (Int32.ofNat cmd.length, l.write server cmd)
  strerror _ := []

/-! ### What a link remembers -/

section Steps

variable {server : Server} {timing : Timing} {l : Link} {S : List Bytes} {h : List Moment}

/-- The commands are known, and what had happened before is still remembered. -/
def Link.Since (S : List Bytes) (h : List Moment) (l : Link) : Prop := l.sent = S ∧ h <+: l.history

theorem Link.Fair.of_prefix {l' : Link} (hl : l'.Fair) (h : l.history <+: l'.history) : l.Fair :=
  fun m hm => hl m (h.subset hm)

theorem since_deliver (hl : l.Since S h) (k : ℕ) : (l.deliver k).2.Since S h :=
  ⟨hl.1, hl.2.trans (List.prefix_append ..)⟩

theorem since_block (hl : l.Since S h) : l.block.2.Since S h :=
  ⟨hl.1, hl.2.trans (List.prefix_append ..)⟩

theorem since_recv (hl : l.Since S h) : (l.recv timing).2.Since S h := by
  unfold Link.recv
  split
  · exact since_block hl
  · split
    · exact since_deliver hl _
    · exact since_block hl

theorem fair_of_recv (hfair : (l.recv timing).2.Fair) : l.Fair :=
  hfair.of_prefix (since_recv (S := l.sent) (h := l.history) ⟨rfl, List.prefix_refl _⟩).2

/-- A reply is being read: what was collected, and what is to come. -/
def Link.Reading (a input : Bytes) (l : Link) : Prop :=
  if l.fresh then input = [] ∧ l.got = [] ∧ l.unread = a
  else l.got ≠ [] ∧ input = l.got ∧ l.got ++ l.unread = a

theorem piece_ne_nil {unread : Bytes} {k : ℕ} (hk : 0 < k) (hne : unread ≠ []) :
    unread.take (min k maxBytes) ≠ [] := by
  have := List.length_pos_iff.2 hne
  refine List.length_pos_iff.1 ?_
  rw [List.length_take, maxBytes]
  omega

/-- A piece that is delivered is appended to the input. -/
theorem reading_deliver {a input : Bytes} {k : ℕ} (hk : 0 < k) (hne : l.unread ≠ [])
    (hr : l.Reading a input) (hfair : (l.deliver k).2.Fair) :
    (l.deliver k).2.Reading a (Socket.store input (l.unread.take (min k maxBytes))) := by
  have hchunk := piece_ne_nil hk hne
  have hcat : l.unread.take (min k maxBytes) ++ l.unread.drop (min k maxBytes) = l.unread :=
    List.take_append_drop ..
  unfold Link.Reading at hr
  show l.got ++ _ ≠ [] ∧ _ = l.got ++ _ ∧ l.got ++ _ ++ l.unread.drop (min k maxBytes) = a
  unfold Socket.store
  rw [if_neg (List.length_pos_iff.2 hchunk).ne']
  split at hr
  case isTrue hfresh =>
    obtain ⟨rfl, hgot, hunread⟩ := hr
    have hnul : 0 ∉ l.unread.take (min k maxBytes) := by
      refine hfair (.began _) (List.mem_append_right _ ?_)
      rw [if_pos hfresh]
      exact List.mem_singleton_self _
    refine ⟨by simpa [hgot] using hchunk, ?_, by rw [hgot, List.nil_append, hcat, hunread]⟩
    rw [if_neg (by simp), cstr_of_noNul hnul, hgot, List.nil_append]
  case isFalse =>
    obtain ⟨hgot, rfl, hunread⟩ := hr
    refine ⟨fun h => hgot (List.append_eq_nil_iff.1 h).1, ?_, by rw [List.append_assoc, hcat, hunread]⟩
    rw [if_pos fun h => hgot (List.length_eq_zero_iff.1 h)]

/-- Nothing is there, and nothing goes wrong. -/
def Link.MayBlock (l : Link) : Prop :=
  l.unread = [] ∨ (l.sent.getLast?.any isTop = true ∧ ¬ StopsAt l.got)

/-- The reply is complete when nothing is left of it. -/
theorem reading_done {input : Bytes} {a : Bytes} (ha : a ≠ []) (hr : l.Reading a input)
    (hdone : l.unread = []) : input = a := by
  unfold Link.Reading at hr
  split at hr
  · exact absurd (hr.2.2.symm.trans hdone) ha
  · obtain ⟨-, rfl, hcat⟩ := hr
    rwa [hdone, List.append_nil] at hcat

/-- A reply that looks complete is complete, if `recv` may have nothing to deliver. -/
theorem reading_stops {input : Bytes} {a : Bytes} (hr : l.Reading a input)
    (hblock : l.MayBlock) (hstop : StopsAt input) : l.unread = [] := by
  rcases hblock with hdone | ⟨-, hgot⟩
  · exact hdone
  · unfold Link.Reading at hr
    split at hr
    · obtain ⟨rfl, hnil, -⟩ := hr
      exact absurd (hnil ▸ hstop) hgot
    · exact absurd (hr.2.1 ▸ hstop) hgot

/-- What `recv` does while a reply is read: it delivers a piece, or it has nothing to deliver. -/
theorem recv_cases (a input : Bytes) :
    (∃ c, (l.recv timing).1 = some c ∧ c.1 ≠ [] ∧ ((l.recv timing).2.Fair → l.Reading a input →
      (l.recv timing).2.Reading a (Socket.store input c.1))) ∨
    ((l.recv timing).1 = none ∧ ((l.recv timing).2.Fair → l.Reading a input →
      (l.recv timing).2.Reading a input ∧ (l.recv timing).2.MayBlock)) := by
  have hdeliver : ∀ k, 0 < k → l.unread ≠ [] → l.recv timing = l.deliver k →
      ∃ c, (l.recv timing).1 = some c ∧ c.1 ≠ [] ∧ ((l.recv timing).2.Fair → l.Reading a input →
        (l.recv timing).2.Reading a (Socket.store input c.1)) := by
    intro k hk hne heq
    refine ⟨_, by rw [heq]; rfl, piece_ne_nil hk hne, fun hfair hr => ?_⟩
    rw [heq] at hfair ⊢
    exact reading_deliver hk hne hr hfair
  have hblock : l.recv timing = l.block → (l.recv timing).1 = none ∧
      ((l.recv timing).2.Fair → l.Reading a input →
        (l.recv timing).2.Reading a input ∧ (l.recv timing).2.MayBlock) := by
    intro heq
    rw [heq]
    refine ⟨rfl, fun hfair hr => ⟨hr, ?_⟩⟩
    exact hfair (.blocked _ _ _) (List.mem_append_right _ (List.mem_singleton_self _))
  by_cases hne : l.unread = []
  · exact Or.inr (hblock (by rw [Link.recv, if_pos hne]))
  · cases harr : timing.arrive l.clock with
    | some k => exact Or.inl (hdeliver (k + 1) (Nat.succ_pos k) hne (by
        rw [Link.recv, if_neg hne, harr]))
    | none => exact Or.inr (hblock (by rw [Link.recv, if_neg hne, harr]))

end Steps

/-! ### Sockets on a link -/

section Sockets

variable {server : Server} {timing : Timing} {S : List Bytes} {h : List Moment} {a : Bytes}

/-- The link remembers. -/
def Since (S : List Bytes) (h : List Moment) (x : Wire (Socket Link)) : Prop := x.net.os.Since S h

/-- A reply is being read over it. -/
def ReadingOn (S : List Bytes) (h : List Moment) (a input : Bytes) (x : Wire (Socket Link)) : Prop :=
  Since S h x ∧ (x.net.os.Fair → x.net.os.Reading a input)

/-- A piece of the reply was delivered, or none. -/
def Delivered (S : List Bytes) (h : List Moment) (a input : Bytes) :
    Option Chunk → Wire (Socket Link) → Prop
  | some c, x => c.1 ≠ [] ∧ ReadingOn S h a (Socket.store input c.1) x
  | none, x => ReadingOn S h a input x ∧ (x.net.os.Fair → x.net.os.MayBlock)

/-- A call of the system, by what it does with the link. -/
theorem sys_link {α : Type} {f : Link → α × Link} {P : Wire (Socket Link) → Prop}
    {Q : α → Wire (Socket Link) → Prop} {E : Halt → Wire (Socket Link) → Prop}
    (hf : ∀ x, P x → Q (f x.net.os).1 { x with net := { x.net with os := (f x.net.os).2 } }) :
    Triple P (Socket.sys f) Q E :=
  Triple.of_exec fun x hx => hf x hx

theorem delivered_recv {input : Bytes} {x : Wire (Socket Link)} (hx : ReadingOn S h a input x) :
    Delivered S h a input (x.net.os.recv timing).1
      { x with net := { x.net with os := (x.net.os.recv timing).2 } } := by
  have hsince : (x.net.os.recv timing).2.Since S h := since_recv hx.1
  have hread : (x.net.os.recv timing).2.Fair → x.net.os.Reading a input :=
    fun hfair => hx.2 (fair_of_recv hfair)
  rcases recv_cases a input with ⟨c, hc, hne, hr⟩ | ⟨hc, hr⟩
  · rw [hc]
    exact ⟨hne, hsince, fun hfair => hr hfair (hread hfair)⟩
  · rw [hc]
    exact ⟨⟨hsince, fun hfair => (hr hfair (hread hfair)).1⟩, fun hfair => (hr hfair (hread hfair)).2⟩

/-- Over SSL the link is read in the same way. -/
theorem readOnce_link (ssl : Bool) (l : Link) :
    Socket.readOnce (linkOs server timing) ssl l = (some (l.recv timing).1, (l.recv timing).2) := by
  cases ssl with
  | false => rfl
  | true =>
    have hread : ((linkOs server timing).sslRead l).1.2 ≠ .other := by
      show (if (l.recv timing).1.isSome then SslError.none else .wantRead) ≠ .other
      split <;> simp
    have hset : (linkOs server timing).sslSet l = true := rfl
    unfold Socket.readOnce
    rw [if_pos rfl, if_pos hset, if_neg hread]
    rfl

theorem receiveOnce_link (input : Bytes) {E : Halt → Wire (Socket Link) → Prop} :
    Triple (ReadingOn S h a input) (Socket.receiveOnce (linkOs server timing))
      (fun r x => ∃ c, r = .chunk c ∧ Delivered S h a input c x) E := by
  refine Triple.of_exec fun x hx => ?_
  obtain ⟨log, -, honce⟩ := Socket.exec_receiveOnce_read (linkOs server timing) x
  have hd : Delivered S h a input (x.net.os.recv timing).1
      { x with net := { x.net with os := (x.net.os.recv timing).2 } } := delivered_recv hx
  rw [honce, readOnce_link]
  refine ⟨(x.net.os.recv timing).1, rfl, ?_⟩
  -- nothing is said about the log
  cases hc : (x.net.os.recv timing).1 <;> rw [hc] at hd <;> exact hd

/-- **The receive loop** reads the reply, if all is fair. -/
theorem receive_link (ha : a ≠ []) {cmd : Bytes} (hcmd : S.getLast? = some cmd) (fuel : ℕ)
    (input : Bytes) :
    Triple (ReadingOn S h a input) (Socket.receive (linkOs server timing) (isTop cmd) fuel input)
      (fun o x => Since S h x ∧ ∀ r, o = some r → x.net.os.Fair → r = a ∧ x.net.os.unread = [])
      (fun _ => Since S h) := by
  induction fuel generalizing input with
  | zero => exact Triple.throw fun x hx => hx.1
  | succ fuel ih =>
    refine (receiveOnce_link input).bind fun r => Triple.of_exists fun c => Triple.of_fact fun hr => ?_
    subst hr
    cases c with
    | some c =>
      refine Triple.of_fact fun hne => ?_
      have hpos : 0 < (Socket.data (some c)).length := List.length_pos_iff.2 hne
      simp only [hpos, if_true]
      exact ih _
    | none =>
      have hstopped : ∀ x, Delivered S h a input none x → (isTop cmd = true → StopsAt input) →
          Since S h x ∧ ∀ r, some input = some r → x.net.os.Fair → r = a ∧ x.net.os.unread = [] := by
        rintro x ⟨hx, hblock⟩ hstop
        refine ⟨hx.1, fun r hr hfair => ?_⟩
        obtain rfl := Option.some.inj hr
        have hdone : x.net.os.unread = [] := by
          rcases hblock hfair with hdone | ⟨htop, hgot⟩
          · exact hdone
          · rw [hx.1.1, hcmd] at htop
            exact reading_stops (hx.2 hfair) (hblock hfair) (hstop htop)
        exact ⟨reading_done ha (hx.2 hfair) hdone, hdone⟩
      simp only [Socket.data, List.length_nil, lt_irrefl, if_false]
      cases htop : isTop cmd with
      | false => exact Triple.pure fun x hx => hstopped x hx fun h => absurd (htop.symm.trans h) (by simp)
      | true =>
        simp only [Bool.not_true, Bool.false_eq_true, if_false]
        cases hopen : Socket.headerOpen input with
        | none => exact Triple.throw fun x hx => hx.1.1
        | some more =>
          cases more with
          | true =>
            rw [htop] at ih
            exact (ih input).weaken fun x (hx : Delivered S h a input none x) => hx.1
          | false => exact Triple.pure fun x hx => hstopped x hx fun _ => stopsAt_of_headerOpen hopen

/-- The reply is expected, and nothing else. -/
def Expecting (S : List Bytes) (h : List Moment) (a : Bytes) (x : Wire (Socket Link)) : Prop :=
  Since S h x ∧ (x.net.os.Fair → x.net.os.unread = a)

/-- What `select` reports. -/
def Reported (S : List Bytes) (h : List Moment) (a : Bytes) : Selected → Wire (Socket Link) → Prop
  | .timedOut, x => Since S h x
  | .ready true, x => ReadingOn S h a [] x
  | _, _ => False

theorem reported_select {x : Wire (Socket Link)} (hx : Expecting S h a x) :
    Reported S h a (x.net.os.select timing).1
      { x with net := { x.net with os := (x.net.os.select timing).2 } } := by
  unfold Link.select
  split
  · exact ⟨hx.1, fun hfair => ⟨rfl, rfl, hx.2 hfair⟩⟩
  · exact hx.1

/-- **`c_read`** reads the reply that is expected and nothing else, if all is fair. -/
theorem cRead_link (ha : a ≠ []) {cmd : Bytes} (hcmd : S.getLast? = some cmd) (fuel : ℕ) :
    Triple (Expecting S h a) (Socket.cRead (linkOs server timing) fuel (isTop cmd))
      (fun ret x => Since S h x ∧ (0 < ret → x.net.os.Fair →
        x.net.readBuffer = some a ∧ x.net.os.unread = []))
      (fun _ => Since S h) := by
  have hfailed : ∀ x, Since S h x → Since S h x ∧ (0 < (-1 : Int32) → x.net.os.Fair →
      x.net.readBuffer = some a ∧ x.net.os.unread = []) :=
    fun x hx => ⟨hx, fun hpos => absurd hpos (by decide)⟩
  refine Triple.bind (R := fun o x => o = some 0 ∧ Expecting S h a x) (sys_link fun x hx => ⟨rfl, hx⟩)
    fun o => Triple.of_fact fun ho => ?_
  subst ho
  refine Triple.bind (R := fun b x => b = true ∧ Expecting S h a x) (sys_link fun x hx => ⟨rfl, hx⟩)
    fun b => Triple.of_fact fun hb => ?_
  subst hb
  refine Triple.bind (R := fun _ => Expecting S h a) (Triple.gets fun x hx => hx) fun timeOut => ?_
  refine Triple.bind (R := Reported S h a) (sys_link fun x hx => reported_select hx) fun r => ?_
  match r with
  | .error | .ready false => exact fun x hx => False.elim hx
  | .timedOut =>
    exact Triple.bind (R := fun _ => Since S h) (Triple.modify fun x hx => hx)
      fun _ => Triple.pure hfailed
  | .ready true =>
    refine (receive_link ha hcmd fuel []).bind fun o => ?_
    cases o with
    | none => exact Triple.pure fun x hx => hfailed x hx.1
    | some input =>
      dsimp only
      split
      · exact Triple.throw fun x hx => hx.1
      · refine Triple.bind (R := fun _ x => Since S h x ∧
          (x.net.os.Fair → input = a ∧ x.net.os.unread = []))
          (Triple.modify fun x hx => ⟨hx.1, hx.2 input rfl⟩) fun _ => ?_
        refine Triple.bind (R := fun b x => b = true ∧ Since S h x ∧
          (x.net.os.Fair → input = a ∧ x.net.os.unread = []))
          (sys_link fun x hx => ⟨rfl, hx⟩) fun b => Triple.of_fact fun hb => ?_
        subst hb
        refine Triple.bind (R := fun _ x => Since S h x ∧
          (x.net.os.Fair → x.net.readBuffer = some a ∧ x.net.os.unread = []))
          (Triple.modify fun x hx => ⟨hx.1, fun hfair => ?_⟩) fun _ =>
          Triple.pure fun x hx => ⟨hx.1, fun _ => hx.2⟩
        obtain ⟨rfl, hdone⟩ := hx.2 hfair
        exact ⟨rfl, hdone⟩

/-- **`c_write`** sends the command. -/
theorem cWrite_link {P : Link → Prop} {msg : Bytes} (hnul : 0 ∉ msg)
    {E : Halt → Wire (Socket Link) → Prop} :
    Triple (fun x => P (x.net.os.write server msg)) (Socket.cWrite (linkOs server timing) msg)
      (fun _ x => P x.net.os) E := by
  have hsay : ∀ call, Triple (fun x : Wire (Socket Link) => P x.net.os) (Socket.say call)
      (fun _ x => P x.net.os) E := fun call => Triple.modify fun x hx => hx
  have hlogged : ∀ call (sent : Int32), Triple (fun x : Wire (Socket Link) => P x.net.os)
      (do Socket.say call; pure sent) (fun _ x => P x.net.os) E :=
    fun call sent => (hsay call).bind fun _ => Triple.pure fun x hx => hx
  unfold Socket.cWrite
  rw [cstr_of_noNul hnul]
  refine Triple.bind (R := fun _ x => P (x.net.os.write server msg)) (Triple.gets fun x hx => hx)
    fun ssl => ?_
  refine Triple.bind (R := fun _ x => P x.net.os) ?_ fun sent => ?_
  · cases ssl <;> exact sys_link fun x hx => hx
  · dsimp only
    split
    case isTrue =>
      refine Triple.bind (R := fun _ x => P x.net.os) (Triple.gets fun x hx => hx) fun text => ?_
      refine (hsay _).bind fun _ => ?_
      split <;> exact hlogged _ _
    case isFalse => split <;> exact hlogged _ _

end Sockets

end Mailfilter
