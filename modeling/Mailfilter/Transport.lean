import Mailfilter.Network
import Mailfilter.Reading

/-!
# Connections that deliver every reply

What the classes above `Connection` rely on: a command that is written reaches the server, and a read
takes everything that the server has sent and that was not read before.

* `Peer`, a server as its connection sees it, and `Peers`;
* `Transport`: the connections of the accounts do so, for servers that are given by their answers;
* `Prompt`: a system on which every reply is there when it is asked for, in pieces of any size;
* `networked_transport`: over such a system the sockets are a transport.
-/

namespace Mailfilter

open Program

/-! ### Transports -/

/-- The commands that a server was sent, and what it sent that was not read yet. -/
structure Peer where
  sent : List Bytes
  unread : Bytes
  deriving DecidableEq

/-- The servers by the numbers of the sockets; a server that was not connected to has none. -/
abbrev Peers := ℕ → Option Peer

/-- The servers, with one of them in a new state. -/
def Peers.put (v : Peers) (sock : ℕ) (p : Peer) : Peers := Function.update v sock (some p)

@[simp] theorem Peers.put_self (v : Peers) (sock : ℕ) (p : Peer) : v.put sock p sock = some p :=
  Function.update_self ..

@[simp] theorem Peers.put_put (v : Peers) (sock : ℕ) (p q : Peer) :
    (v.put sock p).put sock q = v.put sock q :=
  Function.update_idem ..

theorem Peers.put_of_ne (v : Peers) {sock sock' : ℕ} (p : Peer) (h : sock' ≠ sock) :
    v.put sock p sock' = v sock' :=
  Function.update_of_ne h ..

/-- A reply that can be read at once: there is something, it has no NUL and is not too long, and where
a whole header is to be read it looks like one. -/
structure Whole (bound : ℕ) (header : Bool) (r : Bytes) : Prop where
  ne_nil : r ≠ []
  noNul : 0 ∉ r
  length_lt : r.length < bound
  stops : header = true → StopsAt r

/-- The connections are talked over with servers that answer a command by all commands so far; the
greeting is the answer to none. -/
structure Transport {σ : Type} (conns : ℕ → Connection σ) (answer : ℕ → List Bytes → Bytes)
    (bound : ℕ) (Shows : Peers → σ → Prop) : Prop where
  cOpen : ∀ v sock host port timeOut protocol, v sock = none →
    Triple (fun w => Shows v w.net) ((conns sock).cOpen host port timeOut protocol)
      (fun ret w => ret = 0 ∧ Shows (v.put sock ⟨[], answer sock []⟩) w.net) fun _ _ => False
  cWrite : ∀ v sock p msg, v sock = some p → 0 ∉ msg →
    Triple (fun w => Shows v w.net) ((conns sock).cWrite msg)
      (fun ret w => ret ≠ -1 ∧
        Shows (v.put sock ⟨p.sent ++ [msg], p.unread ++ answer sock (p.sent ++ [msg])⟩) w.net)
      fun _ _ => False
  cRead : ∀ v sock p header, v sock = some p → Whole bound header p.unread →
    Triple (fun w => Shows v w.net) ((conns sock).cRead header)
      (fun ret w => 0 < ret ∧ Shows (v.put sock ⟨p.sent, []⟩) w.net ∧
        (conns sock).cReply w.net = some p.unread) fun _ _ => False
  cClose : ∀ v sock,
    Triple (fun w => Shows v w.net) (conns sock).cClose (fun ret w => ret = 0 ∧ Shows v w.net)
      fun _ _ => False

/-! ### Prompt systems -/

/-- A chunk from what the server has sent: something, if there is something. -/
def Takes {ω : Type} (On : Peers → ω → Prop) (v : Peers) (sock : ℕ) (p : Peer) (c : Option Chunk)
    (s : ω) : Prop :=
  ∃ k, Socket.data c = p.unread.take k ∧ (p.unread ≠ [] → 0 < k) ∧
    On (v.put sock ⟨p.sent, p.unread.drop k⟩) s

/-- No call fails, `select` never waits in vain, and `recv` and `SSL_read` deliver pieces of the
replies for as long as something is left of them. -/
structure Prompt {ω : Type} (os : ℕ → Os ω) (answer : ℕ → List Bytes → Bytes)
    (On : Peers → ω → Prop) : Prop where
  openCall : ∀ v sock call s, (∀ port, call ≠ .connect port) → On v s →
    ((os sock).openCall call s).1 = .done true ∧ On v ((os sock).openCall call s).2
  connect : ∀ v sock port s, v sock = none → On v s →
    ((os sock).openCall (.connect port) s).1 = .done true ∧
      On (v.put sock ⟨[], answer sock []⟩) ((os sock).openCall (.connect port) s).2
  close : ∀ v sock s, On v s → ((os sock).close s).1 = 0 ∧ On v ((os sock).close s).2
  sslShutdown : ∀ v sock s, On v s → On v ((os sock).sslShutdown s)
  sslSet : ∀ v sock s, On v s → (os sock).sslSet s = true
  getFlags : ∀ v sock s, On v s →
    (∃ flags, ((os sock).getFlags s).1 = some flags) ∧ On v ((os sock).getFlags s).2
  setFlags : ∀ v sock flags s, On v s →
    ((os sock).setFlags flags s).1 = true ∧ On v ((os sock).setFlags flags s).2
  select : ∀ v sock p timeOut s, v sock = some p → p.unread ≠ [] → On v s →
    ((os sock).select timeOut s).1 = .ready true ∧ On v ((os sock).select timeOut s).2
  recv : ∀ v sock p s, v sock = some p → On v s →
    Takes On v sock p ((os sock).recv s).1 ((os sock).recv s).2
  sslRead : ∀ v sock p s, v sock = some p → On v s →
    ((os sock).sslRead s).1.2 ≠ .other ∧
      Takes On v sock p ((os sock).sslRead s).1.1 ((os sock).sslRead s).2
  write : ∀ v sock p msg s, v sock = some p → On v s →
    ((os sock).write msg s).1 ≠ -1 ∧
      On (v.put sock ⟨p.sent ++ [msg], p.unread ++ answer sock (p.sent ++ [msg])⟩)
        ((os sock).write msg s).2
  sslWrite : ∀ v sock p msg s, v sock = some p → On v s →
    ((os sock).sslWrite msg s).1 ≠ -1 ∧
      On (v.put sock ⟨p.sent ++ [msg], p.unread ++ answer sock (p.sent ++ [msg])⟩)
        ((os sock).sslWrite msg s).2

namespace Socket

variable {ω α : Type} {os : ℕ → Os ω} {answer : ℕ → List Bytes → Bytes} {On : Peers → ω → Prop}
  {v v' : Peers} {sock : ℕ} {p : Peer} {E : Halt → Wire (Socket ω) → Prop}

/-- A call of the system with a known result. -/
theorem sys_result {f : ω → α × ω} {a : α} {J K : ω → Prop}
    (hf : ∀ s, J s → (f s).1 = a ∧ K (f s).2) :
    Triple (OnOs J) (sys f) (fun b w => b = a ∧ OnOs K w) E :=
  Triple.of_exec fun w hw => hf w.net.os hw

theorem say_os {J : ω → Prop} (call : LogCall) :
    Triple (OnOs J) (say call : Call ω Unit) (fun _ => OnOs J) E :=
  Triple.modify fun _ hw => hw

theorem store_eq {input chunk : Bytes} (h : 0 ∉ chunk) : store input chunk = input ++ chunk := by
  unfold store
  split_ifs with hempty hinput
  · rw [List.length_eq_zero_iff.mp hempty, List.append_nil]
  · rfl
  · rw [List.length_eq_zero_iff.mp (not_not.mp hinput), cstr_of_noNul h, List.nil_append]

theorem headerOpen_of_stopsAt {r : Bytes} (h : StopsAt r) : headerOpen r = some false := by
  have hlen : 3 ≤ r.length := h.elim (fun h => h.length_le) fun h => le_trans (by decide) h.length_le
  rw [headerOpen_of_le hlen, decide_eq_true h]
  rfl

/-! ### Opening, closing and writing -/

section Calls

variable (h : Prompt os answer On)

include h

/-- A call within the `sigsetjmp` block that succeeds. -/
theorem guarded_prompt {call : OpenCall} (hcall : ∀ port, call ≠ .connect port)
    {next : Bool → Call ω Int32} {Q : Int32 → Wire (Socket ω) → Prop}
    (hnext : Triple (OnOs (On v)) (next true) Q E) :
    Triple (OnOs (On v)) (guarded (os sock) call next) Q E := by
  refine (sys_result fun s => h.openCall v sock call s hcall).bind fun r => Triple.of_fact fun hr => ?_
  subst hr
  exact hnext

theorem opened_prompt : Triple (OnOs (On v)) (opened (os sock)) (fun ret w => ret = 0 ∧ OnOs (On v) w)
    E := by
  refine (sys_result fun s => h.openCall v sock (.alarm 0) s (by simp)).bind fun _ => ?_
  exact Triple.pure fun _ hw => ⟨rfl, hw.2⟩

theorem cOpen_prompt (host : Bytes) (port : ℤ) (timeOut : Int32) (protocol : ℕ)
    (hnone : v sock = none) :
    Triple (OnOs (On v)) (cOpen (os sock) host port timeOut protocol)
      (fun ret w => ret = 0 ∧ OnOs (On (v.put sock ⟨[], answer sock []⟩)) w) E := by
  have hconnected : Triple (OnOs (On (v.put sock ⟨[], answer sock []⟩)))
      (do if ← Program.gets fun w => w.net.sslUsed then negotiate (os sock) host
          else opened (os sock) : Call ω Int32)
      (fun ret w => ret = 0 ∧ OnOs (On (v.put sock ⟨[], answer sock []⟩)) w) E := by
    refine Triple.bind (R := fun _ => OnOs (On (v.put sock ⟨[], answer sock []⟩)))
      (Triple.gets fun _ hw => hw) fun _ => Triple.ite (fun _ => ?_) fun _ => opened_prompt h
    exact guarded_prompt h (by simp) (guarded_prompt h (by simp) (guarded_prompt h (by simp)
      (opened_prompt h)))
  have hdial : Triple (OnOs (On v))
      (guarded (os sock) .socket fun ok =>
        if !ok then openFailure (os sock) (bytes "DNS look up error; is the hostname correct?")
        else guarded (os sock) (.gethostbyname host) fun ok =>
          if !ok then openFailure (os sock) (bytes "DNS look up error; is the hostname correct?")
          else guarded (os sock) (.connect port) fun ok =>
            if !ok then
              openFailure (os sock) (bytes "Server connection could not be established.")
            else do
              if ← Program.gets fun w => w.net.sslUsed then negotiate (os sock) host
              else opened (os sock))
      (fun ret w => ret = 0 ∧ OnOs (On (v.put sock ⟨[], answer sock []⟩)) w) E := by
    refine guarded_prompt h (by simp) (guarded_prompt h (by simp) ?_)
    refine (sys_result fun s => h.connect v sock port s hnone).bind fun r => Triple.of_fact fun hr => ?_
    subst hr
    exact hconnected
  refine Triple.bind (R := fun _ => OnOs (On v)) (Triple.modify fun _ hw => hw) fun _ => ?_
  refine (sys_result fun s => h.openCall v sock .sigaction s (by simp)).bind fun r =>
    Triple.of_fact fun hr => ?_
  subst hr
  refine guarded_prompt h (by simp) (Triple.ite (fun _ => ?_) fun _ => ?_)
  · exact (say_os _).bind fun _ => Triple.bind (R := fun _ => OnOs (On v))
      (Triple.modify fun _ hw => hw) fun _ => hdial
  · exact (say_os _).bind fun _ => hdial

theorem cClose_prompt :
    Triple (OnOs (On v)) (cClose (os sock)) (fun ret w => ret = 0 ∧ OnOs (On v) w) E := by
  refine Triple.bind (R := fun _ => OnOs (On v)) (Triple.gets fun _ hw => hw) fun _ =>
    Triple.ite (fun _ => ?_) fun _ => sys_result fun s => h.close v sock s
  exact Triple.bind (R := fun _ => OnOs (On v))
    (Triple.of_exec fun w hw => h.sslShutdown v sock w.net.os hw) fun _ =>
      sys_result fun s => h.close v sock s

theorem cWrite_prompt {msg : Bytes} (hp : v sock = some p) (hmsg : 0 ∉ msg) :
    Triple (OnOs (On v)) (cWrite (os sock) msg)
      (fun ret w => ret ≠ -1 ∧ OnOs (On (v.put sock
        ⟨p.sent ++ [msg], p.unread ++ answer sock (p.sent ++ [msg])⟩)) w) E := by
  let told := v.put sock ⟨p.sent ++ [msg], p.unread ++ answer sock (p.sent ++ [msg])⟩
  have hsend : ∀ ssl : Bool, Triple (OnOs (On v))
      (sys (if ssl then (os sock).sslWrite (cstr msg) else (os sock).write (cstr msg)))
      (fun ret w => ret ≠ -1 ∧ OnOs (On told) w) E := by
    intro ssl
    rw [cstr_of_noNul hmsg]
    cases ssl with
    | true => exact Triple.of_exec fun w hw => h.sslWrite v sock p msg w.net.os hp hw
    | false => exact Triple.of_exec fun w hw => h.write v sock p msg w.net.os hp hw
  refine Triple.bind (R := fun _ => OnOs (On v)) (Triple.gets fun _ hw => hw) fun ssl =>
    (hsend ssl).bind fun sent => Triple.of_fact fun hsent => ?_
  have hlogged : Triple (OnOs (On told)) (if !(bytes "PASS ").isPrefixOf (cstr msg) then do
        say (printMsg (bytes "Debugging: Wrote: " ++ cstr msg) 6)
        pure sent
      else do
        say (printMsg (bytes "Debugging: Wrote: PASS *****") 6)
        pure sent : Call ω Int32) (fun ret w => ret ≠ -1 ∧ OnOs (On told) w) E :=
    Triple.ite (fun _ => (say_os _).bind fun _ => Triple.pure fun _ hw => ⟨hsent, hw⟩)
      fun _ => (say_os _).bind fun _ => Triple.pure fun _ hw => ⟨hsent, hw⟩
  refine Triple.ite (fun _ => ?_) fun _ => hlogged
  exact Triple.bind (R := fun _ => OnOs (On told)) (Triple.gets fun _ hw => hw) fun _ =>
    (say_os _).bind fun _ => hlogged

/-! ### Reading -/

theorem readOnce_prompt (ssl : Bool) {s : ω} (hp : v sock = some p) (hs : On v s) :
    ∃ c, (readOnce (os sock) ssl s).1 = some c ∧
      Takes On v sock p c (readOnce (os sock) ssl s).2 := by
  cases ssl with
  | false => exact ⟨_, rfl, h.recv v sock p s hp hs⟩
  | true =>
    obtain ⟨hok, htakes⟩ := h.sslRead v sock p s hp hs
    refine ⟨((os sock).sslRead s).1.1, ?_, ?_⟩
    · rw [readOnce, if_pos rfl, if_pos (h.sslSet v sock s hs), if_neg hok]
    · rw [readOnce, if_pos rfl, if_pos (h.sslSet v sock s hs)]
      exact htakes

/-- **The receive loop** takes all that is there. -/
theorem receive_prompt {header : Bool} {input : Bytes} {fuel : ℕ} {w : Wire (Socket ω)}
    (hp : v sock = some p) (hw : On v w.net.os) (hnul : 0 ∉ p.unread)
    (hstops : header = true → StopsAt (input ++ p.unread)) (hfuel : p.unread.length < fuel) :
    ∃ s log, exec (receive (os sock) header fuel input) w =
        (.ok (some (input ++ p.unread)), w.after s log) ∧ On (v.put sock ⟨p.sent, []⟩) s := by
  induction fuel generalizing v p input w with
  | zero => omega
  | succ fuel ih =>
    obtain ⟨log, -, hround⟩ := exec_receive_read (os sock) header input w
    obtain ⟨c, honce, k, hdata, hk, hon⟩ := readOnce_prompt h w.net.sslUsed hp hw
    rw [hround, honce]
    dsimp only
    by_cases hempty : p.unread = []
    · -- nothing is left: the reply is complete
      have hnone : data c = [] := by rw [hdata, hempty, List.take_nil]
      rw [hempty, List.drop_nil] at hon
      rw [hempty, List.append_nil] at hstops ⊢
      rw [hnone, if_neg (by simp)]
      refine ⟨_, log, ?_, hon⟩
      cases header with
      | false => rfl
      | true => rw [if_neg (by simp), headerOpen_of_stopsAt (hstops rfl)]
    · have hpos : 0 < (data c).length := by
        rw [hdata, List.length_take]
        exact lt_min (hk hempty) (List.length_pos_iff.mpr hempty)
      have hchunk : 0 ∉ data c := fun hmem => hnul (List.mem_of_mem_take (hdata ▸ hmem))
      have hsplit : input ++ p.unread = input ++ data c ++ p.unread.drop k := by
        rw [hdata, List.append_assoc, List.take_append_drop]
      rw [if_pos hpos, store_eq hchunk, hsplit]
      have hless : (p.unread.drop k).length < fuel := by
        have := hk hempty
        have := List.length_pos_iff.mpr hempty
        rw [List.length_drop]
        omega
      let next : Wire (Socket ω) := w.after (readOnce (os sock) w.net.sslUsed w.net.os).2 log
      have hnext : On (v.put sock ⟨p.sent, p.unread.drop k⟩) next.net.os := hon
      obtain ⟨s, log', hrun, hs⟩ := ih (Peers.put_self ..) hnext
        (fun hmem => hnul (List.mem_of_mem_drop hmem)) (fun hh => hsplit ▸ hstops hh) hless
      rw [Peers.put_put] at hs
      exact ⟨s, log', hrun, hs⟩

/-- What a read stores is the reply. -/
def Stored (J : ω → Prop) (r : Bytes) (w : Wire (Socket ω)) : Prop :=
  OnOs J w ∧ w.net.readBuffer = some r

theorem cRead_prompt {bound fuel : ℕ} {header : Bool} (hp : v sock = some p)
    (hwhole : Whole bound header p.unread) (hfuel : bound ≤ fuel) (hbound : bound ≤ 2 ^ 31) :
    Triple (OnOs (On v)) (cRead (os sock) fuel header)
      (fun ret w => 0 < ret ∧ Stored (On (v.put sock ⟨p.sent, []⟩)) p.unread w) E := by
  have hlen := hwhole.length_lt
  have hpos : 0 < p.unread.length := List.length_pos_iff.mpr hwhole.ne_nil
  let heard := On (v.put sock ⟨p.sent, []⟩)
  refine Triple.bind (R := fun flags w => (∃ n, flags = some n) ∧ OnOs (On v) w)
    (Triple.of_exec fun w hw => h.getFlags v sock w.net.os hw) fun flags => Triple.of_fact ?_
  rintro ⟨n, rfl⟩
  refine (sys_result fun s => h.setFlags v sock _ s).bind fun ok => Triple.of_fact fun hok => ?_
  subst hok
  refine Triple.bind (R := fun _ => OnOs (On v)) (Triple.gets fun _ hw => hw) fun timeOut => ?_
  refine (sys_result fun s => h.select v sock p timeOut s hp hwhole.ne_nil).bind fun selected =>
    Triple.of_fact fun hselected => ?_
  subst hselected
  refine Triple.bind (R := fun received w => received = some p.unread ∧ OnOs heard w)
    (Triple.of_exec fun w hw => ?_) fun received => Triple.of_fact fun hreceived => ?_
  · obtain ⟨s, log, hrun, hs⟩ := receive_prompt h hp hw hwhole.noNul
      (show header = true → StopsAt ([] ++ p.unread) from hwhole.stops)
      (show p.unread.length < fuel by omega)
    rw [hrun]
    exact ⟨rfl, hs⟩
  · subst hreceived
    refine Triple.ite (fun hnil => absurd hnil hpos.ne') fun _ => (say_os _).bind fun _ => ?_
    refine (sys_result fun s => h.setFlags _ sock n s).bind fun ok => Triple.of_fact fun hok => ?_
    subst hok
    refine Triple.bind (R := fun _ => Stored heard p.unread) (Triple.modify fun _ hw => ⟨hw, rfl⟩)
      fun _ => Triple.pure fun _ hw => ⟨?_, hw⟩
    rw [Int32.lt_iff_toInt_lt, Int32.toInt_ofNat_of_lt (by omega)]
    exact Int.natCast_pos.mpr hpos

end Calls

end Socket

/-! ### The sockets of the accounts -/

/-- A member function of a socket, by what it does with the system and the socket. -/
theorem onSocket_stored {ω α : Type} {sock : ℕ} {p : Socket.Call ω α} {J : ω → Prop}
    {Q : α → Wire (Socket ω) → Prop} {R : α → Wire (Net ω) → Prop} {E : Halt → Wire (Net ω) → Prop}
    (hp : Triple (Socket.OnOs J) p Q fun _ _ => False)
    (hQ : ∀ a x (net : Net ω), Q a x → R a ⟨net.put sock x.net, x.log⟩) :
    Triple (fun w => J w.net.os) (onSocket sock p) R E :=
  Triple.onPart (fun _ => hp) (fun _ hs => hs) (fun s a x _ hx => hQ a x s.net hx)
    fun _ _ _ _ hx => hx.elim

/-- Over a prompt system the sockets are a transport, when the bound on the rounds of the receive loop
leaves room for the replies. -/
theorem networked_transport {ω : Type} {os : ℕ → Os ω} {answer : ℕ → List Bytes → Bytes}
    {On : Peers → ω → Prop} (h : Prompt os answer On) {bound fuel : ℕ} (hfuel : bound ≤ fuel)
    (hbound : bound ≤ 2 ^ 31) :
    Transport (networked os fuel) answer bound fun v net => On v net.os where
  cOpen _ _ host port timeOut protocol hnone :=
    onSocket_stored (Socket.cOpen_prompt h host port timeOut protocol hnone) fun _ _ _ hx => hx
  cWrite _ _ _ _ hp hmsg := onSocket_stored (Socket.cWrite_prompt h hp hmsg) fun _ _ _ hx => hx
  cRead _ _ _ _ hp hwhole :=
    onSocket_stored (Socket.cRead_prompt h hp hwhole hfuel hbound) fun _ x net hx =>
      ⟨hx.1, hx.2.1, by
        show ((net.put _ x.net).socket _).readBuffer = _
        simpa [Net.put, Net.socket] using hx.2.2⟩
  cClose _ _ := onSocket_stored (Socket.cClose_prompt h) fun _ _ _ hx => hx

end Mailfilter
