import Mailfilter.Socket

/-!
# Reading a multi-line reply

What `Socket::c_read (true)` stores when a multi-line reply arrives in pieces.

* `Multiline` and `MultilineReply`, the replies of the protocol that end in a line with a dot;
* `Schedule`, the pieces with the number of would-block results behind each, and `scriptOs`, the system
  that delivers them;
* `StopsAt`: `c_read` takes the input for a whole header;
* `exec_receive`: the receive loop stops at the first would-block result at such a point;
* `cRead_exact_iff`: it reads the whole reply if and only if no such result comes too early.
-/

namespace Mailfilter

open Program

/-! ### Replies and schedules -/

/-- The end of a multi-line reply. -/
def terminator : Bytes := bytes "\r\n.\r\n"

/-- A multi-line reply, with its end nowhere else. -/
structure Multiline (R : Bytes) : Prop where
  ok : bytes "+OK" <+: R
  ends : terminator <:+ R
  once : ∀ u v, R = u ++ terminator ++ v → v = []

/-- A multi-line reply without NUL. -/
structure MultilineReply (R : Bytes) : Prop extends Multiline R where
  noNul : 0 ∉ R

/-- A piece of a reply, delivered by one call of `recv`. -/
abbrev Piece := { b : Bytes // b ≠ [] ∧ b.length ≤ maxBytes }

/-- The pieces of a reply, with the number of would-block results behind each. -/
abbrev Schedule := List (Piece × ℕ)

def Piece.chunk (p : Piece) : Chunk := ⟨p.1, p.2.2⟩

/-- All that is delivered. -/
def content (sch : Schedule) : Bytes := sch.flatMap fun x => x.1.1

/-- The results of `recv`. -/
def script (sch : Schedule) : List (Option Chunk) :=
  sch.flatMap fun x => some x.1.chunk :: List.replicate x.2 none

/-- A system that delivers what is in the script, and then would block. -/
def scriptOs : Os (List (Option Chunk)) where
  openCall _ s := (.done true, s)
  close s := (0, s)
  sslShutdown s := s
  sslSet _ := false
  getFlags s := (some 0, s)
  setFlags _ s := (true, s)
  select _ s := (.ready true, s)
  recv s := (s.headD none, s.tail)
  sslRead s := ((none, .other), s)
  write msg s := (Int32.ofNat msg.length, s)
  sslWrite _ s := (-1, s)
  strerror _ := []

/-- `c_read (true)` takes the input for a whole header. -/
def StopsAt (input : Bytes) : Prop := bytes ".\r\n" <:+ input ∨ Socket.fetchCompleted <:+: input

instance (input : Bytes) : Decidable (StopsAt input) := inferInstanceAs (Decidable (_ ∨ _))

/-- No would-block result comes, behind a part of the input, at a point that `c_read` takes for the end. -/
def Gentle (input : Bytes) (sch : Schedule) : Prop :=
  ∀ pre x post, sch = pre ++ x :: post → post ≠ [] → 0 < x.2 →
    ¬ StopsAt (input ++ content (pre ++ [x]))

/-! ### The end condition -/

theorem fromEnd_append (u : Bytes) {v : Bytes} (hv : v ≠ []) :
    Socket.fromEnd (u ++ v) v.length = v.head? := by
  have hpos := List.length_pos_iff.2 hv
  rw [Socket.fromEnd, if_pos (by simp), List.length_append, Nat.add_sub_cancel,
    List.getElem?_append_right le_rfl, Nat.sub_self, List.head?_eq_getElem?]

theorem stopsAt_append (u : Bytes) (a b c : UInt8) :
    bytes ".\r\n" <:+ u ++ [a, b, c] ↔ a = chr '.' ∧ b = chr '\r' ∧ c = chr '\n' := by
  rw [show bytes ".\r\n" = [chr '.', chr '\r', chr '\n'] by decide]
  constructor
  · rintro ⟨t, ht⟩
    have h := (List.append_inj' ht rfl).2
    simpa [eq_comm] using h
  · rintro ⟨rfl, rfl, rfl⟩
    exact ⟨u, rfl⟩

theorem exists_lastThree {q : Bytes} (h : 3 ≤ q.length) : ∃ u a b c, q = u ++ [a, b, c] := by
  have hlen : (q.drop (q.length - 3)).length = 3 := by rw [List.length_drop]; omega
  obtain ⟨a, b, c, habc⟩ := List.length_eq_three.1 hlen
  exact ⟨q.take (q.length - 3), a, b, c, by rw [← habc, List.take_append_drop]⟩

/-- From three bytes on the condition of the loop is defined, and decides `StopsAt`. -/
theorem headerOpen_of_le {q : Bytes} (h : 3 ≤ q.length) :
    Socket.headerOpen q = some (!decide (StopsAt q)) := by
  obtain ⟨u, a, b, c, rfl⟩ := exists_lastThree h
  have h1 : Socket.fromEnd (u ++ [a, b, c]) 1 = some c := by
    simpa using fromEnd_append (u ++ [a, b]) (List.cons_ne_nil c [])
  have h2 : Socket.fromEnd (u ++ [a, b, c]) 2 = some b := by
    simpa using fromEnd_append (u ++ [a]) (List.cons_ne_nil b [c])
  have h3 : Socket.fromEnd (u ++ [a, b, c]) 3 = some a := fromEnd_append u (List.cons_ne_nil a [b, c])
  unfold Socket.headerOpen StopsAt
  rw [h1, h2, h3]
  simp only [stopsAt_append]
  by_cases hc : c = chr '\n' <;> by_cases hb : b = chr '\r' <;> by_cases ha : a = chr '.' <;>
    simp [ha, hb, hc]

/-- At every point of a reply it is. -/
theorem headerOpen_eq {q R : Bytes} (hR : bytes "+OK" <+: R) (hq : q <+: R) (hne : q ≠ []) :
    Socket.headerOpen q = some (!decide (StopsAt q)) := by
  rcases lt_or_ge q.length 3 with hlt | hge
  · -- the first two characters are no line end
    have hpre : q <+: bytes "+OK" := List.prefix_of_prefix_length_le hq hR (by
      rw [show (bytes "+OK").length = 3 by decide]; omega)
    have hmem : q ∈ (bytes "+OK").inits := (List.mem_inits _ _).2 hpre
    rw [show (bytes "+OK").inits = [[], [43], [43, 79], [43, 79, 75]] by decide] at hmem
    simp only [List.mem_cons, List.not_mem_nil, or_false] at hmem
    rcases hmem with rfl | rfl | rfl | rfl
    · exact absurd rfl hne
    · decide
    · decide
    · decide
  · exact headerOpen_of_le hge

/-- The header is found complete only where it looks complete. -/
theorem stopsAt_of_headerOpen {q : Bytes} (h : Socket.headerOpen q = some false) : StopsAt q := by
  rcases lt_or_ge q.length 3 with hlt | hge
  · refine Or.inr ?_
    by_contra hfetch
    have h3 : Socket.fromEnd q 3 = none := if_neg (Nat.not_le.2 hlt)
    unfold Socket.headerOpen at h
    rw [h3] at h
    cases h1 : Socket.fromEnd q 1 <;> cases h2 : Socket.fromEnd q 2 <;> rw [h1, h2] at h <;>
      simp [hfetch] at h
    split_ifs at h <;> cases h
  · rw [headerOpen_of_le hge] at h
    simpa using h

/-! ### Stopping -/

/-- Where the receive loop stops, and what is then left of the script. -/
def stopping : Bytes → Schedule → Bytes × List (Option Chunk)
  | input, [] => (input, [])
  | input, (p, n) :: sch =>
    if 0 < n ∧ StopsAt (input ++ p.1) then (input ++ p.1, List.replicate (n - 1) none ++ script sch)
    else stopping (input ++ p.1) sch

@[simp] theorem content_nil : content [] = [] := rfl

@[simp] theorem content_cons (p : Piece) (n : ℕ) (sch : Schedule) :
    content ((p, n) :: sch) = p.1 ++ content sch := rfl

theorem content_eq_nil {sch : Schedule} (h : content sch = []) : sch = [] := by
  cases sch with
  | nil => rfl
  | cons x sch => exact absurd (List.append_eq_nil_iff.1 h).1 x.1.2.1

theorem gentle_cons {input : Bytes} {p : Piece} {n : ℕ} {sch : Schedule} :
    Gentle input ((p, n) :: sch) ↔
      (sch ≠ [] → 0 < n → ¬ StopsAt (input ++ p.1)) ∧ Gentle (input ++ p.1) sch := by
  constructor
  · intro h
    refine ⟨fun hne hn => by simpa using h [] (p, n) sch rfl hne hn, ?_⟩
    rintro pre x post rfl hne hx
    simpa using h ((p, n) :: pre) x post rfl hne hx
  · rintro ⟨hhead, htail⟩ pre x post hsch hne hx
    cases pre with
    | nil =>
      cases hsch
      simpa using hhead hne hx
    | cons y pre =>
      cases hsch
      simpa using htail pre x post rfl hne hx

/-- The loop stops at the end if and only if nothing stops it before. -/
theorem stopping_eq_iff (input : Bytes) (sch : Schedule) :
    (stopping input sch).1 = input ++ content sch ↔ Gentle input sch := by
  induction sch generalizing input with
  | nil =>
    refine ⟨fun _ pre x post h => absurd h (by simp), fun _ => by simp [stopping]⟩
  | cons x sch ih =>
    obtain ⟨p, n⟩ := x
    rw [gentle_cons, stopping, content_cons, ← List.append_assoc]
    by_cases hstop : 0 < n ∧ StopsAt (input ++ p.1)
    · rw [if_pos hstop, List.self_eq_append_right]
      constructor
      · intro h
        obtain rfl := content_eq_nil h
        exact ⟨fun hne => absurd rfl hne, fun pre x post h => absurd h (by simp)⟩
      · rintro ⟨hhead, -⟩
        by_contra hne
        exact hhead (fun h => hne (h ▸ rfl)) hstop.1 hstop.2
    · rw [if_neg hstop, ih]
      exact ⟨fun h => ⟨fun _ hn hs => hstop ⟨hn, hs⟩, h⟩, And.right⟩

theorem prefix_stopping (input : Bytes) (sch : Schedule) : input <+: (stopping input sch).1 := by
  induction sch generalizing input with
  | nil => exact List.prefix_refl _
  | cons x sch ih =>
    rw [stopping]
    split_ifs
    · exact List.prefix_append ..
    · exact (List.prefix_append ..).trans (ih _)

theorem stopping_ne_nil {sch : Schedule} (h : sch ≠ []) : (stopping [] sch).1 ≠ [] := by
  obtain ⟨⟨p, n⟩, sch, rfl⟩ := List.exists_cons_of_ne_nil h
  rw [stopping]
  split_ifs
  · exact p.2.1
  · intro hnil
    have hpre := prefix_stopping ([] ++ p.1) sch
    rw [hnil] at hpre
    exact p.2.1 (List.prefix_nil.1 hpre)

/-- What is delivered when the loop stops is gone. -/
theorem stopping_append (input : Bytes) (sch : Schedule) :
    (stopping input sch).1 ++ (stopping input sch).2.flatMap Socket.data = input ++ content sch := by
  have hscript : ∀ sch : Schedule, (script sch).flatMap Socket.data = content sch := by
    intro sch
    induction sch with
    | nil => rfl
    | cons x sch ih =>
      obtain ⟨p, n⟩ := x
      rw [content_cons, ← ih]
      simp [script, Piece.chunk, Socket.data, List.flatMap_replicate]
  induction sch generalizing input with
  | nil => simp [stopping]
  | cons x sch ih =>
    obtain ⟨p, n⟩ := x
    rw [stopping]
    split_ifs
    · simp [List.flatMap_append, hscript, List.flatMap_replicate, Socket.data]
    · rw [ih, content_cons, List.append_assoc]

/-! ### The receive loop -/

section Loop

variable {R : Bytes} {w : Wire (Socket (List (Option Chunk)))} {input : Bytes} {fuel : ℕ}

/-- The wire with another script. -/
def rescript (w : Wire (Socket (List (Option Chunk)))) (s : List (Option Chunk)) :
    Wire (Socket (List (Option Chunk))) :=
  { w with net := { w.net with os := s } }

theorem exec_receive_script (hplain : w.net.sslUsed = false) :
    exec (Socket.receive scriptOs true (fuel + 1) input) w =
      let w' := rescript w w.net.os.tail
      let piece := Socket.data (w.net.os.headD none)
      if 0 < piece.length then exec (Socket.receive scriptOs true fuel (Socket.store input piece)) w'
      else match Socket.headerOpen input with
        | none => (.error .undefined, w')
        | some true => exec (Socket.receive scriptOs true fuel input) w'
        | some false => (.ok (some input), w') := by
  have hread : Socket.readOnce scriptOs w.net.sslUsed w.net.os =
      (some (w.net.os.headD none), w.net.os.tail) := by
    rw [hplain]
    rfl
  obtain ⟨log, hlog, hround⟩ := Socket.exec_receive_read scriptOs true input w
  rw [hround, hread, hlog hplain]
  rfl

/-- A piece is appended to the input. -/
theorem exec_receive_piece (hplain : w.net.sslUsed = false) {p : Piece} {s : List (Option Chunk)}
    (hos : w.net.os = some p.chunk :: s) (hnul : 0 ∉ p.1) :
    exec (Socket.receive scriptOs true (fuel + 1) input) w =
      exec (Socket.receive scriptOs true fuel (input ++ p.1)) (rescript w s) := by
  have hpos : 0 < p.1.length := List.length_pos_iff.2 p.2.1
  have hstore : Socket.store input p.1 = input ++ p.1 := by
    unfold Socket.store
    rw [if_neg hpos.ne']
    split_ifs with hlen
    · rfl
    · rw [List.length_eq_zero_iff.1 (not_not.1 hlen), cstr_of_noNul hnul, List.nil_append]
  have hdata : Socket.data ((some p.chunk :: s).headD none) = p.1 := rfl
  rw [exec_receive_script hplain, hos]
  simp only [hdata, if_pos hpos, hstore, List.tail_cons]

/-- A would-block result is looked at with the end condition. -/
theorem exec_receive_block (hplain : w.net.sslUsed = false) (hR : bytes "+OK" <+: R)
    (hq : input <+: R) (hne : input ≠ []) {s : List (Option Chunk)} (hos : w.net.os.headD none = none)
    (htail : w.net.os.tail = s) :
    exec (Socket.receive scriptOs true (fuel + 1) input) w =
      if StopsAt input then (.ok (some input), rescript w s)
      else exec (Socket.receive scriptOs true fuel input) (rescript w s) := by
  rw [exec_receive_script hplain, hos, htail]
  simp only [Socket.data, List.length_nil, lt_irrefl, if_false, headerOpen_eq hR hq hne]
  by_cases hstop : StopsAt input <;> simp [hstop]

/-- Several of them. -/
theorem exec_receive_blocks (hplain : w.net.sslUsed = false) (hR : bytes "+OK" <+: R)
    (hq : input <+: R) (hne : input ≠ []) (n : ℕ) {s : List (Option Chunk)}
    (hos : w.net.os = List.replicate n none ++ s) :
    exec (Socket.receive scriptOs true (fuel + n) input) w =
      if 0 < n ∧ StopsAt input then (.ok (some input), rescript w (List.replicate (n - 1) none ++ s))
      else exec (Socket.receive scriptOs true fuel input) (rescript w s) := by
  induction n generalizing w with
  | zero =>
    have hw : rescript w s = w := by rw [List.replicate_zero, List.nil_append] at hos; rw [← hos]; rfl
    simp [hw]
  | succ n ih =>
    rw [List.replicate_succ, List.cons_append] at hos
    rw [← Nat.add_assoc, exec_receive_block hplain hR hq hne (by rw [hos]; rfl)
      (by rw [hos, List.tail_cons])]
    by_cases hstop : StopsAt input
    · simp [hstop]
    · rw [if_neg hstop, if_neg fun h => hstop h.2,
        ih (w := rescript w (List.replicate n none ++ s)) hplain rfl, if_neg fun h => hstop h.2]
      rfl

/-- **The receive loop** stops at the first would-block result at a point that looks like the end. -/
theorem exec_receive (hR : bytes "+OK" <+: R) (hnul : 0 ∉ R) (hend : StopsAt R) {sch : Schedule}
    (hcat : input ++ content sch = R) (hfuel : (script sch).length < fuel)
    (hplain : w.net.sslUsed = false) (hos : w.net.os = script sch) :
    exec (Socket.receive scriptOs true fuel input) w =
      (.ok (some (stopping input sch).1), rescript w (stopping input sch).2) := by
  induction sch generalizing input fuel w with
  | nil =>
    obtain ⟨fuel, rfl⟩ := Nat.exists_eq_succ_of_ne_zero (Nat.ne_of_gt (Nat.zero_lt_of_lt hfuel))
    rw [content_nil, List.append_nil] at hcat
    subst hcat
    have hne : input ≠ [] := fun h => by
      rw [h] at hR
      exact absurd (List.prefix_nil.1 hR) (by decide)
    rw [exec_receive_block hplain hR (List.prefix_refl _) hne (s := []) (by rw [hos]; rfl)
      (by rw [hos]; rfl), if_pos hend]
    rfl
  | cons x sch ih =>
    obtain ⟨p, n⟩ := x
    have hscript : script ((p, n) :: sch) =
        some p.chunk :: (List.replicate n none ++ script sch) := rfl
    rw [content_cons, ← List.append_assoc] at hcat
    have hq : input ++ p.1 <+: R := ⟨content sch, hcat⟩
    have hne : input ++ p.1 ≠ [] := fun h => p.2.1 (List.append_eq_nil_iff.1 h).2
    have hpnul : 0 ∉ p.1 := fun h => hnul (hq.subset (List.mem_append_right _ h))
    obtain ⟨fuel, rfl⟩ : ∃ k, fuel = k + n + 1 := by
      rw [hscript, List.length_cons, List.length_append, List.length_replicate] at hfuel
      exact ⟨fuel - n - 1, by omega⟩
    rw [exec_receive_piece hplain (hos.trans hscript) hpnul,
      exec_receive_blocks (w := rescript w (List.replicate n none ++ script sch)) hplain hR hq hne n
        rfl, stopping]
    split_ifs
    · rfl
    · refine ih hcat ?_ hplain rfl
      rw [hscript, List.length_cons, List.length_append, List.length_replicate] at hfuel
      omega

end Loop

/-! ### Reading a header -/

/-- `c_read (true)` returns the length of the reply, stores the reply and nothing else, and leaves
nothing of it. -/
def ReadsExactly (R : Bytes) (fuel : ℕ) (w : Wire (Socket (List (Option Chunk)))) : Prop :=
  let out := exec (Socket.cRead scriptOs fuel true) w
  out.1 = .ok (Int32.ofNat R.length) ∧ out.2.net.readBuffer = some R ∧
    out.2.net.os.flatMap Socket.data = []

/-- `c_read (true)`, by the result of its loop. -/
theorem exec_cRead {fuel : ℕ} {w : Wire (Socket (List (Option Chunk)))} {input : Bytes}
    {s : List (Option Chunk)} (hne : input ≠ [])
    (hloop : exec (Socket.receive scriptOs true fuel []) w = (.ok (some input), rescript w s)) :
    ∃ log, exec (Socket.cRead scriptOs fuel true) w = (.ok (Int32.ofNat input.length),
      ⟨{ w.net with os := s, readBuffer := some input }, log⟩) := by
  have hlen : input.length ≠ 0 := fun h => hne (List.length_eq_zero_iff.1 h)
  have hsys : ∀ {α : Type} (f : List (Option Chunk) → α × List (Option Chunk)) (a : α),
      f w.net.os = (a, w.net.os) → exec (Socket.sys f) w = (.ok a, w) := by
    intro α f a h
    simp [Socket.sys, h]
  refine ⟨w.log ++ [printMsg (bytes "Debugging: Read: " ++ Socket.readText input) 6], ?_⟩
  rw [Socket.cRead, exec_bind, hsys scriptOs.getFlags (some 0) rfl]
  simp only [exec_bind, hsys (scriptOs.setFlags _) true rfl, Bool.not_true, Bool.false_eq_true,
    if_false, exec_gets, hsys (scriptOs.select _) (.ready true) rfl, hloop, if_neg hlen]
  rfl

/-- **A multi-line reply is read as a whole, and nothing but it, if and only if no would-block result
comes behind a part of it that ends in a dot and a line end** (or that contains the end of an IMAP
reply). -/
theorem cRead_exact_iff {R : Bytes} (hR : MultilineReply R) {sch : Schedule} (hsch : content sch = R)
    {fuel : ℕ} (hfuel : (script sch).length < fuel) {w : Wire (Socket (List (Option Chunk)))}
    (hplain : w.net.sslUsed = false) (hos : w.net.os = script sch) :
    ReadsExactly R fuel w ↔ Gentle [] sch := by
  have hend : StopsAt R := Or.inl (List.IsSuffix.trans ⟨bytes "\r\n", by decide⟩ hR.ends)
  have hcat : [] ++ content sch = R := hsch
  have hloop := exec_receive hR.ok hR.noNul hend hcat hfuel hplain hos
  have hsum := stopping_append [] sch
  have hiff := stopping_eq_iff [] sch
  rw [List.nil_append, hsch] at hsum hiff
  have hne : (stopping [] sch).1 ≠ [] := by
    refine stopping_ne_nil fun hnil => ?_
    rw [hnil, content_nil] at hsch
    have hok := hR.ok
    rw [← hsch] at hok
    exact absurd hok (by decide)
  obtain ⟨log, hrun⟩ := exec_cRead hne hloop
  rw [ReadsExactly, hrun, ← hiff]
  constructor
  · rintro ⟨-, hbuf, -⟩
    exact Option.some.inj hbuf
  · intro h
    refine ⟨by rw [h], by rw [h], ?_⟩
    rw [h] at hsum
    simpa using hsum

theorem Multiline.of_dropLast {R : Bytes} (hok : bytes "+OK" <+: R) (hends : terminator <:+ R)
    (honce : ¬ terminator <:+: R.dropLast) : Multiline R := by
  refine ⟨hok, hends, fun u v h => ?_⟩
  by_contra hne
  refine honce ⟨u, v.dropLast, ?_⟩
  rw [h, List.dropLast_append_of_ne_nil hne]

/-- A header with a subject that ends in a dot. -/
def hiReply : Bytes := bytes "+OK\r\nSubject: Hi.\r\n\r\n.\r\n"

theorem hiReply_multiline : MultilineReply hiReply :=
  ⟨.of_dropLast (by decide) (by decide) (by decide), by decide⟩

/-- The reply in two pieces, cut behind the subject, with would-block results behind the first. -/
def hiSchedule (n : ℕ) : Schedule :=
  [(⟨bytes "+OK\r\nSubject: Hi.\r\n", by decide⟩, n), (⟨bytes "\r\n.\r\n", by decide⟩, 0)]

/-- A socket that has not read anything yet. -/
def unread (s : List (Option Chunk)) : Wire (Socket (List (Option Chunk))) :=
  ⟨⟨s, 30, none, false⟩, []⟩

/-- One would-block result is enough to cut the header off. -/
theorem hiReply_cut :
    MultilineReply hiReply ∧ content (hiSchedule 1) = hiReply ∧
      (exec (Socket.cRead scriptOs 9 true) (unread (script (hiSchedule 1)))).2.net.readBuffer =
        some (bytes "+OK\r\nSubject: Hi.\r\n") ∧
      ¬ ReadsExactly hiReply 9 (unread (script (hiSchedule 1))) := by
  have hbuf : (exec (Socket.cRead scriptOs 9 true)
      (unread (script (hiSchedule 1)))).2.net.readBuffer = some (bytes "+OK\r\nSubject: Hi.\r\n") := by
    decide +kernel
  refine ⟨hiReply_multiline, by decide, hbuf, fun h => ?_⟩
  exact absurd (hbuf.symm.trans h.2.1) (by decide)

/-- Without it the whole reply is read. -/
theorem cRead_exact_iff_hi : ReadsExactly hiReply 9 (unread (script (hiSchedule 0))) := by
  have hsch : content (hiSchedule 0) = hiReply := by decide
  refine (cRead_exact_iff hiReply_multiline hsch (by decide) rfl rfl).2 ?_
  exact gentle_cons.2 ⟨fun _ h => absurd h (lt_irrefl 0),
    gentle_cons.2 ⟨fun h => absurd rfl h, fun pre x post h => absurd h (by simp)⟩⟩

end Mailfilter
