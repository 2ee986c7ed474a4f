import Mailfilter.Network
import Mailfilter.Reading

/-!
# Receiving

What `Socket::c_read` makes of the pieces in which a reply arrives.

* `Os.tapped`, the system with the pieces that it has delivered so far;
* `cRead_collected`: what `c_read` stores is what its loop collects from them;
* `foldl_store_iff`: the loop keeps every byte if and only if the first piece has no NUL;
* `cRead_keeps_iff`, the same for `c_read`.
-/

namespace Mailfilter

open Program Socket

variable {ω : Type} {P : List Bytes} {b q : Bytes}

/-! ### The pieces of a reply -/

/-- The pieces with what was received next, if it was anything. -/
def tap (c : Option Chunk) (pieces : List Bytes) : List Bytes :=
  if data c = [] then pieces else pieces ++ [data c]

/-- A call of the system that delivers nothing. -/
def untapped {α : Type} (f : ω → α × ω) (s : ω × List Bytes) : α × (ω × List Bytes) :=
  ((f s.1).1, (f s.1).2, s.2)

/-- The system, with the pieces that it has delivered so far. -/
def Os.tapped (os : Os ω) : Os (ω × List Bytes) where
  openCall c := untapped (os.openCall c)
  close := untapped os.close
  sslShutdown s := (os.sslShutdown s.1, s.2)
  sslSet s := os.sslSet s.1
  getFlags := untapped os.getFlags
  setFlags flags := untapped (os.setFlags flags)
  select timeOut := untapped (os.select timeOut)
  recv s := ((os.recv s.1).1, (os.recv s.1).2, tap (os.recv s.1).1 s.2)
  sslRead s := ((os.sslRead s.1).1, (os.sslRead s.1).2, tap (os.sslRead s.1).1.1 s.2)
  write msg := untapped (os.write msg)
  sslWrite msg := untapped (os.sslWrite msg)
  strerror s := os.strerror s.1

/-- The input is what the loop collects from the pieces, and none of them is empty. -/
def Collected (input : Bytes) (s : ω × List Bytes) : Prop :=
  input = s.2.foldl store [] ∧ ∀ b ∈ s.2, b ≠ []

theorem Collected.tap {s : ω × List Bytes} (h : Collected q s) (c : Option Chunk) (s' : ω) :
    Collected (store q (data c)) (s', tap c s.2) := by
  unfold Mailfilter.tap
  split
  case isTrue hempty => rwa [hempty]
  case isFalse hpiece =>
    refine ⟨by rw [List.foldl_concat, ← h.1], fun b hb => ?_⟩
    rcases List.mem_append.1 hb with hb | hb
    · exact h.2 b hb
    · rw [List.mem_singleton.1 hb]
      exact hpiece

/-! ### What `c_read` stores -/

section Read

variable {os : Os ω} {J : ω × List Bytes → Prop} {E : Halt → Wire (Socket (ω × List Bytes)) → Prop}

/-- Without a piece nothing changes. -/
theorem sys_untapped {α : Type} {f : ω → α × ω} (hJ : ∀ s s', J s → J (s', s.2)) :
    Triple (OnOs J) (sys (untapped f)) (fun _ => OnOs J) E :=
  Triple.of_exec fun w hw => hJ w.net.os _ hw

/-- On success `c_read` stores what its loop has collected. -/
theorem cRead_collected (fuel : ℕ) (readHeader : Bool) :
    Triple (OnOs fun s : ω × List Bytes => s.2 = []) (Socket.cRead os.tapped fuel readHeader)
      (fun n w => n = -1 ∨ ∃ input, w.net.readBuffer = some input ∧ Collected input w.net.os)
      fun _ _ => True := by
  have hfail : ∀ {J : ω × List Bytes → Prop}, Triple (OnOs J) (sysFailure os.tapped)
      (fun n w => n = -1 ∨ ∃ input, w.net.readBuffer = some input ∧ Collected input w.net.os)
      fun _ _ => True := fun {J} =>
    Triple.bind (R := fun _ => OnOs J) (Triple.gets fun _ hw => hw) fun _ =>
      Triple.bind (R := fun _ => OnOs J) (Triple.modify fun _ hw => hw) fun _ =>
        Triple.pure fun _ _ => Or.inl rfl
  have hnone : ∀ (s : ω × List Bytes) (s' : ω), s.2 = [] → (s', s.2).2 = ([] : List Bytes) := fun _ _ hs => hs
  refine Triple.bind (sys_untapped hnone) fun flags => ?_
  cases flags with
  | none => exact hfail
  | some flags =>
    refine Triple.bind (sys_untapped hnone) fun _ => Triple.ite (fun _ => hfail) fun _ => ?_
    refine Triple.bind (R := fun _ => OnOs fun s : ω × List Bytes => s.2 = []) (Triple.gets fun _ hw => hw)
      fun timeOut => Triple.bind (sys_untapped hnone) fun selected => ?_
    match selected with
    | .error => exact hfail
    | .timedOut =>
      exact Triple.bind (R := fun _ _ => True) (Triple.modify fun _ _ => trivial) fun _ =>
        Triple.pure fun _ _ => Or.inl rfl
    | .ready false => exact Triple.pure fun _ _ => Or.inl rfl
    | .ready true =>
      have hloop := @receive_rule (ω × List Bytes) os.tapped Collected (fun _ _ hs => hs.tap _ _)
        (fun _ _ hs => hs.tap _ _) readHeader fuel []
      refine Triple.bind (hloop.conseq (fun w hw => ⟨?_, ?_⟩) (fun _ _ hw => hw) fun _ _ _ => trivial)
        fun received => ?_
      · rw [show w.net.os.2 = [] from hw]
        rfl
      · rw [show w.net.os.2 = [] from hw]
        exact fun b hb => absurd hb List.not_mem_nil
      cases received with
      | none => exact Triple.pure fun _ _ => Or.inl rfl
      | some input =>
        refine Triple.ite (fun _ => Triple.throw fun _ _ => trivial) fun _ => ?_
        refine Triple.bind (R := fun _ => OnOs (Collected input)) (Triple.modify fun _ hw => hw)
          fun _ => Triple.bind (sys_untapped fun _ _ hs => hs) fun _ => Triple.ite (fun _ => hfail)
            fun _ => ?_
        refine Triple.bind (R := fun _ (w : Wire (Socket (ω × List Bytes))) =>
          w.net.readBuffer = some input ∧ Collected input w.net.os)
          (Triple.modify fun _ hw => ⟨rfl, hw⟩) fun _ => ?_
        exact Triple.pure fun _ hw => Or.inr ⟨input, hw⟩

end Read

/-! ### The bytes that are kept -/

/-- Behind the first byte everything is appended. -/
theorem foldl_store_of_ne (hq : q ≠ []) (hP : ∀ b ∈ P, b ≠ []) :
    P.foldl store q = q ++ P.flatten := by
  induction P generalizing q with
  | nil => exact (List.append_nil q).symm
  | cons b P ih =>
    have hb := hP b (List.mem_cons_self ..)
    have hstore : store q b = q ++ b := by
      unfold store
      rw [if_neg fun h => hb (List.length_eq_zero_iff.1 h),
        if_pos fun h => hq (List.length_eq_zero_iff.1 h)]
    rw [List.foldl_cons, hstore, ih (fun h => hq (List.append_eq_nil_iff.1 h).1)
      fun c hc => hP c (List.mem_cons_of_mem _ hc), List.flatten_cons, List.append_assoc]

theorem length_cstr_le (b : Bytes) : (cstr b).length ≤ b.length :=
  (List.takeWhile_prefix _).length_le

theorem length_store_le (q b : Bytes) : (store q b).length ≤ q.length + b.length := by
  have hle := length_cstr_le b
  unfold store
  split_ifs
  · omega
  · rw [List.length_append]
  · omega

/-- Nothing is invented. -/
theorem length_foldl_store_le (q : Bytes) (P : List Bytes) :
    (P.foldl store q).length ≤ q.length + P.flatten.length := by
  induction P generalizing q with
  | nil => simp
  | cons b P ih =>
    have hrest := ih (store q b)
    have hfirst := length_store_le q b
    rw [List.foldl_cons, List.flatten_cons, List.length_append]
    omega

theorem length_cstr_lt (h : 0 ∈ b) : (cstr b).length < b.length := by
  refine lt_of_le_of_ne (length_cstr_le b) fun heq => ?_
  have hall : cstr b = b := (List.takeWhile_prefix _).eq_of_length heq
  have hne := List.mem_takeWhile_imp (show (0 : UInt8) ∈ cstr b by rwa [hall])
  exact absurd hne (by decide)

/-- **The loop keeps every byte if and only if the first piece has no NUL.** -/
theorem foldl_store_iff (hP : ∀ b ∈ P, b ≠ []) :
    P.foldl store [] = P.flatten ↔ ∀ b ∈ P.head?, 0 ∉ b := by
  cases P with
  | nil => simp
  | cons b P =>
    have hb := hP b (List.mem_cons_self ..)
    have hstore : store [] b = cstr b := by
      unfold store
      rw [if_neg fun h => hb (List.length_eq_zero_iff.1 h), if_neg fun h => h rfl]
    rw [List.foldl_cons, hstore, List.flatten_cons]
    constructor
    · rintro heq c ⟨⟩ hnul
      have hlen := length_foldl_store_le (cstr b) P
      have hlt := length_cstr_lt hnul
      rw [heq, List.length_append] at hlen
      omega
    · intro h
      rw [cstr_of_noNul (h b rfl), foldl_store_of_ne hb fun c hc => hP c (List.mem_cons_of_mem _ hc)]

/-- **`c_read` keeps every byte** that it has received if and only if the first piece has no NUL. -/
theorem cRead_keeps_iff (os : Os ω) (fuel : ℕ) (readHeader : Bool)
    {w w' : Wire (Socket (ω × List Bytes))} {n : Int32} (hw : w.net.os.2 = [])
    (hrun : exec (Socket.cRead os.tapped fuel readHeader) w = (.ok n, w')) (hn : n ≠ -1) :
    w'.net.readBuffer = some w'.net.os.2.flatten ↔ ∀ b ∈ w'.net.os.2.head?, 0 ∉ b := by
  have hread := (@cRead_collected ω os fuel readHeader).exec hw
  rw [hrun] at hread
  obtain hfail | ⟨input, hbuffer, hinput, hpieces⟩ := hread
  · exact absurd hfail hn
  rw [hbuffer, Option.some.injEq, hinput, foldl_store_iff hpieces]

/-- A socket that will receive the pieces. -/
def receiving (pieces : List Chunk) : Wire (Socket (List (Option Chunk) × List Bytes)) :=
  ⟨⟨(pieces.map some, []), 30, none, false⟩, []⟩

/-- A piece with a NUL loses what is behind it. -/
theorem nul_drops :
    ∃ w', exec (Socket.cRead scriptOs.tapped 3 false) (receiving [⟨[97, 98, 0, 99], by decide⟩]) =
      (.ok 2, w') ∧ w'.net.readBuffer ≠ some w'.net.os.2.flatten :=
  ⟨_, rfl, by decide⟩

/-- In two pieces nothing is lost. -/
theorem cRead_keeps_iff_two :
    ∃ w', exec (Socket.cRead scriptOs.tapped 3 false)
      (receiving [⟨[97, 98], by decide⟩, ⟨[0, 99], by decide⟩]) = (.ok 4, w') ∧
      w'.net.readBuffer = some w'.net.os.2.flatten := by
  have hfour : (exec (Socket.cRead scriptOs.tapped 3 false)
      (receiving [⟨[97, 98], by decide⟩, ⟨[0, 99], by decide⟩])).1 = .ok 4 := rfl
  have hrun := Prod.ext hfour rfl
  exact ⟨_, hrun, (cRead_keeps_iff scriptOs 3 false rfl hrun (by decide)).2 (by decide)⟩

end Mailfilter
