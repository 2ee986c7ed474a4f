import Mailfilter.Network
import Mailfilter.Reading

/-!
# The flags of the descriptor

`Socket::c_read` switches its descriptor to non-blocking mode.  Does it switch back?

* `Descriptor`, the file status flags with the calls that were to change them, and `Os.flagged`, the
  system with a descriptor that `fcntl` works on;
* `Breaks`: the receive loop comes to a failure of SSL; `receive_breaks`: only then is it left from
  within;
* `Completes`: `select` finds the descriptor ready, and the loop does not break;
* `keepInput_flags`, `readSwitched_flags` and `cRead_flags`: what the flags are afterwards, from the end
  of `c_read` to its start;
* `cRead_restores_iff`: the flags are restored if and only if they were non-blocking all along, or the
  reading completes.
-/

namespace Mailfilter

open Program Socket

variable {ω α : Type} {os : Os ω}

/-! ### The descriptor -/

/-- The file status flags, and the calls of `fcntl (.., F_SETFL, ..)` with their success. -/
structure Descriptor where
  flags : ℕ
  calls : List (ℕ × Bool)

/-- `fcntl (.., F_SETFL, flags)`, with this success. -/
def Descriptor.set (flags : ℕ) (ok : Bool) (d : Descriptor) : Descriptor :=
  ⟨if ok then flags else d.flags, d.calls ++ [(flags, ok)]⟩

/-- A call that does not change the flags. -/
def unflagged (f : ω → α × ω) (s : ω × Descriptor) : α × (ω × Descriptor) :=
  ((f s.1).1, (f s.1).2, s.2)

/-- The system, with the descriptor: which calls of `fcntl` succeed is up to the system, what they do is
not. -/
def Os.flagged (os : Os ω) : Os (ω × Descriptor) where
  openCall c := unflagged (os.openCall c)
  close := unflagged os.close
  sslShutdown s := (os.sslShutdown s.1, s.2)
  sslSet s := os.sslSet s.1
  getFlags s := ((os.getFlags s.1).1.map fun _ => s.2.flags, (os.getFlags s.1).2, s.2)
  setFlags flags s :=
    ((os.setFlags flags s.1).1, (os.setFlags flags s.1).2, s.2.set flags (os.setFlags flags s.1).1)
  select timeOut := unflagged (os.select timeOut)
  recv := unflagged os.recv
  sslRead := unflagged os.sslRead
  write msg := unflagged (os.write msg)
  sslWrite msg := unflagged (os.sslWrite msg)
  strerror s := os.strerror s.1

/-! ### The loop breaks -/

/-- From this input and state of the system the loop comes to a null pointer `ssl`, or to an error that
it does not know. -/
inductive Breaks (os : Os ω) (readHeader : Bool) : Bytes → ω → Prop
  | unset {input : Bytes} {s : ω} (h : os.sslSet s = false) : Breaks os readHeader input s
  | error {input : Bytes} {s : ω} (h : os.sslSet s = true) (herror : (os.sslRead s).1.2 = .other) :
      Breaks os readHeader input s
  | later {input : Bytes} {s : ω} (h : os.sslSet s = true) (herror : (os.sslRead s).1.2 ≠ .other)
      (hgo : data (os.sslRead s).1.1 ≠ [] ∨ (readHeader = true ∧ headerOpen input = some true))
      (hlater : Breaks os readHeader (store input (data (os.sslRead s).1.1)) (os.sslRead s).2) :
      Breaks os readHeader input s

/-- What a round without failure gives. -/
theorem breaks_round {readHeader : Bool} {input : Bytes} {s : ω} (h : os.sslSet s = true)
    (herror : (os.sslRead s).1.2 ≠ .other) : Breaks os readHeader input s ↔
      (data (os.sslRead s).1.1 ≠ [] ∨ (readHeader = true ∧ headerOpen input = some true)) ∧
        Breaks os readHeader (store input (data (os.sslRead s).1.1)) (os.sslRead s).2 := by
  constructor
  · rintro (hunset | ⟨-, hother⟩ | ⟨-, -, hgo, hlater⟩)
    · rw [h] at hunset
      cases hunset
    · exact absurd hother herror
    · exact ⟨hgo, hlater⟩
  · exact fun hlater => .later h herror hlater.1 hlater.2

section Loop

variable {readHeader : Bool} {input : Bytes} {w w' : Wire (Socket (ω × Descriptor))} {fuel : ℕ}
  {r : Option Bytes}

/-- What is read does not depend on the descriptor. -/
theorem readOnce_flagged (ssl : Bool) (s : ω × Descriptor) :
    readOnce os.flagged ssl s = ((readOnce os ssl s.1).1, (readOnce os ssl s.1).2, s.2) := by
  have hset : os.flagged.sslSet s = os.sslSet s.1 := rfl
  unfold readOnce
  rw [hset]
  cases ssl with
  | false => rfl
  | true => cases os.sslSet s.1 <;> rfl

/-- **Over SSL the loop is left from within** just when it breaks. -/
theorem receive_breaks (hssl : w.net.sslUsed = true)
    (hrun : exec (receive os.flagged readHeader fuel input) w = (.ok r, w')) :
    r = none ↔ Breaks os readHeader input w.net.os.1 := by
  induction fuel generalizing input w with
  | zero => cases hrun
  | succ fuel ih =>
    obtain ⟨log, -, hround⟩ := exec_receive_read os.flagged readHeader input w
    rw [hround, readOnce_flagged, hssl] at hrun
    by_cases hset : os.sslSet w.net.os.1 = true
    case neg =>
      have hread : readOnce os true w.net.os.1 = (none, w.net.os.1) := by simp [readOnce, hset]
      rw [hread] at hrun
      cases hrun
      exact iff_of_true rfl (.unset (Bool.eq_false_iff.2 hset))
    by_cases herror : (os.sslRead w.net.os.1).1.2 = .other
    · have hread : readOnce os true w.net.os.1 = (none, (os.sslRead w.net.os.1).2) := by
        simp [readOnce, hset, herror]
      rw [hread] at hrun
      cases hrun
      exact iff_of_true rfl (.error hset herror)
    have hread : readOnce os true w.net.os.1 =
        (some (os.sslRead w.net.os.1).1.1, (os.sslRead w.net.os.1).2) := by
      simp [readOnce, hset, herror]
    rw [hread] at hrun
    have hnext : ∀ q, exec (receive os.flagged readHeader fuel q)
        (w.after ((os.sslRead w.net.os.1).2, w.net.os.2) log) = (.ok r, w') →
        (r = none ↔ Breaks os readHeader q (os.sslRead w.net.os.1).2) :=
      fun q => ih (w := w.after _ log) hssl
    rw [breaks_round hset herror]
    by_cases hpiece : data (os.sslRead w.net.os.1).1.1 = []
    · have hstore : store input (data (os.sslRead w.net.os.1).1.1) = input := by rw [hpiece]; rfl
      rw [hstore]
      simp only [hpiece, List.length_nil, lt_irrefl, if_false] at hrun
      cases readHeader with
      | false =>
        cases hrun
        exact iff_of_false (by simp) (by simp [hpiece])
      | true =>
        simp only [Bool.not_true, Bool.false_eq_true, if_false] at hrun
        rcases hopen : headerOpen input with _ | _ | _ <;> rw [hopen] at hrun
        · cases hrun
        · cases hrun
          exact iff_of_false (by simp) (by simp [hpiece])
        · rw [hnext _ hrun]
          exact (and_iff_right (Or.inr ⟨rfl, rfl⟩)).symm
    · simp only [if_pos (List.length_pos_iff.2 hpiece)] at hrun
      rw [hnext _ hrun]
      exact (and_iff_right (Or.inl hpiece)).symm

/-- Without SSL it is not. -/
theorem receive_plain (hplain : w.net.sslUsed = false)
    (hrun : exec (receive os.flagged readHeader fuel input) w = (.ok r, w')) : r ≠ none := by
  induction fuel generalizing input w with
  | zero => cases hrun
  | succ fuel ih =>
    obtain ⟨log, -, hround⟩ := exec_receive_read os.flagged readHeader input w
    have hread : (readOnce os.flagged w.net.sslUsed w.net.os).1 =
        some (os.flagged.recv w.net.os).1 := by
      rw [hplain]
      rfl
    rw [hround, hread] at hrun
    have hnext : ∀ q, exec (receive os.flagged readHeader fuel q)
        (w.after (readOnce os.flagged w.net.sslUsed w.net.os).2 log) = (.ok r, w') → r ≠ none :=
      fun q => ih (w := w.after _ log) hplain
    simp only at hrun
    split_ifs at hrun
    · exact hnext _ hrun
    · cases hrun
      simp
    · rcases hopen : headerOpen input with _ | _ | _ <;> rw [hopen] at hrun
      · cases hrun
      · cases hrun
        simp
      · exact hnext _ hrun

/-- The loop leaves the descriptor alone. -/
theorem receive_descriptor (hrun : exec (receive os.flagged readHeader fuel input) w = (.ok r, w')) :
    w'.net.os.2 = w.net.os.2 := by
  have hrule := (@receive_rule _ os.flagged (fun _ s => s.2 = w.net.os.2) (fun _ _ h => h)
    (fun _ _ h => h) readHeader fuel input).exec (s := w) rfl
  rw [hrun] at hrule
  cases r with
  | none => exact hrule.elim fun _ h => h
  | some q => exact hrule

end Loop

/-! ### Reading -/

/-- The state of the system behind the switch to non-blocking mode. -/
def switched (os : Os ω) (flags : ℕ) (s : ω) : ω :=
  (os.setFlags (flags ||| oNonblock) (os.getFlags s).2).2

/-- `select` finds the descriptor ready, and the loop does not break. -/
def Completes (os : Os ω) (readHeader : Bool) (w : Wire (Socket (ω × Descriptor))) : Prop :=
  let s := switched os w.net.os.2.flags w.net.os.1
  (os.select w.net.timeOut s).1 = .ready true ∧
    ¬ (w.net.sslUsed = true ∧ Breaks os readHeader [] (os.select w.net.timeOut s).2)

/-- What `c_read` leaves behind: a switch that was not made or that failed, the flags as they were,
or those of non-blocking mode. -/
def Leaves (os : Os ω) (readHeader : Bool) (w w' : Wire (Socket (ω × Descriptor))) : Prop :=
  w'.net.os.2.calls = w.net.os.2.calls ∨ (∃ c ∈ w'.net.os.2.calls, c.2 = false) ∨
    (Completes os readHeader w ∧ w'.net.os.2.flags = w.net.os.2.flags) ∨
    (¬ Completes os readHeader w ∧ w'.net.os.2.flags = w.net.os.2.flags ||| oNonblock)

theorem mem_set (d : Descriptor) (flags : ℕ) (ok : Bool) : (flags, ok) ∈ (d.set flags ok).calls :=
  List.mem_append_right _ (List.mem_singleton_self _)

/-- The end of `c_read`, from the receive loop on. -/
def keepInput (os : Os ω) (flags : ℕ) : Option Bytes → Call ω Int32
  | none => pure (-1)
  | some input => do
    if input.length = 0 then throw .undefined
    else do
      say (printMsg (bytes "Debugging: Read: " ++ readText input) 6)
      if !(← sys (os.setFlags flags)) then sysFailure os
      else do
        modify fun w => { w with net := { w.net with readBuffer := some input } }
        pure (Int32.ofNat input.length)

/-- What follows the switch. -/
def readSwitched (os : Os ω) (fuel : ℕ) (readHeader : Bool) (flags : ℕ) : Call ω Int32 := do
  let timeOut ← Program.gets fun w => w.net.timeOut
  match ← sys (os.select timeOut) with
  | .error => sysFailure os
  | .timedOut => do
    say (printErr (bytes "Connection has timed out."))
    pure (-1)
  | .ready false => pure (-1)
  | .ready true => do
    let input ← receive os readHeader fuel []
    keepInput os flags input

theorem cRead_eq (os : Os ω) (fuel : ℕ) (readHeader : Bool) :
    Socket.cRead os fuel readHeader = (do
      match ← sys os.getFlags with
      | none => sysFailure os
      | some flags => do
        if !(← sys (os.setFlags (flags ||| oNonblock))) then sysFailure os
        else readSwitched os fuel readHeader flags) := rfl

section Flags

variable {fuel : ℕ} {readHeader : Bool} {flags : ℕ} {w w' : Wire (Socket (ω × Descriptor))} {n : Int32}

/-- A call of `fcntl` has failed. -/
def Refused (w : Wire (Socket (ω × Descriptor))) : Prop := ∃ c ∈ w.net.os.2.calls, c.2 = false

/-- The flags are set back if there is an input. -/
theorem keepInput_flags {input : Option Bytes}
    (hrun : exec (keepInput os.flagged flags input) w = (.ok n, w')) :
    Refused w' ∨ (input ≠ none ∧ w'.net.os.2.flags = flags) ∨
      (input = none ∧ w'.net.os.2 = w.net.os.2) := by
  cases input with
  | none => cases hrun; exact Or.inr (Or.inr ⟨rfl, rfl⟩)
  | some input =>
    rw [keepInput] at hrun
    split_ifs at hrun
    · cases hrun
    · have hset : ∀ s : ω × Descriptor,
          (os.flagged.setFlags flags s).1 = (os.setFlags flags s.1).1 := fun _ => rfl
      simp only [exec_bind, say, exec_modify, exec_sys, hset] at hrun
      cases hok : (os.setFlags flags w.net.os.1).1 with
      | false =>
        rw [hok] at hrun
        cases hrun
        exact Or.inl ⟨_, mem_set w.net.os.2 _ _, hok⟩
      | true =>
        rw [hok] at hrun
        cases hrun
        refine Or.inr (Or.inl ⟨by simp, ?_⟩)
        show (w.net.os.2.set flags (os.setFlags flags w.net.os.1).1).flags = flags
        rw [hok]
        rfl

/-- From the switch on: `select` and the loop decide whether the flags are set back. -/
theorem readSwitched_flags
    (hrun : exec (readSwitched os.flagged fuel readHeader flags) w = (.ok n, w')) :
    let done := (os.select w.net.timeOut w.net.os.1).1 = .ready true ∧
      ¬ (w.net.sslUsed = true ∧ Breaks os readHeader [] (os.select w.net.timeOut w.net.os.1).2)
    Refused w' ∨ (done ∧ w'.net.os.2.flags = flags) ∨ (¬ done ∧ w'.net.os.2 = w.net.os.2) := by
  obtain ⟨⟨⟨s, d⟩, timeOut, buffer, ssl⟩, log⟩ := w
  intro done
  have hselect : (os.flagged.select timeOut (s, d)).1 =
      (os.select timeOut s).1 := rfl
  simp only [readSwitched, exec_bind, exec_gets, exec_sys, hselect] at hrun
  cases hsel : (os.select timeOut s).1 with
  | error =>
    have hno : ¬ done := fun h => absurd (hsel.symm.trans h.1) Selected.noConfusion
    rw [hsel] at hrun
    cases hrun
    exact Or.inr (Or.inr ⟨hno, rfl⟩)
  | timedOut =>
    have hno : ¬ done := fun h => absurd (hsel.symm.trans h.1) Selected.noConfusion
    rw [hsel] at hrun
    cases hrun
    exact Or.inr (Or.inr ⟨hno, rfl⟩)
  | ready isSet =>
    cases isSet with
    | false =>
      have hno : ¬ done := fun h => absurd (Selected.ready.inj (hsel.symm.trans h.1)) Bool.noConfusion
      rw [hsel] at hrun
      cases hrun
      exact Or.inr (Or.inr ⟨hno, rfl⟩)
    | true =>
      rw [hsel] at hrun
      simp only [exec_bind] at hrun
      rcases hloop : exec (receive os.flagged readHeader fuel []) _ with ⟨e | input, w₁⟩
      · rw [hloop] at hrun
        cases hrun
      have hdesc := receive_descriptor hloop
      have hnone : input = none ↔ ssl = true ∧
          Breaks os readHeader [] (os.select timeOut s).2 := by
        cases ssl with
        | true => exact (receive_breaks rfl hloop).trans (and_iff_right rfl).symm
        | false => exact iff_of_false (receive_plain rfl hloop) (by simp)
      rw [hloop] at hrun
      rcases keepInput_flags hrun with hrefused | ⟨hsome, hflags⟩ | ⟨hinput, hsame⟩
      · exact Or.inl hrefused
      · exact Or.inr (Or.inl ⟨⟨hsel, fun h => hsome (hnone.2 h)⟩, hflags⟩)
      · exact Or.inr (Or.inr ⟨fun h => h.2 (hnone.1 hinput), hsame.trans hdesc⟩)

/-- **The flags behind `c_read`.** -/
theorem cRead_flags (hrun : exec (Socket.cRead os.flagged fuel readHeader) w = (.ok n, w')) :
    Leaves os readHeader w w' := by
  have hget : (os.flagged.getFlags w.net.os).1 =
      (os.getFlags w.net.os.1).1.map fun _ => w.net.os.2.flags := rfl
  rw [cRead_eq, exec_bind, exec_sys, hget] at hrun
  cases hflags : (os.getFlags w.net.os.1).1 with
  | none =>
    rw [hflags] at hrun
    cases hrun
    exact Or.inl rfl
  | some _ =>
    rw [hflags] at hrun
    simp only [Option.map_some, exec_bind, exec_sys] at hrun
    have hset : (os.flagged.setFlags (w.net.os.2.flags ||| oNonblock)
        (os.flagged.getFlags w.net.os).2) =
          ((os.setFlags (w.net.os.2.flags ||| oNonblock) (os.getFlags w.net.os.1).2).1,
            switched os w.net.os.2.flags w.net.os.1,
            w.net.os.2.set (w.net.os.2.flags ||| oNonblock)
              (os.setFlags (w.net.os.2.flags ||| oNonblock) (os.getFlags w.net.os.1).2).1) := rfl
    cases hswitch : (os.setFlags (w.net.os.2.flags ||| oNonblock) (os.getFlags w.net.os.1).2).1 with
    | false =>
      rw [hset, hswitch] at hrun
      cases hrun
      exact Or.inr (Or.inl ⟨_, mem_set w.net.os.2 _ _, rfl⟩)
    | true =>
      -- from here on the descriptor is in non-blocking mode
      rw [hset, hswitch] at hrun
      rcases readSwitched_flags hrun with hrefused | ⟨hdone, hback⟩ | ⟨hno, hsame⟩
      · exact Or.inr (Or.inl hrefused)
      · exact Or.inr (Or.inr (Or.inl ⟨hdone, hback⟩))
      · exact Or.inr (Or.inr (Or.inr ⟨hno, by rw [hsame]; rfl⟩))

end Flags

/-- **The flags are restored** by every `c_read` that returns after the switch, without a failure of
`fcntl`, if and only if the descriptor was non-blocking before or the reading completes. -/
theorem cRead_restores_iff (os : Os ω) (fuel : ℕ) (readHeader : Bool)
    {w w' : Wire (Socket (ω × Descriptor))} {n : Int32}
    (hrun : exec (Socket.cRead os.flagged fuel readHeader) w = (.ok n, w'))
    (hswitched : w'.net.os.2.calls ≠ w.net.os.2.calls) (hok : ∀ c ∈ w'.net.os.2.calls, c.2 = true) :
    w'.net.os.2.flags = w.net.os.2.flags ↔
      w.net.os.2.flags ||| oNonblock = w.net.os.2.flags ∨ Completes os readHeader w := by
  obtain hcalls | ⟨c, hc, hfalse⟩ | ⟨hcompletes, hflags⟩ | ⟨hno, hflags⟩ := cRead_flags hrun
  · exact absurd hcalls hswitched
  · exact absurd ((hok c hc).symm.trans hfalse) Bool.noConfusion
  · exact iff_of_true hflags (Or.inr hcompletes)
  · rw [hflags, or_iff_left hno]

/-- A blocking descriptor. -/
def blocking (s : List (Option Chunk)) : Wire (Socket (List (Option Chunk) × Descriptor)) :=
  ⟨⟨(s, ⟨0, []⟩), 30, none, false⟩, []⟩

/-- A system on which `select` times out. -/
def silentOs : Os (List (Option Chunk)) := { scriptOs with select := fun _ s => (.timedOut, s) }

/-- A time-out leaves the descriptor in non-blocking mode. -/
theorem timeOut_leaves :
    ∃ w', exec (Socket.cRead silentOs.flagged 1 false) (blocking []) = (.ok (-1), w') ∧
      w'.net.os.2.calls = [(oNonblock, true)] ∧ w'.net.os.2.flags = oNonblock ∧
      w'.net.os.2.flags ≠ (blocking []).net.os.2.flags :=
  ⟨_, rfl, rfl, rfl, by decide⟩

/-- A reply that is read does not. -/
theorem cRead_restores_iff_reply :
    ∃ w', exec (Socket.cRead scriptOs.flagged 2 false) (blocking [some ⟨[43], by decide⟩]) =
      (.ok 1, w') ∧ w'.net.os.2.flags = 0 := by
  have hone : (exec (Socket.cRead scriptOs.flagged 2 false)
      (blocking [some ⟨[43], by decide⟩])).1 = .ok 1 := rfl
  have hrun := Prod.ext hone rfl
  exact ⟨_, hrun, (cRead_restores_iff scriptOs 2 false hrun (by decide) (by decide)).2
    (Or.inr ⟨rfl, fun h => absurd h.1 Bool.noConfusion⟩)⟩

end Mailfilter
