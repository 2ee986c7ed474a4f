import Mailfilter.Ending
import Mailfilter.Descriptor

/-!
# Indexes in front of the input

`Socket::c_read` looks at the last three bytes of its input, and at the last one again for the log.
Are they there?

* `Short`, the inputs for which an index is outside, see `headerOpen_eq_none_iff`;
* `Gathers`: what some reads have collected;
* `Overruns`: a read that delivers nothing finds the input too short;
* `receive_overruns_iff`: then, and only then, the loop or the message behind it goes wrong;
* `cRead_inBounds_iff`, the same for `c_read`.
-/

namespace Mailfilter

open Program Socket

variable {ω : Type} {os : Os ω} {readHeader ssl : Bool} {q q' : Bytes} {s s' : ω}

/-! ### Reads -/

/-- Some reads, none of which makes `c_read` return, lead from one input and state of the system to
others. -/
inductive Gathers (os : Os ω) (ssl : Bool) : Bytes → ω → Bytes → ω → Prop
  | here {q : Bytes} {s : ω} : Gathers os ssl q s q s
  | next {q q' : Bytes} {s s₁ s' : ω} {c : Option Chunk} (hread : readOnce os ssl s = (some c, s₁))
      (hrest : Gathers os ssl (store q (data c)) s₁ q' s') : Gathers os ssl q s q' s'

/-- The input has not got the bytes that are looked at when nothing more is delivered. -/
def Short (readHeader : Bool) (q : Bytes) : Prop := if readHeader then TooShort q else q = []

/-- After some reads one delivers nothing, at a point where the input is too short. -/
def Overruns (os : Os ω) (ssl readHeader : Bool) (q : Bytes) (s : ω) : Prop :=
  ∃ q' s' c s'', Gathers os ssl q s q' s' ∧ readOnce os ssl s' = (some c, s'') ∧ data c = [] ∧
    Short readHeader q'

theorem prefix_store (q b : Bytes) : q <+: store q b := by
  unfold store
  split_ifs with hb hq
  · exact List.prefix_refl _
  · exact List.prefix_append ..
  · rw [List.length_eq_zero_iff.1 (not_not.1 hq)]
    exact List.nil_prefix

theorem Gathers.prefix (h : Gathers os ssl q s q' s') : q <+: q' := by
  induction h with
  | here => exact List.prefix_refl _
  | next _ _ ih => exact (prefix_store _ _).trans ih

/-- One read before. -/
theorem Overruns.next {c : Option Chunk} (hread : readOnce os ssl s = (some c, s'))
    (h : Overruns os ssl readHeader (store q (data c)) s') : Overruns os ssl readHeader q s := by
  obtain ⟨q', s₁, c', s₂, hgathers, hlast, hempty, hshort⟩ := h
  exact ⟨q', s₁, c', s₂, .next hread hgathers, hlast, hempty, hshort⟩

theorem Short.length_lt (h : Short readHeader q) : q.length < 3 := by
  unfold Short at h
  split_ifs at h
  · exact h.length_lt
  · rw [h]
    decide

/-! ### The loop -/

section Loop

variable {w : Wire (Socket ω)} {fuel : ℕ}

/-- The loop evaluates an index outside the input, or leaves an input without a last byte. -/
def GoesWrong (result : Except Halt (Option Bytes)) : Prop :=
  result = .error .undefined ∨ result = .ok (some [])

/-- A loop that goes wrong has come to such a read. -/
theorem overruns_of_wrong (hwrong : GoesWrong (exec (receive os readHeader fuel q) w).1) :
    Overruns os w.net.sslUsed readHeader q w.net.os := by
  induction fuel generalizing q w with
  | zero => rcases hwrong with h | h <;> cases h
  | succ fuel ih =>
    obtain ⟨log, -, hround⟩ := exec_receive_read os readHeader q w
    rw [hround] at hwrong
    rcases hread : readOnce os w.net.sslUsed w.net.os with ⟨_ | c, s₁⟩ <;> rw [hread] at hwrong
    · rcases hwrong with h | h <;> cases h
    simp only at hwrong
    by_cases hpos : 0 < (data c).length
    · rw [if_pos hpos] at hwrong
      exact .next hread (ih (w := w.after s₁ log) hwrong)
    rw [if_neg hpos] at hwrong
    have hempty : data c = [] := List.length_eq_zero_iff.1 (Nat.eq_zero_of_not_pos hpos)
    have hhere : Short readHeader q → Overruns os w.net.sslUsed readHeader q w.net.os :=
      fun hshort => ⟨q, w.net.os, c, s₁, .here, hread, hempty, hshort⟩
    cases readHeader with
    | false =>
      rcases hwrong with h | h
      · cases h
      · exact hhere (Option.some.inj (Except.ok.inj h))
    | true =>
      rcases hopen : headerOpen q with _ | _ | _ <;> rw [hopen] at hwrong
      · exact hhere (headerOpen_eq_none_iff.1 hopen)
      · rcases hwrong with h | h
        · cases h
        · rw [show q = [] from Option.some.inj (Except.ok.inj h)] at hopen
          cases hopen
      · refine .next hread ?_
        rw [hempty]
        exact ih (w := w.after s₁ log) hwrong

/-- A read that delivers nothing, where the input is too short. -/
theorem wrong_of_short {c : Option Chunk} {s₁ : ω}
    (hread : readOnce os w.net.sslUsed w.net.os = (some c, s₁)) (hempty : data c = [])
    (hshort : Short readHeader q) : GoesWrong (exec (receive os readHeader 1 q) w).1 := by
  obtain ⟨log, -, hround⟩ := exec_receive_read os readHeader q w
  rw [hround, hread]
  simp only [hempty, List.length_nil, lt_irrefl, if_false]
  cases readHeader with
  | false => exact Or.inr (congrArg (fun q => Except.ok (some q)) hshort)
  | true =>
    rw [headerOpen_eq_none_iff.2 hshort]
    exact Or.inl rfl

/-- At such a read the loop goes wrong, unless it has before: until then nothing looks like a whole
header. -/
theorem wrong_of_overruns (h : Overruns os w.net.sslUsed readHeader q w.net.os) :
    ∃ fuel, GoesWrong (exec (receive os readHeader fuel q) w).1 := by
  obtain ⟨q', s', c, s'', hgathers, hlast, hempty, hshort⟩ := h
  obtain ⟨ssl, hssl⟩ : ∃ ssl, w.net.sslUsed = ssl := ⟨_, rfl⟩
  obtain ⟨s, hs⟩ : ∃ s, w.net.os = s := ⟨_, rfl⟩
  rw [hssl] at hgathers hlast
  rw [hs] at hgathers
  induction hgathers generalizing w with
  | here =>
    subst hssl hs
    exact ⟨1, wrong_of_short hlast hempty hshort⟩
  | @next q q' s s₁ s' c₀ hread hrest ih =>
    subst hssl hs
    obtain ⟨log, -, hround⟩ := exec_receive_read os readHeader q w
    rw [hread] at hround
    simp only at hround
    obtain ⟨fuel, hlater⟩ := ih (w := w.after s₁ log) hshort hlast rfl rfl
    by_cases hpos : 0 < (data c₀).length
    · refine ⟨fuel + 1, ?_⟩
      rwa [hround, if_pos hpos]
    have hempty₀ : data c₀ = [] := List.length_eq_zero_iff.1 (Nat.eq_zero_of_not_pos hpos)
    rw [hempty₀] at hlater hrest
    have hprefix : q <+: q' := hrest.prefix
    by_cases hnow : Short readHeader q
    · exact ⟨1, wrong_of_short hread hempty₀ hnow⟩
    cases readHeader with
    | false =>
      rw [show q' = [] from hshort] at hprefix
      exact absurd (List.prefix_nil.1 hprefix) hnow
    | true =>
      refine ⟨fuel + 1, ?_⟩
      rcases hopen : headerOpen q with _ | _ | _
      · exact absurd (headerOpen_eq_none_iff.1 hopen) hnow
      · have hwhole := (headerOpen_eq_false_iff.1 hopen).length_le
        exact absurd (hwhole.trans hprefix.length_le) (Nat.not_le.2 hshort.length_lt)
      · rwa [hround, if_neg hpos, hopen]

/-- **The loop goes wrong** just when a read that delivers nothing finds the input too short. -/
theorem receive_overruns_iff : (∃ fuel, GoesWrong (exec (receive os readHeader fuel q) w).1) ↔
    Overruns os w.net.sslUsed readHeader q w.net.os :=
  ⟨fun ⟨_, hwrong⟩ => overruns_of_wrong hwrong, wrong_of_overruns⟩

/-! ### The whole call -/

/-- The calls before the loop succeed, and leave the system in this state. -/
def LoopStarts (os : Os ω) (w : Wire (Socket ω)) (s : ω) : Prop :=
  ∃ flags s₁ s₂, os.getFlags w.net.os = (some flags, s₁) ∧
    os.setFlags (flags ||| oNonblock) s₁ = (true, s₂) ∧
    os.select w.net.timeOut s₂ = (.ready true, s)

/-- However many rounds the loop gets, no index outside the input is evaluated, neither by the end
condition nor for the log. -/
def InBounds (os : Os ω) (readHeader : Bool) (w : Wire (Socket ω)) : Prop :=
  ∀ fuel, (exec (Socket.cRead os fuel readHeader) w).1 ≠ .error .undefined

/-- `c_read` comes to the loop, or it returns. -/
theorem exec_cRead_start (w : Wire (Socket ω)) :
    (∃ s flags, LoopStarts os w s ∧ ∀ fuel, exec (Socket.cRead os fuel readHeader) w =
      exec (do let input ← receive os readHeader fuel []; keepInput os flags input)
        (w.after s w.log)) ∨
    ((∀ s, ¬ LoopStarts os w s) ∧
      ∀ fuel, ∃ n w', exec (Socket.cRead os fuel readHeader) w = (.ok n, w')) := by
  obtain ⟨⟨s, timeOut, buffer, ssl⟩, log⟩ := w
  rcases hget : os.getFlags s with ⟨_ | flags, s₁⟩
  · refine Or.inr ⟨?_, fun fuel => ?_⟩
    · rintro s' ⟨flags, s₁', s₂, hflags, -⟩
      cases hget.symm.trans hflags
    · rw [cRead_eq, exec_bind, exec_sys, hget]
      exact ⟨_, _, rfl⟩
  rcases hset : os.setFlags (flags ||| oNonblock) s₁ with ⟨_ | _, s₂⟩
  · refine Or.inr ⟨?_, fun fuel => ?_⟩
    · rintro s' ⟨flags', s₁', s₂', hflags, hok, -⟩
      cases hget.symm.trans hflags
      cases hset.symm.trans hok
    · rw [cRead_eq, exec_bind, exec_sys, hget]
      simp only [exec_bind, exec_sys, hset]
      exact ⟨_, _, rfl⟩
  have hread : ∀ fuel, exec (Socket.cRead os fuel readHeader) ⟨⟨s, timeOut, buffer, ssl⟩, log⟩ =
      exec (readSwitched os fuel readHeader flags) ⟨⟨s₂, timeOut, buffer, ssl⟩, log⟩ := by
    intro fuel
    rw [cRead_eq, exec_bind, exec_sys, hget]
    simp only [exec_bind, exec_sys, hset]
    rfl
  rcases hselect : os.select timeOut s₂ with ⟨selected, s₃⟩
  by_cases hready : selected = .ready true
  · subst hready
    refine Or.inl ⟨s₃, flags, ⟨flags, s₁, s₂, hget, hset, hselect⟩, fun fuel => ?_⟩
    rw [hread, readSwitched]
    simp only [exec_bind, exec_gets, exec_sys, hselect]
    rfl
  · refine Or.inr ⟨?_, fun fuel => ?_⟩
    · rintro s' ⟨flags', s₁', s₂', hflags, hok, hsel⟩
      cases hget.symm.trans hflags
      cases hset.symm.trans hok
      exact hready (congrArg Prod.fst (hselect.symm.trans hsel))
    · rw [hread, readSwitched]
      simp only [exec_bind, exec_gets, exec_sys, hselect]
      rcases selected with _ | _ | (_ | _)
      · exact ⟨_, _, rfl⟩
      · exact ⟨_, _, rfl⟩
      · exact ⟨_, _, rfl⟩
      · exact absurd rfl hready

theorem keepInput_undefined_iff {flags : ℕ} {input : Option Bytes} :
    (exec (keepInput os flags input) w).1 = .error .undefined ↔ input = some [] := by
  cases input with
  | none => exact iff_of_false (by simp [keepInput]) (by simp)
  | some input =>
    rw [keepInput]
    split_ifs with hempty
    · exact iff_of_true rfl (congrArg some (List.length_eq_zero_iff.1 hempty))
    · refine iff_of_false (fun h => ?_) fun h => hempty (by rw [Option.some.inj h]; rfl)
      simp only [exec_bind, say, exec_modify, exec_sys] at h
      cases hset : (os.setFlags flags w.net.os).1 <;> rw [hset] at h <;> cases h

theorem LoopStarts.unique (h : LoopStarts os w s) (h' : LoopStarts os w s') : s' = s := by
  obtain ⟨flags, s₁, s₂, hget, hset, hselect⟩ := h
  obtain ⟨flags', s₁', s₂', hget', hset', hselect'⟩ := h'
  cases hget.symm.trans hget'
  cases hset.symm.trans hset'
  cases hselect.symm.trans hselect'
  rfl

/-- `c_read` goes wrong with its loop. -/
theorem undefined_iff_wrong {flags fuel : ℕ} :
    (exec (do let input ← receive os readHeader fuel []; keepInput os flags input) w).1 =
      .error .undefined ↔ GoesWrong (exec (receive os readHeader fuel []) w).1 := by
  rw [exec_bind]
  rcases exec (receive os readHeader fuel []) w with ⟨e | input, w₁⟩
  · simp [GoesWrong]
  · simp [GoesWrong, keepInput_undefined_iff]

/-- **All indexes are in bounds** in every call of `c_read`, for all results of the system, just when
the loop is not reached, or no read that delivers nothing finds the input too short. -/
theorem cRead_inBounds_iff (os : Os ω) (readHeader : Bool) (w : Wire (Socket ω)) :
    InBounds os readHeader w ↔
      ∀ s, LoopStarts os w s → ¬ Overruns os w.net.sslUsed readHeader [] s := by
  rcases @exec_cRead_start _ os readHeader w with ⟨s, flags, hstarts, hrun⟩ | ⟨hnot, hrun⟩
  · have hloop : Overruns os w.net.sslUsed readHeader [] s ↔
        ∃ fuel, (exec (Socket.cRead os fuel readHeader) w).1 = .error .undefined := by
      simp only [hrun, undefined_iff_wrong]
      exact (@receive_overruns_iff _ os readHeader [] (w.after s w.log)).symm
    constructor
    · rintro hbounds s' hs' hover
      rw [hstarts.unique hs'] at hover
      obtain ⟨fuel, hundefined⟩ := hloop.1 hover
      exact hbounds fuel hundefined
    · exact fun h fuel hundefined => h s hstarts (hloop.2 ⟨fuel, hundefined⟩)
  · refine iff_of_true (fun fuel hundefined => ?_) fun s hs => absurd hs (hnot s)
    obtain ⟨n, w', hok⟩ := hrun fuel
    rw [hok] at hundefined
    cases hundefined

end Loop

/-- A connection is closed before any byte has arrived, and the message for the log asks for the last
byte of nothing; or it is closed behind a line end of one byte, and the end condition asks for the byte
before. -/
theorem closedEarly_outOfBounds :
    (exec (Socket.cRead (endingOs .closed) 1 false) (unread [])).1 = .error .undefined ∧
      ¬ InBounds (endingOs .closed) false (unread []) ∧
      ¬ InBounds (endingOs .closed) true (unread [some ⟨bytes "\n", by decide⟩]) :=
  ⟨rfl, fun h => h 1 rfl, fun h => h 2 rfl⟩

end Mailfilter
