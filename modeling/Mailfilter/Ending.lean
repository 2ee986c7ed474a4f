import Mailfilter.Reading

/-!
# The end of the stream

Does the receive loop of `Socket::c_read` stop when nothing more is coming?

* `Ending` and `endingOs`: the results of `recv`, and then the end of the stream or an error, for good;
* `TooShort`, the inputs for which the end condition looks in front of the string;
  `headerOpen_eq_none_iff` and `headerOpen_eq_false_iff`: what the end condition says;
* `Silent`, the points where nothing is received, and `Stops`: at one of them the header looks complete,
  and the input was never too short before;
* `receive_stops_iff`: the loop stops just when only what is there was to be read, or `Stops`.
-/

namespace Mailfilter

open Program Socket

/-! ### The results of `recv` -/

/-- How a connection ends. -/
inductive Ending
  | closed
  | error
  deriving DecidableEq

/-- What `recv` returns from then on. -/
def Ending.result : Ending → Option Chunk
  | .closed => some ⟨[], Nat.zero_le _⟩
  | .error => none

theorem data_result (e : Ending) : data e.result = [] := by cases e <;> rfl

/-- A system that delivers what is in the script, and then has come to an end. -/
def endingOs (e : Ending) : Os (List (Option Chunk)) :=
  { scriptOs with recv := fun s => (s.headD e.result, s.tail) }

/-! ### The end condition -/

/-- The end condition looks in front of the input: it is empty, or a line end or its last character. -/
def TooShort (q : Bytes) : Prop := q <:+ bytes "\r\n"

instance (q : Bytes) : Decidable (TooShort q) := inferInstanceAs (Decidable (_ <:+ _))

theorem TooShort.length_lt {q : Bytes} (h : TooShort q) : q.length < 3 :=
  lt_of_le_of_lt h.length_le (by decide)

theorem StopsAt.length_le {q : Bytes} (h : StopsAt q) : 3 ≤ q.length := by
  rcases h with h | h
  · exact le_trans (by decide) h.length_le
  · exact le_trans (by decide) h.length_le

theorem headerOpen_eq_none_iff {q : Bytes} : headerOpen q = none ↔ TooShort q := by
  rcases lt_or_ge q.length 3 with hlt | hge
  · have hcases : ∀ a b : UInt8, [a, b] <:+ bytes "\r\n" ↔ a = chr '\r' ∧ b = chr '\n' := by
      intro a b
      rw [show bytes "\r\n" = [chr '\r', chr '\n'] by decide]
      refine ⟨fun h => ?_, fun h => by rw [h.1, h.2]⟩
      simpa using h.eq_of_length rfl
    have hlast : ∀ a : UInt8, [a] <:+ bytes "\r\n" ↔ a = chr '\n' := by
      intro a
      rw [show bytes "\r\n" = [chr '\r', chr '\n'] by decide]
      constructor
      · rintro ⟨t, ht⟩
        simpa using (List.append_inj' (ht.trans (List.singleton_append (l := [chr '\n'])).symm) rfl).2
      · rintro rfl
        exact ⟨[chr '\r'], rfl⟩
    match q, hlt with
    | [], _ => simp [headerOpen, fromEnd, TooShort]
    | [a], _ =>
      rw [TooShort, hlast]
      by_cases ha : a = chr '\n' <;> simp [headerOpen, fromEnd, ha]
    | [a, b], _ =>
      rw [TooShort, hcases]
      by_cases hb : b = chr '\n' <;> by_cases ha : a = chr '\r' <;>
        simp [headerOpen, fromEnd, ha, hb]
  · rw [headerOpen_of_le hge]
    exact iff_of_false (by simp) fun h => absurd h.length_lt (Nat.not_lt.2 hge)

theorem headerOpen_eq_false_iff {q : Bytes} : headerOpen q = some false ↔ StopsAt q := by
  refine ⟨stopsAt_of_headerOpen, fun h => ?_⟩
  rw [headerOpen_of_le h.length_le]
  simp [h]

/-! ### Quiet points -/

/-- The input that the loop has collected behind some results. -/
def gathered (q : Bytes) (script : List (Option Chunk)) : Bytes :=
  script.foldl (fun input c => store input (data c)) q

/-- Nothing is received next. -/
def Silent (script : List (Option Chunk)) : Prop := ∀ c ∈ script.head?, data c = []

/-- At a point where nothing is received the header looks complete, and the input was not too short at
such a point before. -/
def Stops (q : Bytes) (script : List (Option Chunk)) : Prop :=
  ∃ pre post, script = pre ++ post ∧ Silent post ∧ StopsAt (gathered q pre) ∧
    ∀ pre' post', script = pre' ++ post' → Silent post' → pre'.length < pre.length →
      ¬ TooShort (gathered q pre')

variable {q : Bytes} {c : Option Chunk} {s : List (Option Chunk)}

theorem stops_nil : Stops q [] ↔ StopsAt q := by
  constructor
  · rintro ⟨pre, post, h, -, hstops, -⟩
    obtain ⟨rfl, rfl⟩ := List.append_eq_nil_iff.1 h.symm
    exact hstops
  · intro hstops
    refine ⟨[], [], rfl, (fun c hc => nomatch hc), hstops, fun pre' post' _ _ hlt => ?_⟩
    exact absurd hlt (Nat.not_lt_zero _)

/-- A piece does not stop the loop. -/
theorem stops_cons_piece (hc : data c ≠ []) : Stops q (c :: s) ↔ Stops (store q (data c)) s := by
  have hloud : ¬ Silent (c :: s) := fun h => hc (h c rfl)
  constructor
  · rintro ⟨pre, post, h, hpost, hstops, hbefore⟩
    cases pre with
    | nil => exact absurd (h ▸ hpost) hloud
    | cons c' pre =>
      obtain ⟨rfl, rfl⟩ := List.cons.inj h
      refine ⟨pre, post, rfl, hpost, hstops, fun pre' post' h' hpost' hlt => ?_⟩
      exact hbefore (c :: pre') post' (by rw [h', List.cons_append]) hpost' (Nat.succ_lt_succ hlt)
  · rintro ⟨pre, post, rfl, hpost, hstops, hbefore⟩
    refine ⟨c :: pre, post, rfl, hpost, hstops, fun pre' post' h' hpost' hlt => ?_⟩
    cases pre' with
    | nil => exact absurd (h' ▸ hpost') hloud
    | cons c' pre' =>
      obtain ⟨rfl, htail⟩ := List.cons.inj h'
      exact hbefore pre' post' htail hpost' (Nat.lt_of_succ_lt_succ hlt)

/-- At a point where nothing is received it stops, or goes on if the input is not too short. -/
theorem stops_cons_quiet (hc : data c = []) :
    Stops q (c :: s) ↔ StopsAt q ∨ ¬ TooShort q ∧ Stops q s := by
  have hquiet : Silent (c :: s) := by
    rintro c' ⟨⟩
    exact hc
  have hgathered : ∀ pre, gathered q (c :: pre) = gathered q pre := fun pre => by
    rw [gathered, List.foldl_cons, hc]
    rfl
  constructor
  · rintro ⟨pre, post, h, hpost, hstops, hbefore⟩
    cases pre with
    | nil => exact Or.inl hstops
    | cons c' pre =>
      obtain ⟨rfl, rfl⟩ := List.cons.inj h
      refine Or.inr ⟨hbefore [] _ rfl hquiet (Nat.succ_pos _), pre, post, rfl, hpost, ?_, ?_⟩
      · rwa [hgathered] at hstops
      · intro pre' post' h' hpost' hlt
        have := hbefore (c :: pre') post' (by rw [h', List.cons_append]) hpost' (Nat.succ_lt_succ hlt)
        rwa [hgathered] at this
  · rintro (hstops | ⟨hlong, pre, post, rfl, hpost, hstops, hbefore⟩)
    · exact ⟨[], _, rfl, hquiet, hstops, fun pre' post' _ _ hlt => absurd hlt (Nat.not_lt_zero _)⟩
    · refine ⟨c :: pre, post, rfl, hpost, by rwa [hgathered], fun pre' post' h' hpost' hlt => ?_⟩
      cases pre' with
      | nil => exact hlong
      | cons c' pre' =>
        obtain ⟨rfl, htail⟩ := List.cons.inj h'
        rw [hgathered]
        exact hbefore pre' post' htail hpost' (Nat.lt_of_succ_lt_succ hlt)

/-! ### The receive loop -/

section Loop

variable {e : Ending} {readHeader : Bool} {fuel : ℕ} {w : Wire (Socket (List (Option Chunk)))}

/-- The next result of `recv`. -/
def incoming (e : Ending) (w : Wire (Socket (List (Option Chunk)))) : Bytes :=
  data (w.net.os.headD e.result)

/-- A round of the loop. -/
theorem exec_receive_round (hplain : w.net.sslUsed = false) :
    exec (receive (endingOs e) readHeader (fuel + 1) q) w =
      if 0 < (incoming e w).length then
        exec (receive (endingOs e) readHeader fuel (store q (incoming e w))) (rescript w w.net.os.tail)
      else if !readHeader then (.ok (some q), rescript w w.net.os.tail)
      else match headerOpen q with
        | none => (.error .undefined, rescript w w.net.os.tail)
        | some true => exec (receive (endingOs e) readHeader fuel q) (rescript w w.net.os.tail)
        | some false => (.ok (some q), rescript w w.net.os.tail) := by
  have hread : readOnce (endingOs e) w.net.sslUsed w.net.os =
      (some (w.net.os.headD e.result), w.net.os.tail) := by
    rw [hplain]
    rfl
  obtain ⟨log, hlog, hround⟩ := exec_receive_read (endingOs e) readHeader q w
  rw [hround, hread, hlog hplain]
  rfl

/-- What the next result does to the condition. -/
theorem stops_next_piece (hpos : 0 < (incoming e w).length) :
    Stops q w.net.os ↔ Stops (store q (incoming e w)) w.net.os.tail := by
  unfold incoming at hpos ⊢
  rcases hos : w.net.os with _ | ⟨c, s⟩ <;> rw [hos] at hpos
  · rw [List.headD_nil, data_result] at hpos
    exact absurd hpos (Nat.lt_irrefl 0)
  · exact stops_cons_piece (List.length_pos_iff.1 hpos)

theorem stops_next_quiet (hempty : ¬ 0 < (incoming e w).length) :
    Stops q w.net.os ↔ StopsAt q ∨ ¬ TooShort q ∧ Stops q w.net.os.tail := by
  unfold incoming at hempty
  rcases hos : w.net.os with _ | ⟨c, s⟩
  · rw [List.tail_nil, stops_nil]
    exact ⟨Or.inl, fun h => h.elim id And.right⟩
  · rw [hos] at hempty
    exact stops_cons_quiet (List.length_eq_zero_iff.1 (Nat.eq_zero_of_not_pos hempty))

/-- The loop that has stopped has found such a point. -/
theorem stops_of_receive (hplain : w.net.sslUsed = false) {input : Bytes}
    {w' : Wire (Socket (List (Option Chunk)))}
    (hrun : exec (receive (endingOs e) true fuel q) w = (.ok (some input), w')) :
    Stops q w.net.os := by
  induction fuel generalizing q w with
  | zero => cases hrun
  | succ fuel ih =>
    rw [exec_receive_round hplain] at hrun
    by_cases hpos : 0 < (incoming e w).length
    · rw [if_pos hpos] at hrun
      exact (stops_next_piece hpos).2 (ih (w := rescript w w.net.os.tail) hplain hrun)
    · rw [if_neg hpos, if_neg (by decide)] at hrun
      rw [stops_next_quiet hpos]
      rcases hopen : headerOpen q with _ | isOpen
      · rw [hopen] at hrun
        cases hrun
      · rw [hopen] at hrun
        cases isOpen with
        | false => exact Or.inl (headerOpen_eq_false_iff.1 hopen)
        | true =>
          refine Or.inr ⟨fun hshort => ?_, ih (w := rescript w w.net.os.tail) hplain hrun⟩
          rw [headerOpen_eq_none_iff.2 hshort] at hopen
          cases hopen

/-- At such a point the loop stops. -/
theorem receive_of_stops (hplain : w.net.sslUsed = false)
    (h : readHeader = false ∨ Stops q w.net.os) :
    ∃ fuel input w', exec (receive (endingOs e) readHeader fuel q) w = (.ok (some input), w') := by
  obtain ⟨s, hs⟩ : ∃ s, w.net.os = s := ⟨_, rfl⟩
  induction s generalizing q w with
  | nil =>
    refine ⟨1, q, rescript w w.net.os.tail, ?_⟩
    have hempty : ¬ 0 < (incoming e w).length := by
      rw [incoming, hs, List.headD_nil, data_result]
      exact Nat.lt_irrefl 0
    rw [exec_receive_round hplain, if_neg hempty]
    rcases h with rfl | h
    · rfl
    · rw [hs, stops_nil] at h
      rw [headerOpen_eq_false_iff.2 h]
      exact ite_self _
  | cons c s ih =>
    have htail : (rescript w w.net.os.tail).net.os = s := by rw [hs]; rfl
    have hrest : ∀ q', readHeader = false ∨ Stops q' w.net.os.tail → ∃ fuel input w',
        exec (receive (endingOs e) readHeader fuel q') (rescript w w.net.os.tail) =
          (.ok (some input), w') := fun q' h' => ih (w := rescript w w.net.os.tail) hplain h' htail
    by_cases hpos : 0 < (incoming e w).length
    · obtain ⟨fuel, input, w', hrun⟩ := hrest _ (h.imp_right (stops_next_piece hpos).1)
      exact ⟨fuel + 1, input, w', by rw [exec_receive_round hplain, if_pos hpos, hrun]⟩
    · cases readHeader with
      | false => exact ⟨1, q, _, by rw [exec_receive_round hplain, if_neg hpos]; rfl⟩
      | true =>
        have hround : ∀ fuel, exec (receive (endingOs e) true (fuel + 1) q) w = _ := fun fuel =>
          exec_receive_round hplain
        rcases (stops_next_quiet hpos).1 (h.resolve_left Bool.noConfusion) with hstops | ⟨hlong, hstops⟩
        · refine ⟨1, q, rescript w w.net.os.tail, ?_⟩
          rw [hround, if_neg hpos, headerOpen_eq_false_iff.2 hstops]
          rfl
        · rcases hopen : headerOpen q with _ | _ | _
          · exact absurd (headerOpen_eq_none_iff.1 hopen) hlong
          · refine ⟨1, q, rescript w w.net.os.tail, ?_⟩
            rw [hround, if_neg hpos, hopen]
            rfl
          · obtain ⟨fuel, input, w', hrun⟩ := hrest q (Or.inr hstops)
            refine ⟨fuel + 1, input, w', ?_⟩
            rw [hround, if_neg hpos, hopen]
            exact hrun

/-- **The receive loop stops** after finitely many rounds if and only if there is no header to be read,
or at a point where nothing is received the header looks complete and the input was never too short
before. -/
theorem receive_stops_iff (hplain : w.net.sslUsed = false) :
    (∃ fuel input w', exec (receive (endingOs e) readHeader fuel []) w = (.ok (some input), w')) ↔
      readHeader = false ∨ Stops [] w.net.os := by
  refine ⟨?_, receive_of_stops hplain⟩
  rintro ⟨fuel, input, w', hrun⟩
  cases readHeader with
  | false => exact Or.inl rfl
  | true => exact Or.inr (stops_of_receive hplain hrun)

end Loop

/-- A reply to `TOP` that breaks off behind its first line. -/
def brokenOff : List (Option Chunk) := [some ⟨bytes "+OK\r\n", by decide⟩]

/-- However many rounds there are, the loop needs more. -/
theorem brokenOff_looping (fuel : ℕ) :
    (exec (receive (endingOs .closed) true fuel []) (unread brokenOff)).1 = .error .looping := by
  have hopen : headerOpen (bytes "+OK\r\n") = some true := by decide
  have hloop : ∀ fuel (w : Wire (Socket (List (Option Chunk)))), w.net.sslUsed = false →
      w.net.os = [] →
      (exec (receive (endingOs .closed) true fuel (bytes "+OK\r\n")) w).1 = .error .looping := by
    intro fuel
    induction fuel with
    | zero => exact fun _ _ _ => rfl
    | succ fuel ih =>
      intro w hplain hos
      have hempty : ¬ 0 < (incoming .closed w).length := by
        rw [incoming, hos]
        exact Nat.lt_irrefl 0
      rw [exec_receive_round hplain, if_neg hempty, hopen]
      exact ih _ hplain (by rw [hos]; rfl)
  cases fuel with
  | zero => rfl
  | succ fuel =>
    rw [exec_receive_round rfl, if_pos (by decide)]
    exact hloop fuel _ rfl rfl

/-- The loop never stops. -/
theorem brokenOff_loops : ¬ ∃ fuel input w',
    exec (receive (endingOs .closed) true fuel []) (unread brokenOff) = (.ok (some input), w') := by
  rintro ⟨fuel, input, w', hrun⟩
  have hlooping := brokenOff_looping fuel
  rw [hrun] at hlooping
  cases hlooping

/-- A whole reply is read. -/
theorem receive_stops_iff_whole :
    ∃ fuel input w', exec (receive (endingOs .closed) true fuel [])
      (unread [some ⟨bytes "+OK\r\n.\r\n", by decide⟩]) = (.ok (some input), w') := by
  refine (receive_stops_iff (e := .closed) rfl).2 (Or.inr ?_)
  refine (stops_cons_piece (by decide)).2 (stops_nil.2 (Or.inl ?_))
  decide

end Mailfilter
