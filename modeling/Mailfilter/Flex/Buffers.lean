import Mailfilter.Flex.Match

/-!
# Scanners with trailing context and several buffers

A scanner whose actions may give characters back (`r/s` and `r$`), end the program, or switch to
another buffer (`yy_switch_to_buffer`), which is scanned to its end before the scan goes on.

* `Reaction`, what an action asks for, `Scan`, what a scan has done so far, and `Scan.andThen`;
* `BufferScanner`, whose actions never give back the whole match, so that `scan`, with the length of
  the buffer as fuel, comes to its end (`run_of_le`);
* `Files` and `nested`, the scan of a file at some depth of the stack of buffers;
* `scan_step`: one step; `scan_induction`: induction along a scan;
* `scan_append`: the scan of two texts in one buffer, if the rules that fire in the first one do not
  see the second.
-/

namespace Flex

variable {α κ τ : Type}

/-- What an action does besides `BEGIN`. -/
inductive Request (τ α : Type)
  | emit (t : τ)
  | enter (name : List α)
  | stop (t : τ)

/-- The request of an action, and the number of characters of the match that it gives back. -/
structure Reaction (τ α : Type) where
  back : ℕ
  request : Request τ α

/-- What was emitted, and the start condition at the end unless the scan was stopped. -/
abbrev Scan (τ κ : Type) := List τ × Option κ

/-- A scan that goes on with another one. -/
def Scan.andThen (x : Scan τ κ) (f : κ → Scan τ κ) : Scan τ κ :=
  match x.2 with
  | none => x
  | some k => (x.1 ++ (f k).1, (f k).2)

/-- A scanner with buffers. -/
structure BufferScanner (κ τ α : Type) where
  rules : List (Rule κ (Reaction τ α) α)
  newline : α
  back_lt : ∀ r ∈ rules, ∀ text ∈ r.pattern.lang, text ≠ [] → ∀ k,
    ∀ reaction ∈ (r.action text k).1, reaction.back < text.length

/-- How much an action gives back. -/
def given : Option (Reaction τ α) → ℕ
  | none => 0
  | some reaction => reaction.back

/-- An action in a start condition, after which the buffers that it asks for are scanned by `sub`. -/
def react (sub : List α → κ → Scan τ κ) (k : κ) : Option (Reaction τ α) → Scan τ κ
  | none => ([], some k)
  | some ⟨_, .emit t⟩ => ([t], some k)
  | some ⟨_, .enter name⟩ => sub name k
  | some ⟨_, .stop t⟩ => ([t], none)

/-- Whether the next character begins a line, after some text. -/
def bolAfter [DecidableEq α] (newline : α) (bol : Bool) (text : List α) : Bool :=
  match text.getLast? with
  | some c => c = newline
  | none => bol

namespace BufferScanner

variable [DecidableEq α] (sc : BufferScanner κ τ α) (sub : List α → κ → Scan τ κ)

/-- At most `fuel` matches in a buffer. -/
def run : ℕ → κ → Bool → List α → Scan τ κ
  | 0, k, _, _ => ([], some k)
  | _ + 1, k, _, [] => ([], some k)
  | fuel + 1, k, bol, c :: s =>
    match best sc.rules k bol (c :: s) with
    | some (r, n) =>
      let (reaction, k') := r.action ((c :: s).take n) k
      let m := n - given reaction
      (react sub k' reaction).andThen fun k' =>
        run fuel k' (bolAfter sc.newline bol ((c :: s).take m)) ((c :: s).drop m)
    | none => run fuel k (c = sc.newline) s

/-- A buffer. -/
def scan (k : κ) (bol : Bool) (s : List α) : Scan τ κ := sc.run sub s.length k bol s

/-- The files that actions can switch to: what is emitted before and after their text. -/
structure Files (τ α : Type) where
  tooDeep : τ
  opened : List α → Except τ (τ × List α)
  closed : τ

/-- A file, with at most `depth` buffers on the stack. -/
def nested (files : Files τ α) : ℕ → List α → κ → Scan τ κ
  | 0, _, _ => ([files.tooDeep], none)
  | depth + 1, name, k =>
    match files.opened name with
    | .error t => ([t], none)
    | .ok (t, s) =>
      Scan.andThen (t :: (sc.scan (nested files depth) k true s).1,
        (sc.scan (nested files depth) k true s).2) fun k => ([files.closed], some k)

end BufferScanner

/-! ### Scans in a row -/

section Scan

@[simp] theorem Scan.andThen_some (ts : List τ) (k : κ) (f : κ → Scan τ κ) :
    Scan.andThen (ts, some k) f = (ts ++ (f k).1, (f k).2) := rfl

theorem Scan.andThen_assoc (x : Scan τ κ) (f g : κ → Scan τ κ) :
    (x.andThen f).andThen g = x.andThen fun k => (f k).andThen g := by
  rcases x with ⟨ts, _ | k⟩
  · rfl
  · rw [andThen_some, andThen_some]
    rcases hf : f k with ⟨us, _ | j⟩
    · rfl
    · simp [List.append_assoc]

theorem Scan.andThen_congr {x : Scan τ κ} {f g : κ → Scan τ κ} (h : ∀ k ∈ x.2, f k = g k) :
    x.andThen f = x.andThen g := by
  rcases x with ⟨ts, _ | k⟩
  · rfl
  · rw [andThen_some, andThen_some, h k rfl]

variable [DecidableEq α]

@[simp] theorem bolAfter_nil (newline : α) (bol : Bool) : bolAfter newline bol [] = bol := rfl

@[simp] theorem bolAfter_concat (newline : α) (bol : Bool) (u : List α) (c : α) :
    bolAfter newline bol (u ++ [c]) = decide (c = newline) := by
  simp [bolAfter]

theorem bolAfter_append (newline : α) (bol : Bool) (u v : List α) :
    bolAfter newline bol (u ++ v) = bolAfter newline (bolAfter newline bol u) v := by
  rcases List.eq_nil_or_concat v with rfl | ⟨v, c, rfl⟩
  · rw [List.append_nil, bolAfter_nil]
  · rw [List.concat_eq_append, ← List.append_assoc, bolAfter_concat, bolAfter_concat]

/-- Within a line. -/
theorem bolAfter_of_notMem {newline : α} {bol : Bool} {u : List α} (hu : u ≠ [])
    (h : newline ∉ u) : bolAfter newline bol u = false := by
  obtain ⟨u, c, rfl⟩ := List.eq_nil_or_concat u |>.resolve_left hu
  rw [List.concat_eq_append, bolAfter_concat]
  exact decide_eq_false fun hc => h (by simp [hc])

end Scan

/-! ### Steps of a scan -/

namespace BufferScanner

variable [DecidableEq α] (sc : BufferScanner κ τ α) {sub : List α → κ → Scan τ κ}
  {k : κ} {bol : Bool} {s : List α} {r : Rule κ (Reaction τ α) α} {n : ℕ}

omit [DecidableEq α] in
theorem length_drop_le (c : α) (s : List α) {m : ℕ} (hm : 0 < m) :
    ((c :: s).drop m).length ≤ s.length := by
  rw [List.length_drop, List.length_cons]
  omega

omit [DecidableEq α] in
variable {sc} in
/-- A match is within the buffer, and not all of it is given back. -/
theorem given_lt (h : best sc.rules k bol s = some (r, n)) :
    n ≤ s.length ∧ given (r.action (s.take n) k).1 < n := by
  obtain ⟨hmem, hlen⟩ := best_mem h
  obtain ⟨-, -, hlong, hpos⟩ := Rule.length_eq_some hlen
  obtain ⟨hle, htake⟩ := Pattern.take_mem_of_longest hlong
  have hlength : (s.take n).length = n := List.length_take_of_le hle
  refine ⟨hle, ?_⟩
  rcases hreaction : (r.action (s.take n) k).1 with _ | reaction
  · exact hpos
  · have hback := sc.back_lt r hmem _ htake (by rw [← List.length_pos_iff, hlength]; exact hpos) k
      reaction hreaction
    rwa [hlength] at hback

/-- More fuel than characters changes nothing. -/
theorem run_of_le {fuel : ℕ} (h : s.length ≤ fuel) :
    sc.run sub fuel k bol s = sc.scan sub k bol s := by
  unfold scan
  induction fuel using Nat.strong_induction_on generalizing k bol s with
  | _ fuel ih =>
    rcases s with _ | ⟨c, s⟩
    · cases fuel <;> rfl
    · obtain ⟨fuel, rfl⟩ : ∃ f, fuel = f + 1 := ⟨fuel - 1, by simp at h; omega⟩
      rw [List.length_cons, Nat.add_le_add_iff_right] at h
      rw [List.length_cons, run, run]
      rcases hb : best sc.rules k bol (c :: s) with _ | ⟨r, n⟩
      · simp only []
        rw [ih fuel (Nat.lt_succ_self _) h]
      · obtain ⟨hn, hback⟩ := given_lt hb
        simp only []
        refine congrArg (Scan.andThen _) (funext fun k' => ?_)
        have hpos : 0 < n - given (r.action ((c :: s).take n) k).1 := by omega
        have hdrop := length_drop_le c s hpos
        rw [ih fuel (Nat.lt_succ_self _) (hdrop.trans h), ih s.length (by omega) hdrop]

/-- One step. -/
theorem scan_of_best (hb : best sc.rules k bol s = some (r, n)) :
    sc.scan sub k bol s =
      (react sub (r.action (s.take n) k).2 (r.action (s.take n) k).1).andThen fun k' =>
        sc.scan sub k' (bolAfter sc.newline bol (s.take (n - given (r.action (s.take n) k).1)))
          (s.drop (n - given (r.action (s.take n) k).1)) := by
  obtain ⟨hn, hback⟩ := given_lt hb
  rcases s with _ | ⟨c, s⟩
  · simp at hn
    omega
  · rw [scan, List.length_cons, run, hb]
    simp only []
    refine congrArg (Scan.andThen _) (funext fun k' => ?_)
    have hpos : 0 < n - given (r.action ((c :: s).take n) k).1 := by omega
    rw [run_of_le]
    exact length_drop_le c s hpos

/-- One step that takes the text `u`, with the context `x` behind it. -/
theorem scan_step {u x v : List α} (hb : best sc.rules k bol (u ++ v) = some (r, (u ++ x).length))
    (hx : x <+: v) (hgiven : given (r.action (u ++ x) k).1 = x.length) :
    sc.scan sub k bol (u ++ v) =
      (react sub (r.action (u ++ x) k).2 (r.action (u ++ x) k).1).andThen fun k' =>
        sc.scan sub k' (bolAfter sc.newline bol u) v := by
  obtain ⟨v, rfl⟩ := hx
  rw [scan_of_best sc hb]
  have htake : (u ++ (x ++ v)).take (u ++ x).length = u ++ x := by
    rw [← List.append_assoc, List.take_left']
    rfl
  rw [htake, hgiven, List.length_append, Nat.add_sub_cancel, List.take_left', List.drop_left']
  · rfl
  · rfl

/-- Where no rule matches, one character is skipped. -/
theorem scan_of_none {c : α} (hb : best sc.rules k bol (c :: s) = none) :
    sc.scan sub k bol (c :: s) = sc.scan sub k (bolAfter sc.newline bol [c]) s := by
  rw [scan, List.length_cons, run, hb]
  rfl

variable (sub) in
/-- Induction along a scan. -/
theorem scan_induction {P : κ → Bool → List α → Prop} (nil : ∀ k bol, P k bol [])
    (rule : ∀ k bol s r n, best sc.rules k bol s = some (r, n) →
      (∀ k' ∈ (react sub (r.action (s.take n) k).2 (r.action (s.take n) k).1).2,
        P k' (bolAfter sc.newline bol (s.take (n - given (r.action (s.take n) k).1)))
          (s.drop (n - given (r.action (s.take n) k).1))) → P k bol s)
    (skip : ∀ k bol c s, best sc.rules k bol (c :: s) = none →
      P k (bolAfter sc.newline bol [c]) s → P k bol (c :: s)) (k : κ) (bol : Bool) (s : List α) :
    P k bol s := by
  induction hn : s.length using Nat.strong_induction_on generalizing k bol s with
  | _ len ih =>
    rcases s with _ | ⟨c, s⟩
    · exact nil k bol
    · rcases hb : best sc.rules k bol (c :: s) with _ | ⟨r, n⟩
      · exact skip k bol c s hb (ih s.length (by simp [← hn]) _ _ s rfl)
      · obtain ⟨hle, hback⟩ := given_lt hb
        refine rule k bol (c :: s) r n hb fun k' _ => ih _ ?_ k' _ _ rfl
        rw [List.length_drop, ← hn]
        omega

/-! ### Two texts in a row -/

/-- A rule that fires within the first text. -/
theorem scan_append_of_best {u v : List α} {f : κ → Scan τ κ}
    (hb : best sc.rules k bol u = some (r, n)) (hsame : best sc.rules k bol (u ++ v) = some (r, n))
    (hnext : ∀ k' ∈ (react sub (r.action (u.take n) k).2 (r.action (u.take n) k).1).2,
      sc.scan sub k' (bolAfter sc.newline bol (u.take (n - given (r.action (u.take n) k).1)))
          (u.drop (n - given (r.action (u.take n) k).1) ++ v) =
        (sc.scan sub k' (bolAfter sc.newline bol (u.take (n - given (r.action (u.take n) k).1)))
          (u.drop (n - given (r.action (u.take n) k).1))).andThen f) :
    sc.scan sub k bol (u ++ v) = (sc.scan sub k bol u).andThen f := by
  obtain ⟨hle, hback⟩ := given_lt hb
  rw [scan_of_best sc hb, scan_of_best sc hsame, List.take_append_of_le_length hle]
  -- what is given back stays within the first text
  generalize hm : n - given (r.action (u.take n) k).1 = m at hnext ⊢
  have hmle : m ≤ u.length := by omega
  rw [List.take_append_of_le_length hmle, List.drop_append_of_le_length hmle, Scan.andThen_assoc]
  generalize react sub _ _ = x at hnext ⊢
  rcases x with ⟨ts, _ | k'⟩
  · rfl
  · rw [Scan.andThen_some, Scan.andThen_some, hnext k' rfl]

/-- What is asked of the states in which a text is scanned, so that the rules that fire do not see
`v` behind it. -/
structure Blind (sub : List α → κ → Scan τ κ) (v : List α) (P : κ → Bool → List α → Prop) : Prop where
  best_eq : ∀ k bol u, u ≠ [] → P k bol u →
    best sc.rules k bol (u ++ v) = best sc.rules k bol u
  step : ∀ k bol u r n, P k bol u → best sc.rules k bol u = some (r, n) →
    ∀ k' ∈ (react sub (r.action (u.take n) k).2 (r.action (u.take n) k).1).2,
      P k' (bolAfter sc.newline bol (u.take (n - given (r.action (u.take n) k).1)))
        (u.drop (n - given (r.action (u.take n) k).1))
  skip : ∀ k bol c u, P k bol (c :: u) → best sc.rules k bol (c :: u) = none →
    P k (bolAfter sc.newline bol [c]) u

/-- **Two texts.** The scan of one text is followed by that of the other. -/
theorem scan_append {u v : List α} {P : κ → Bool → List α → Prop} (hP : sc.Blind sub v P)
    (hu : P k bol u) :
    sc.scan sub k bol (u ++ v) =
      (sc.scan sub k bol u).andThen fun k' => sc.scan sub k' (bolAfter sc.newline bol u) v := by
  induction k, bol, u using sc.scan_induction sub with
  | nil k bol => rfl
  | rule k bol u r n hb ih =>
    have hsame := (hP.best_eq k bol u (ne_nil_of_best hb) hu).trans hb
    refine sc.scan_append_of_best hb hsame fun k' hk' => ?_
    rw [ih k' hk' (hP.step k bol u r n hu hb k' hk'), ← bolAfter_append, List.take_append_drop]
  | skip k bol c u hb ih =>
    have hsame := (hP.best_eq k bol _ (List.cons_ne_nil c u) hu).trans hb
    have hnext := ih (hP.skip k bol c u hu hb)
    rw [List.cons_append] at hsame ⊢
    rw [scan_of_none sc hb, scan_of_none sc hsame, hnext, ← bolAfter_append]
    rfl

/-- **Lines.** A line is scanned without a look at the text behind it. -/
theorem scan_line (hrules : ∀ r ∈ sc.rules, r.pattern.EndsLine sc.newline) (l v : List α) :
    sc.scan sub k bol (l ++ sc.newline :: v) =
      (sc.scan sub k bol (l ++ [sc.newline])).andThen fun k' => sc.scan sub k' true v := by
  have hblind : sc.Blind sub v fun _ _ u => ∀ c ∈ u.getLast?, c = sc.newline := by
    refine ⟨fun k bol u hne hu => ?_, fun k bol u r n hu hb k' _ => ?_, fun k bol c u hu _ => ?_⟩
    · obtain ⟨l, c, rfl⟩ := List.eq_nil_or_concat u |>.resolve_left hne
      rw [List.concat_eq_append] at hu ⊢
      obtain rfl := hu c (by simp)
      refine best_congr fun r hr => ?_
      rw [List.append_assoc, List.singleton_append, Rule.length, Rule.length,
        Pattern.longest_append_of_endsLine (hrules r hr) l v []]
    · rw [List.getLast?_drop]
      split
      · exact fun c hc => absurd hc (Option.not_mem_none c)
      · exact hu
    · rcases u with _ | ⟨d, u⟩
      · exact fun c hc => absurd hc (Option.not_mem_none c)
      · rwa [List.getLast?_cons_cons] at hu
  have hlast : ∀ c ∈ (l ++ [sc.newline]).getLast?, c = sc.newline := fun c hc => by
    rw [List.getLast?_concat] at hc
    exact (Option.some.inj hc).symm
  have hscan : sc.scan sub k bol (l ++ [sc.newline] ++ v) = _ := sc.scan_append hblind hlast
  rwa [List.append_assoc, List.singleton_append, bolAfter_concat, decide_eq_true rfl] at hscan

end BufferScanner

end Flex
