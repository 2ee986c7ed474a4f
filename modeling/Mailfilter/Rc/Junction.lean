import Mailfilter.Rc.Matches
import Mathlib.Data.List.DropRight

/-!
# The end of an included file

What `rclex` does when the last line `p` of an included file is followed by the rest `r` of the line
with the `INCLUDE`, and what it does with `p` and `r` in one buffer.

* `Joins p r`: no word of a rule reaches over the end of the file, and neither `p` nor `r` is a remark
  that the other one disturbs;
* `scan_sub`: without an `INCLUDE` the files do not matter;
* `scan_indent`, `scan_remark`: blanks and remarks at the beginning of a line;
* `best_append_of_not_reaches`: the same rule fires in `p` and in `p ++ r`;
* `scan_join`: the scan of both is the scan of `p`, followed by that of `r`.
-/

namespace Mailfilter.Rc

open Flex

/-! ### Two parts of a line -/

def IsBlank (s : Bytes) : Prop := ∀ c ∈ s, isblank c = true

/-- What the rule for remarks can match at the beginning. -/
def IsRemark (s : Bytes) : Prop := ∃ b t, IsBlank b ∧ s = b ++ chr '#' :: t

/-- A word of the rule `n` begins with `u` and reaches into `r`. -/
def Reaches (n : RuleName) (u r : Bytes) : Prop :=
  ∃ x, x ≠ [] ∧ x <+: r ∧ u ++ x ∈ n.pattern.lang

/-- What is asked of the rest `r` behind the line `p`, if the scanner is in `k` at the beginning of `p`
and in `f` at the end of it. -/
structure JoinsFrom (k : StartCondition) (bol : Bool) (f : Option StartCondition) (p r : Bytes) :
    Prop where
  newRemark : bol = true → IsBlank p → ¬IsRemark r
  remark : bol = true → IsRemark p → IsBlank r
  includeWord : f = none → ∀ a u, p = a ++ u → ¬Reaches .includeWord u r
  shellCmd : f = some .param → ∀ a u, p = a ++ u → ¬Reaches .shellCmd u r
  -- the first quotation mark of a line does not close an argument
  closingQuote : f = some .param → ∀ a u, p = a ++ u → k = .param ∨ quotation ∈ a →
    ¬Reaches .closingQuote u (r ++ [lf])

/-- The scan of a text in which no `INCLUDE` is found. -/
def scanAlone (k : StartCondition) (bol : Bool) (s : Bytes) : Scan Event StartCondition :=
  rcScanner.scan (fun _ k => ([], some k)) k bol s

/-- What is asked of the last line `p` of a file and of the rest `r` behind it. -/
def Joins (p r : Bytes) : Prop := JoinsFrom .initial true (scanAlone .initial true p).2 p r

/-! ### Steps -/

variable {sub sub' : Bytes → StartCondition → Scan Event StartCondition} {k k' : StartCondition}
  {bol : Bool} {c : UInt8} {s u v b : Bytes} {n : RuleName} {m : ℕ}

theorem exists_ruleName {r : Rule StartCondition (Reaction Event UInt8) UInt8}
    (hb : best rcScanner.rules k bol s = some (r, m)) :
    ∃ n : RuleName, r = n.rule ∧ n.active k = true ∧ s.take m ∈ n.pattern.lang := by
  obtain ⟨hr, hlen⟩ := best_mem hb
  obtain ⟨n, -, rfl⟩ := List.mem_map.1 hr
  obtain ⟨hactive, -, hlong, -⟩ := Rule.length_eq_some hlen
  exact ⟨n, rfl, hactive, (Pattern.take_mem_of_longest hlong).2⟩

/-- A step of the scanner: some events, and the scan of what is left. -/
theorem scan_next {r : Rule StartCondition (Reaction Event UInt8) UInt8}
    (hb : best rcScanner.rules k bol s = some (r, m))
    (hk' : k' ∈ (react sub (r.action (s.take m) k).2 (r.action (s.take m) k).1).2) :
    rcScanner.scan sub k bol s =
      Scan.andThen (react sub (r.action (s.take m) k).2 (r.action (s.take m) k).1) fun _ =>
        rcScanner.scan sub k'
          (bolAfter lf bol (s.take (m - given (r.action (s.take m) k).1)))
          (s.drop (m - given (r.action (s.take m) k).1)) := by
  rw [rcScanner.scan_of_best hb]
  generalize react sub _ _ = x at hk' ⊢
  obtain ⟨ts, f⟩ := x
  obtain rfl : f = some k' := hk'
  rfl

variable (sub sub') in
/-- Outside of `INCL`, all rules but that for `INCLUDE` keep away from the files. -/
theorem react_sub (hn : n.active k = true) (hk : k ≠ .incl) (hword : n ≠ .includeWord)
    (text : Bytes) : (n.rule.action text k).2 ≠ .incl ∧
      react sub' (n.rule.action text k).2 (n.rule.action text k).1 =
        react sub (n.rule.action text k).2 (n.rule.action text k).1 ∧
      ∀ k' ∈ (react sub (n.rule.action text k).2 (n.rule.action text k).1).2,
        k' = (n.rule.action text k).2 := by
  cases n
  case includeWord => exact absurd rfl hword
  case inclBlanks => exact absurd (of_decide_eq_true hn) hk
  case inclName => exact absurd (of_decide_eq_true hn) hk
  case word w =>
    refine ⟨?_, rfl, fun k' hk' => (Option.some.inj hk').symm⟩
    cases w <;> first | exact hk | exact nofun
  case openingQuote =>
    refine ⟨?_, rfl, fun k' hk' => (Option.some.inj hk').symm⟩
    show (if k ≠ .paramBool then StartCondition.param else k) ≠ .incl
    split
    · exact nofun
    · exact hk
  case newline => exact ⟨nofun, rfl, fun k' hk' => (Option.some.inj hk').symm⟩
  case anyChar => exact ⟨hk, rfl, fun k' hk' => nomatch hk'⟩
  all_goals exact ⟨hk, rfl, fun k' hk' => (Option.some.inj hk').symm⟩

/-- Where no `INCLUDE` is found, it does not matter what the files are. -/
theorem scan_sub (hk : k ≠ .incl) (hno : .beginInclude ∉ (rcScanner.scan sub k bol s).1) :
    rcScanner.scan sub' k bol s = rcScanner.scan sub k bol s := by
  induction k, bol, s using rcScanner.scan_induction sub with
  | nil k bol => rfl
  | rule k bol s r m hb ih =>
    obtain ⟨n, rfl, hactive, -⟩ := exists_ruleName hb
    rw [rcScanner.scan_of_best hb] at hno ⊢
    rw [rcScanner.scan_of_best hb]
    -- the rule for `INCLUDE` would show in the events
    have hword : n ≠ .includeWord := by
      rintro rfl
      exact hno (List.mem_cons_self ..)
    obtain ⟨hnext, hreact, hstart⟩ := react_sub sub sub' hactive hk hword (s.take m)
    rw [hreact]
    generalize react sub _ _ = x at hno ih hstart ⊢
    rcases x with ⟨ts, _ | k'⟩
    · rfl
    · rw [Scan.andThen_some] at hno
      have hsame := ih k' rfl (hstart k' rfl ▸ hnext) fun h => hno (List.mem_append_right _ h)
      rw [Scan.andThen_some, Scan.andThen_some, hsame]
  | skip k bol c s hb ih =>
    rw [rcScanner.scan_of_none hb] at hno ⊢
    rw [rcScanner.scan_of_none hb, ih hk hno]

/-! ### Blanks and remarks -/

theorem isBlank_append : IsBlank (u ++ v) ↔ IsBlank u ∧ IsBlank v := List.forall_mem_append

theorem IsBlank.notMem_lf (h : IsBlank s) : lf ∉ s := fun hmem => absurd (h lf hmem) (by decide)

theorem scan_blanks (hk : k.inclusive = true) (hb : IsBlank b) :
    rcScanner.scan sub k false (b ++ s) = rcScanner.scan sub k false s := by
  induction b with
  | nil => rfl
  | cons c b ih =>
    rw [List.cons_append, scan_blank hk (hb c (List.mem_cons_self ..)),
      ih fun d hd => hb d (List.mem_cons_of_mem c hd)]

/-- Blanks in front of a remark belong to it. -/
theorem isRemark_append (hb : IsBlank b) : IsRemark (b ++ s) ↔ IsRemark s := by
  constructor
  · rintro ⟨b', t, hb', hsame⟩
    rcases List.append_eq_append_iff.1 hsame with ⟨a, rfl, rfl⟩ | ⟨a, rfl, ha⟩
    · exact ⟨a, t, (isBlank_append.1 hb').2, rfl⟩
    · rcases a with _ | ⟨d, a⟩
      · exact ⟨[], t, nofun, ha.symm⟩
      · obtain ⟨rfl, -⟩ := List.cons.inj ha
        exact absurd (hb (chr '#') (by simp)) (by decide)
  · rintro ⟨b', t, hb', rfl⟩
    exact ⟨b ++ b', t, isBlank_append.2 ⟨hb, hb'⟩, (List.append_assoc b b' _).symm⟩

theorem mem_rem {w : Bytes} : w ∈ RuleName.rem.pattern.lang ↔
    ∃ b t, IsBlank b ∧ lf ∉ t ∧ w = b ++ chr '#' :: t := by
  constructor
  · intro h
    obtain ⟨b, hb, x, hx, rfl⟩ := Pattern.mem_seq.1 h
    obtain ⟨q, hq, t, ht, rfl⟩ := Pattern.mem_seq.1 hx
    rw [Pattern.mem_lit.1 hq]
    refine ⟨b, t, Pattern.mem_star_cls.1 hb, fun hlf => ?_, rfl⟩
    simpa using Pattern.mem_star_cls.1 ht lf hlf
  · rintro ⟨b, t, hb, ht, rfl⟩
    refine Pattern.mem_seq.2 ⟨b, Pattern.mem_star_cls.2 hb, chr '#' :: t, Pattern.mem_seq.2
      ⟨[chr '#'], Pattern.mem_lit.2 rfl, t, Pattern.mem_star_cls.2 fun c hc => ?_, rfl⟩, rfl⟩
    exact decide_eq_true fun h => ht (h ▸ hc)

/-- The beginning of a line matters for remarks only. -/
theorem scan_bol (hs : ¬IsRemark s) :
    rcScanner.scan sub k true s = rcScanner.scan sub k false s := by
  rcases s with _ | ⟨c, s⟩
  · rfl
  · have hbest : best rcScanner.rules k true (c :: s) = best rcScanner.rules k false (c :: s) := by
      refine best_congr fun r hr => ?_
      obtain ⟨n, -, rfl⟩ := List.mem_map.1 hr
      by_cases hn : n = .rem
      · subst hn
        rw [Rule.length_of_anchored rfl]
        refine Rule.length_eq_none fun w v hwv _ hmem => hs ?_
        obtain ⟨b, t, hb, -, rfl⟩ := mem_rem.1 hmem
        exact ⟨b, t ++ v, hb, by rw [← hwv]; simp⟩
      · have hanchor : n.rule.bol = false := decide_eq_false hn
        simp [Rule.length, hanchor]
    rcases hb : best rcScanner.rules k false (c :: s) with _ | ⟨r, m⟩
    · rw [rcScanner.scan_of_none hb, rcScanner.scan_of_none (hbest.trans hb)]
      rfl
    · rw [rcScanner.scan_of_best hb, rcScanner.scan_of_best (hbest.trans hb)]
      obtain ⟨-, hback⟩ := BufferScanner.given_lt hb
      refine congrArg (Scan.andThen _) (funext fun k' => ?_)
      obtain ⟨l, hl⟩ := Nat.exists_eq_add_of_lt (Nat.sub_pos_of_lt hback)
      rw [hl]
      simp [bolAfter, List.getLast?_cons]

/-- A remark reaches to the end of its line. -/
theorem scan_remark {b t : Bytes} (hb : IsBlank b) (ht : lf ∉ t) (hv : ∀ c ∈ v.head?, c = lf) :
    rcScanner.scan sub .initial true (b ++ chr '#' :: (t ++ v)) =
      rcScanner.scan sub .initial false v := by
  have hmem : b ++ chr '#' :: t ∈ RuleName.rem.pattern.lang := mem_rem.2 ⟨b, t, hb, ht, rfl⟩
  have havoids : RuleName.rem.pattern.avoids [lf] = true := by decide
  have hstop : ∀ c ∈ v.head?, c ∈ [lf] := fun c hc => by simp [hv c hc]
  have hlen : RuleName.rem.rule.length .initial true ((b ++ chr '#' :: t) ++ v) =
      some (b ++ chr '#' :: t).length :=
    Rule.length_of_longest rfl (fun _ => rfl) (Pattern.longest_of_avoids havoids hmem hstop)
      (by simp)
  have hbest : best rcScanner.rules .initial true ((b ++ chr '#' :: t) ++ v) =
      some (RuleName.rem.rule, (b ++ chr '#' :: t).length) := by
    rcases b with _ | ⟨c, b⟩
    · exact best_of_pair (by rfl) hlen
    · have hcand : candidates .initial true c = [.rem, .blank, .anyChar] := by
        rcases isblank_iff.1 (hb c (List.mem_cons_self ..)) with rfl | rfl <;> rfl
      refine best_of_candidates hcand hlen fun n hn m hm => ?_
      have hone : m ≤ 1 := by
        simp only [List.mem_cons, List.not_mem_nil, or_false] at hn
        rcases hn with rfl | rfl
        all_goals exact Pattern.le_one_of_longest_cls (Rule.length_eq_some hm).2.2.1
      exact hone.trans (by simp)
  have hline : bolAfter lf true (b ++ chr '#' :: t) = false :=
    bolAfter_of_notMem (by simp) (Pattern.notMem_of_avoids havoids hmem lf (by decide))
  have hstep : rcScanner.scan sub .initial true ((b ++ chr '#' :: t) ++ v) = _ :=
    scan_skip hbest rfl
  rw [hline, List.append_assoc, List.cons_append] at hstep
  exact hstep

/-- The rest of a line, and what comes behind it. -/
theorem exists_line (s : Bytes) : ∃ t v, s = t ++ v ∧ lf ∉ t ∧ ∀ c ∈ v.head?, c = lf := by
  refine ⟨s.takeWhile (· ≠ lf), s.dropWhile (· ≠ lf), (List.takeWhile_append_dropWhile).symm,
    fun h => ?_, fun c hc => ?_⟩
  · simpa using List.mem_takeWhile_imp h
  · simpa using List.head?_dropWhile_not (fun c => decide (c ≠ lf)) s |> fun h => by
      rw [hc] at h
      simpa using h

/-- Blanks at the beginning of a line. -/
theorem scan_indent (hb : IsBlank b) :
    rcScanner.scan sub .initial true (b ++ s) = rcScanner.scan sub .initial true s := by
  by_cases hs : IsRemark s
  · obtain ⟨b', t, hb', rfl⟩ := hs
    obtain ⟨t, v, rfl, ht, hv⟩ := exists_line t
    rw [scan_remark hb' ht hv, ← List.append_assoc, scan_remark (isBlank_append.2 ⟨hb, hb'⟩) ht hv]
  · rw [scan_bol hs, scan_bol fun h => hs ((isRemark_append hb).1 h), scan_blanks rfl hb]

/-! ### Matches that do not reach over the end -/

/-- An argument goes on to the end of its line. -/
theorem scan_param (hk : k = .param) (hs : lf ∉ s) :
    (rcScanner.scan sub k bol s).2 = some .param := by
  induction k, bol, s using rcScanner.scan_induction sub with
  | nil k bol => rw [hk]; rfl
  | rule k bol s r m hb ih =>
    subst hk
    obtain ⟨c, s, rfl⟩ := List.exists_cons_of_ne_nil (ne_nil_of_best hb)
    have hc : c ≠ lf := fun h => hs (h ▸ List.mem_cons_self ..)
    obtain ⟨n, m', hb', hn⟩ := best_param hc bol s
    obtain ⟨rfl, rfl⟩ := Prod.mk.inj (Option.some.inj (hb.symm.trans hb'))
    rw [rcScanner.scan_of_best hb]
    rcases hn with ⟨rfl, rfl⟩ | rfl | rfl | rfl | rfl
    all_goals exact ih _ rfl rfl fun h => hs (List.mem_of_mem_drop h)
  | skip k bol c s hb ih =>
    obtain ⟨r, m, hb'⟩ := exists_best k bol c s
    exact absurd (hb.symm.trans hb') nofun

theorem Reaches.of_append {r e : Bytes} (havoids : n.pattern.avoids [lf] = true)
    (he : ∀ c ∈ e.head?, c = lf) (h : Reaches n u (r ++ e)) : Reaches n u r := by
  obtain ⟨x, hx, ⟨y, hy⟩, hmem⟩ := h
  refine ⟨x, hx, ?_, hmem⟩
  rcases List.append_eq_append_iff.1 hy with ⟨a, rfl, -⟩ | ⟨a, rfl, ha⟩
  · exact List.prefix_append x a
  · rcases a with _ | ⟨c, a⟩
    · rw [List.append_nil]
    · have hc := he c (by rw [ha]; rfl)
      exact absurd (by simp [hc]) (Pattern.notMem_of_avoids havoids hmem lf (by simp))

/-- The same rule fires in front of blanks and line ends, unless one of these four reaches over. -/
theorem best_append_of_not_reaches {x : Bytes} (hu : u ≠ []) (hk : k ≠ .incl)
    (hx : ∀ c ∈ x.head?, c ∈ separators)
    (h : ∀ n ∈ [RuleName.includeWord, .rem, .shellCmd, .closingQuote], n.active k = true →
      (n = .rem → bol = true) → ¬Reaches n u x) :
    best rcScanner.rules k bol (u ++ x) = best rcScanner.rules k bol u := by
  refine best_congr fun r hr => Rule.length_congr fun hactive hbol => ?_
  obtain ⟨n, -, rfl⟩ := List.mem_map.1 hr
  have hnot : ¬Reaches n u x → n.pattern.longest (u ++ x) = n.pattern.longest u := by
    intro hreach
    have hsame := @Pattern.longest_append_congr _ n.pattern u x []
      (fun y z hy hyz hmem => hreach ⟨y, hy, ⟨z, hyz⟩, hmem⟩)
      fun y z hy hyz => absurd (List.append_eq_nil_iff.1 hyz).1 hy
    rwa [List.append_nil] at hsame
  -- most rules stop at a blank or a line end, or match a single character
  have havoids : n.pattern.avoids separators = true → ¬Reaches n u x := by
    rintro hn ⟨y, hy, ⟨z, rfl⟩, hmem⟩
    obtain ⟨c, y, rfl⟩ := List.exists_cons_of_ne_nil hy
    exact Pattern.notMem_of_avoids hn hmem c (hx c rfl) (by simp)
  have hsingle : ∀ p, n.pattern = .cls p → ¬Reaches n u x := by
    rintro p hp ⟨y, hy, -, hmem⟩
    rw [hp] at hmem
    obtain ⟨c, -, hc⟩ := hmem
    have hlen := congrArg List.length hc
    have hupos := List.length_pos_iff.2 hu
    have hypos := List.length_pos_iff.2 hy
    simp only [List.length_append, List.length_singleton] at hlen
    omega
  refine hnot ?_
  cases n
  case includeWord => exact h _ (by simp) hactive fun h => nomatch h
  case inclBlanks => exact absurd (of_decide_eq_true hactive) hk
  case inclName => exact absurd (of_decide_eq_true hactive) hk
  case rem => exact h _ (by simp) hactive fun _ => hbol rfl
  case word w => exact havoids (by cases w <;> decide)
  case shellCmd => exact h _ (by simp) hactive fun h => nomatch h
  case closingQuote => exact h _ (by simp) hactive fun h => nomatch h
  case ctrlChar => exact hsingle _ rfl
  case blank => exact hsingle _ rfl
  case newline => exact hsingle _ rfl
  case anyChar => exact hsingle _ rfl
  all_goals exact havoids (by decide)

theorem candidates_include (hk : k.inclusive = true) (hc : RuleName.begins c .includeWord = true) :
    candidates k bol c = [.includeWord, .anyChar] := by
  rcases eq_or_eq_of_toupper (of_decide_eq_true hc) with rfl | rfl
  all_goals cases k <;> first | (cases bol <;> rfl) | cases hk

/-- The word `INCLUDE` ends with its only `=`. -/
theorem endsLine_includeWord : RuleName.includeWord.pattern.EndsLine (chr '=') :=
  .seq (by decide) (.seq (by decide) (.cls _))

theorem exists_equal {w : Bytes} (h : w ∈ RuleName.includeWord.pattern.lang) :
    ∃ w', w = w' ++ [chr '='] := by
  obtain ⟨w₁, -, z, hz, rfl⟩ := Pattern.mem_seq.1 h
  obtain ⟨w₂, -, q, hq, rfl⟩ := Pattern.mem_seq.1 hz
  exact ⟨w₁ ++ w₂, by rw [Pattern.mem_lit.1 hq, List.append_assoc]⟩

/-- Without its `=` the word is an error. -/
theorem scan_cutInclude (hk : k.inclusive = true) (hu : u ≠ []) {x : Bytes}
    (h : Reaches .includeWord u x) : (rcScanner.scan sub k bol u).2 = none := by
  obtain ⟨y, hy, -, hmem⟩ := h
  obtain ⟨c, u, rfl⟩ := List.exists_cons_of_ne_nil hu
  have hc : RuleName.begins c .includeWord = true := by
    rw [← first_eq_begins]
    exact Pattern.first_of_mem hmem
  have hline : c ≠ lf := by
    rintro rfl
    exact absurd hc (by decide)
  have hnone : RuleName.includeWord.rule.length k bol (c :: u) = none := by
    refine Rule.length_eq_none fun w v hwv hw hword => ?_
    obtain ⟨w', rfl⟩ := exists_equal hword
    rw [← hwv] at hmem
    have hlast := endsLine_includeWord w' (v ++ y) (by simpa using hmem)
    exact hy (List.append_eq_nil_iff.1 hlast).2
  have hone : RuleName.anyChar.rule.length k bol (c :: u) = some 1 :=
    Rule.length_of_longest rfl (fun h => nomatch h)
      (Pattern.longest_cls (by simpa using hline) u) one_pos
  have hbest : best rcScanner.rules k bol (c :: u) = some (RuleName.anyChar.rule, 1) := by
    rw [best_candidates, candidates_include hk hc, List.map_cons, best_cons_none hnone]
    exact best_cons_some hone fun r hr => absurd hr List.not_mem_nil
  rw [rcScanner.scan_of_best hbest]
  rfl

/-- A remark that reaches over is one that begins before or behind. -/
theorem Reaches.rem {x : Bytes} (h : Reaches .rem u x) : IsRemark u ∨ IsBlank u ∧ IsRemark x := by
  obtain ⟨y, hy, ⟨z, rfl⟩, hmem⟩ := h
  obtain ⟨b, t, hb, -, hsame⟩ := mem_rem.1 hmem
  rcases List.append_eq_append_iff.1 hsame with ⟨a, rfl, rfl⟩ | ⟨a, rfl, ha⟩
  · obtain ⟨hu, ha⟩ := isBlank_append.1 hb
    exact Or.inr ⟨hu, a, t ++ z, ha, by simp⟩
  · rcases a with _ | ⟨d, a⟩
    · obtain rfl : y = chr '#' :: t := ha.symm
      rw [List.append_nil]
      exact Or.inr ⟨hb, [], t ++ z, nofun, rfl⟩
    · obtain ⟨rfl, -⟩ := List.cons.inj ha
      exact Or.inl ⟨b, a, hb, rfl⟩

theorem IsRemark.of_append {r e : Bytes} (he : ∀ c ∈ e.head?, c = lf) (h : IsRemark (r ++ e)) :
    IsRemark r := by
  obtain ⟨b, t, hb, hsame⟩ := h
  -- a line end cannot stand in front of the `#`
  have hhead : ∀ a : Bytes, e ≠ a ++ chr '#' :: t ∨ ¬IsBlank a := by
    rintro (_ | ⟨d, a⟩)
    · exact Or.inl fun h => absurd (he (chr '#') (by rw [h]; rfl)) (by decide)
    · by_cases hd : d = lf
      · exact Or.inr fun ha => absurd (hd ▸ ha d (List.mem_cons_self ..)) (by decide)
      · exact Or.inl fun h => hd (he d (by rw [h]; rfl))
  rcases List.append_eq_append_iff.1 hsame with ⟨a, rfl, ha⟩ | ⟨a, rfl, ha⟩
  · exact ((hhead a).resolve_left (absurd ha)) (isBlank_append.1 hb).2 |>.elim
  · rcases a with _ | ⟨d, a⟩
    · exact ((hhead []).resolve_left (absurd ha.symm)) nofun |>.elim
    · obtain ⟨rfl, -⟩ := List.cons.inj ha
      exact ⟨b, a, hb, rfl⟩

/-- A closing quotation mark that reaches over takes all of the rest, and a line end. -/
theorem Reaches.closingQuote {r e : Bytes} (hu : u ≠ []) (hline : lf ∉ u) (hr : lf ∉ r)
    (he : ∀ c ∈ e.head?, c = lf) (h : Reaches .closingQuote u (r ++ e)) :
    ∃ b v, u = quotation :: b ∧ IsBlank b ∧ IsBlank r ∧ e = lf :: v := by
  obtain ⟨y, hy, ⟨z, hz⟩, hmem⟩ := h
  obtain ⟨b, hb, hsame⟩ := mem_closingQuote.1 hmem
  obtain ⟨c, u, rfl⟩ := List.exists_cons_of_ne_nil hu
  obtain ⟨rfl, htail⟩ := List.cons.inj hsame
  have hcut : ∀ a : Bytes, IsBlank a → r ++ e = a ++ lf :: z → r = a ∧ e = lf :: z := by
    intro a ha h
    rcases List.append_eq_append_iff.1 h with ⟨a', rfl, ha'⟩ | ⟨a', rfl, ha'⟩
    · rcases a' with _ | ⟨d, a'⟩
      · exact ⟨(List.append_nil r).symm, ha'⟩
      · have hd := he d (by rw [ha']; rfl)
        exact absurd (hd ▸ ha d (by simp)) (by decide)
    · rcases a' with _ | ⟨d, a'⟩
      · exact ⟨List.append_nil a, ha'.symm⟩
      · exact absurd (by rw [(List.cons.inj ha').1]; simp) hr
  rcases List.append_eq_append_iff.1 htail with ⟨a, rfl, rfl⟩ | ⟨a, rfl, ha⟩
  · obtain ⟨hub, ha⟩ := isBlank_append.1 hb
    obtain ⟨rfl, rfl⟩ := hcut a ha (by rw [← hz]; simp)
    exact ⟨u, z, rfl, hub, ha, rfl⟩
  · rcases a with _ | ⟨d, a⟩
    · rw [List.append_nil] at hline ⊢
      obtain ⟨rfl, rfl⟩ := hcut [] nofun (by rw [← hz, ← List.nil_append y, ← ha]; rfl)
      exact ⟨b, z, rfl, hb, nofun, rfl⟩
    · exact absurd (by rw [← (List.cons.inj ha).1]; simp) hline

/-- At the end of a line the scanner is in `INITIAL`. -/
theorem scan_endsLine (hs : s.getLast? = some lf) :
    ∀ k' ∈ (rcScanner.scan sub k bol s).2, k' = .initial := by
  induction k, bol, s using rcScanner.scan_induction sub with
  | nil k bol => cases hs
  | rule k bol s r m hb ih =>
    obtain ⟨n, rfl, -, hmem⟩ := exists_ruleName hb
    obtain ⟨hle, hback⟩ := BufferScanner.given_lt hb
    rw [rcScanner.scan_of_best hb]
    by_cases hrest : m - given (n.rule.action (s.take m) k).1 < s.length
    · generalize react sub _ _ = x at ih ⊢
      rcases x with ⟨ts, _ | k'⟩
      · exact nofun
      · exact ih k' rfl (by rw [List.getLast?_drop, if_neg (by omega), hs])
    · -- the line end belongs to the match
      obtain rfl : m = s.length := by omega
      rw [List.take_length] at hmem hrest ⊢
      have havoids : n.pattern.avoids [lf] = true → False := fun h =>
        Pattern.notMem_of_avoids h hmem lf (by simp) (List.mem_of_getLast? hs)
      cases n
      case newline =>
        rw [List.drop_eq_nil_of_le (by omega)]
        exact fun k' hk' => (Option.some.inj hk').symm
      case closingQuote =>
        have hgiven : given (RuleName.closingQuote.rule.action s k).1 = 1 := rfl
        omega
      case word w => exact (havoids (by cases w <;> decide)).elim
      all_goals exact (havoids (by decide)).elim
  | skip k bol c s hb ih =>
    obtain ⟨r, m, hb'⟩ := exists_best k bol c s
    exact absurd (hb.symm.trans hb') nofun

/-! ### The rest of a line behind a file -/

/-- An argument begins with a quotation mark. -/
theorem action_param {w : Bytes} (hw : w ∈ n.pattern.lang)
    (h : (n.rule.action w k).2 = .param) :
    k = .param ∨ w = [quotation] ∧ given (n.rule.action w k).1 = 0 := by
  cases n
  case openingQuote => exact Or.inr ⟨Pattern.mem_lit.1 hw, rfl⟩
  case includeWord => cases h
  case inclName => cases h
  case newline => cases h
  case word w => cases w <;> first | exact Or.inl h | cases h
  all_goals exact Or.inl h

section Join

variable {f : Option StartCondition} {r e w : Bytes}

/-- Behind the first match of the line. -/
theorem JoinsFrom.drop (h : JoinsFrom k bol f (w ++ u) r)
    (hk : k' = .param → k = .param ∨ quotation ∈ w) : JoinsFrom k' false f u r where
  newRemark := nofun
  remark := nofun
  includeWord hf a u' hu := h.includeWord hf (w ++ a) u' (by rw [hu, List.append_assoc])
  shellCmd hf a u' hu := h.shellCmd hf (w ++ a) u' (by rw [hu, List.append_assoc])
  closingQuote hf a u' hu hquote := by
    refine h.closingQuote hf (w ++ a) u' (by rw [hu, List.append_assoc]) ?_
    rcases hquote with hparam | ha
    · exact (hk hparam).imp_right fun hw => List.mem_append_left a hw
    · exact Or.inr (List.mem_append_right w ha)

/-- No rule reaches over, except for remarks and the closing quotation mark behind `yes` or `no`. -/
theorem JoinsFrom.not_reaches (h : JoinsFrom k bol f u r)
    (hf : (rcScanner.scan sub k bol u).2 = f) (hne : u ≠ []) (hu : lf ∉ u) (hr : lf ∉ r)
    (he : ∀ c ∈ e.head?, c = lf) (hremark : ¬(bol = true ∧ IsRemark u))
    (hclosing : ¬(k = .paramBool ∧ Reaches .closingQuote u (r ++ e))) :
    ∀ n ∈ [RuleName.includeWord, .rem, .shellCmd, .closingQuote], n.active k = true →
      (n = .rem → bol = true) → ¬Reaches n u (r ++ e) := by
  intro n hn hactive hbol hreach
  simp only [List.mem_cons, List.not_mem_nil, or_false] at hn
  rcases hn with rfl | rfl | rfl | rfl
  · have hstop : f = none := hf ▸ scan_cutInclude hactive hne hreach
    exact h.includeWord hstop [] u rfl (hreach.of_append (by decide) he)
  · rcases hreach.rem with hu' | ⟨hblank, hx⟩
    · exact hremark ⟨hbol rfl, hu'⟩
    · exact h.newRemark (hbol rfl) hblank (hx.of_append he)
  · have hparam : f = some .param := hf ▸ scan_param (of_decide_eq_true hactive) hu
    exact h.shellCmd hparam [] u rfl (hreach.of_append (by decide) he)
  · rcases (Bool.or_eq_true _ _).mp hactive with hk | hk
    · have hk := of_decide_eq_true hk
      have hparam : f = some .param := hf ▸ scan_param hk hu
      obtain ⟨b, v, rfl, hb, hblank, rfl⟩ := hreach.closingQuote hne hu hr he
      refine h.closingQuote hparam [] _ rfl (Or.inl hk) ⟨r ++ [lf], by simp, List.prefix_rfl, ?_⟩
      exact mem_closingQuote.2 ⟨b ++ r, isBlank_append.2 ⟨hb, hblank⟩, by simp⟩
    · exact hclosing ⟨of_decide_eq_true hk, hreach⟩

theorem head_separators (hblank : ∀ c ∈ r.head?, isblank c = true) (he : ∀ c ∈ e.head?, c = lf) :
    ∀ c ∈ (r ++ e).head?, c ∈ separators := by
  intro c hc
  rcases r with _ | ⟨d, r⟩
  · rw [he c hc]
    decide
  · rcases isblank_iff.1 (hblank c hc) with rfl | rfl <;> decide

/-- **The end of a file.** The line `u` and the rest `r` behind it are scanned one after the other. -/
theorem scan_join (h : JoinsFrom k bol f u r) (hf : (rcScanner.scan sub k bol u).2 = f)
    (hu : lf ∉ u) (hk : k ≠ .incl) (hbol : bol = true → k = .initial)
    (hno : .beginInclude ∉ (rcScanner.scan sub k bol u).1)
    (hblank : ∀ c ∈ r.head?, isblank c = true) (hr : lf ∉ r) (he : ∀ c ∈ e.head?, c = lf) :
    rcScanner.scan sub k bol (u ++ (r ++ e)) =
      (rcScanner.scan sub k bol u).andThen fun k' => rcScanner.scan sub k' false (r ++ e) := by
  induction k, bol, u using rcScanner.scan_induction sub with
  | nil k bol =>
    cases bol with
    | false => rfl
    | true => exact scan_bol fun hx => h.newRemark rfl nofun (hx.of_append he)
  | rule k bol u q m hb ih =>
    have hne := ne_nil_of_best hb
    -- a remark takes the rest of the line, which is blank, with it
    by_cases hremark : bol = true ∧ IsRemark u
    · obtain ⟨rfl, hu'⟩ := hremark
      obtain rfl := hbol rfl
      have hrest := h.remark rfl hu'
      obtain ⟨b, t, hb', rfl⟩ := hu'
      have ht : lf ∉ t := fun ht => hu (by simp [ht])
      have hpasted : rcScanner.scan sub .initial true (b ++ chr '#' :: ((t ++ r) ++ e)) = _ :=
        scan_remark hb' (fun h => (List.mem_append.1 h).elim ht hr) he
      have halone : rcScanner.scan sub .initial true (b ++ chr '#' :: (t ++ [])) = _ :=
        scan_remark hb' ht nofun
      rw [List.append_nil] at halone
      rw [halone, List.append_assoc, List.cons_append, ← List.append_assoc, hpasted]
      exact (scan_blanks rfl hrest).symm
    -- behind `yes` or `no` the closing mark is read as an opening one, with the same token
    by_cases hclosing : k = .paramBool ∧ Reaches .closingQuote u (r ++ e)
    · obtain ⟨rfl, hreach⟩ := hclosing
      obtain ⟨b, v, rfl, hb', hrest, rfl⟩ := hreach.closingQuote hne hu hr he
      have hopen : ∀ a s, (∀ c ∈ a, isblank c = true) → b ≠ a ++ lf :: s := by
        rintro a s - rfl
        exact hu (by simp)
      have halone : rcScanner.scan sub .paramBool false b = ([], some .paramBool) := by
        rw [← List.append_nil b, scan_blanks rfl hb']
        rfl
      rw [scan_openingQuote_bool hopen, halone, List.cons_append, ← List.append_assoc,
        scan_closingQuote (Or.inr rfl) (isBlank_append.2 ⟨hb', hrest⟩)]
      show _ = (Event.token Token.quote :: (rcScanner.scan sub .paramBool false (r ++ lf :: v)).1,
        (rcScanner.scan sub .paramBool false (r ++ lf :: v)).2)
      rw [scan_blanks rfl hrest]
    -- in all other cases the first match is the same, and what is left of `u` is shorter
    · have hsame := best_append_of_not_reaches hne hk (head_separators hblank he)
        (h.not_reaches hf hne hu hr he hremark hclosing)
      obtain ⟨n, rfl, hactive, hmem⟩ := exists_ruleName hb
      have hword : n ≠ .includeWord := by
        rintro rfl
        rw [rcScanner.scan_of_best hb] at hno
        exact hno (List.mem_cons_self ..)
      obtain ⟨hnext, -, hstart⟩ := react_sub sub sub hactive hk hword (u.take m)
      refine rcScanner.scan_append_of_best hb (hsame.trans hb) fun k' hk' => ?_
      have hstep := scan_next hb hk'
      obtain ⟨hle, hback⟩ := BufferScanner.given_lt hb
      have hquote : k' = .param → k = .param ∨
          quotation ∈ u.take (m - given (n.rule.action (u.take m) k).1) := by
        rintro rfl
        refine (action_param hmem (hstart _ hk').symm).imp_right fun ⟨hw, hgiven⟩ => ?_
        rw [hgiven, Nat.sub_zero, hw]
        exact List.mem_singleton_self quotation
      have hline : bolAfter rcScanner.newline bol
          (u.take (m - given (n.rule.action (u.take m) k).1)) = false := by
        refine bolAfter_of_notMem (List.length_pos_iff.1 ?_) fun h => hu (List.mem_of_mem_take h)
        rw [List.length_take]
        omega
      rw [show rcScanner.newline = lf from rfl] at hline ih ⊢
      rw [hline] at hstep ih ⊢
      generalize react sub _ _ = x at hk' hstep hstart ih
      obtain ⟨ts, f'⟩ := x
      obtain rfl : f' = some k' := hk'
      rw [hstep] at hf hno
      rw [← List.take_append_drop (m - given (n.rule.action (u.take m) k).1) u] at h
      exact ih k' rfl (h.drop hquote) hf (fun h => hu (List.mem_of_mem_drop h))
        (hstart k' rfl ▸ hnext) nofun fun h => hno (List.mem_append_right ts h)
  | skip k bol c u hb ih =>
    obtain ⟨r, m, hb'⟩ := exists_best k bol c u
    exact absurd (hb.symm.trans hb') nofun

/-! ### Files -/

/-- What is behind the last line end. -/
def lastLine (s : Bytes) : Bytes := s.rtakeWhile (· ≠ lf)

theorem notMem_lastLine (s : Bytes) : lf ∉ lastLine s := fun h => by
  simpa using List.mem_rtakeWhile_imp h

theorem exists_lastLine (s : Bytes) : ∃ q, s = q ++ lastLine s ∧ (q = [] ∨ q.getLast? = some lf) := by
  refine ⟨s.rdropWhile (· ≠ lf), (List.rdropWhile_append_rtakeWhile ..).symm, ?_⟩
  by_cases hq : s.rdropWhile (· ≠ lf) = []
  · exact Or.inl hq
  · have hlast := List.rdropWhile_last_not (fun c => decide (c ≠ lf)) s hq
    right
    rw [List.getLast?_eq_getLast_of_ne_nil hq]
    simpa using hlast

/-- A line is scanned before what is behind it. -/
theorem scan_line (l v : Bytes) : rcScanner.scan sub k bol (l ++ lf :: v) =
    (rcScanner.scan sub k bol (l ++ [lf])).andThen fun _ =>
      rcScanner.scan sub .initial true v := by
  have hline : rcScanner.scan sub k bol (l ++ lf :: v) = _ := rcScanner.scan_line endsLine l v
  refine hline.trans (Scan.andThen_congr fun k' hk' => ?_)
  rw [scan_endsLine List.getLast?_concat k' hk']

theorem scan_wholeLines {q : Bytes} (hq : q = [] ∨ q.getLast? = some lf) (s : Bytes) :
    rcScanner.scan sub .initial true (q ++ s) =
      (rcScanner.scan sub .initial true q).andThen fun _ =>
        rcScanner.scan sub .initial true s := by
  rcases hq with rfl | hq
  · rfl
  · obtain ⟨l, rfl⟩ := List.getLast?_eq_some_iff.1 hq
    rw [List.append_assoc, List.singleton_append, scan_line]

/-- **Pasting.** A file in the text is scanned as the file alone is, and the rest of the line after it. -/
theorem scan_file {text : Bytes} (hno : .beginInclude ∉ (scanAlone .initial true text).1)
    (h : Joins (lastLine text) r) (hblank : ∀ c ∈ r.head?, isblank c = true) (hr : lf ∉ r)
    (he : ∀ c ∈ e.head?, c = lf) :
    rcScanner.scan sub .initial true (text ++ (r ++ e)) =
      (scanAlone .initial true text).andThen fun k' => rcScanner.scan sub k' false (r ++ e) := by
  obtain ⟨q, hq, hlines⟩ := exists_lastLine text
  -- the whole lines `q` come first in both scans, then `scan_join` takes over
  have hk : StartCondition.initial ≠ .incl := StartCondition.noConfusion
  have halone : scanAlone .initial true text = rcScanner.scan sub .initial true text :=
    (scan_sub hk hno).symm
  have hsplit : rcScanner.scan sub .initial true text =
      (rcScanner.scan sub .initial true q).andThen fun _ =>
        rcScanner.scan sub .initial true (lastLine text) := by
    rw [← scan_wholeLines hlines, ← hq]
  have hpasted : text ++ (r ++ e) = q ++ (lastLine text ++ (r ++ e)) := by
    rw [← List.append_assoc q, ← hq]
  rw [halone, hsplit] at hno ⊢
  rw [Scan.andThen_assoc, hpasted, scan_wholeLines hlines]
  generalize rcScanner.scan sub .initial true q = x at hno ⊢
  rcases x with ⟨ts, _ | k'⟩
  · rfl
  · have hlast : .beginInclude ∉ (rcScanner.scan sub .initial true (lastLine text)).1 :=
      fun h => hno (List.mem_append_right ts h)
    have hend : (rcScanner.scan sub .initial true (lastLine text)).2 =
        (scanAlone .initial true (lastLine text)).2 := congrArg Prod.snd (scan_sub hk hlast).symm
    rw [Scan.andThen_some, Scan.andThen_some,
      scan_join h hend (notMem_lastLine text) hk (fun _ => rfl) hlast hblank hr he]

end Join

end Mailfilter.Rc
