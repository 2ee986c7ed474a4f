import Mailfilter.Rc.Scanner

/-!
# Which rule of the rcfile fires

What `rclex` does at the places that matter: before a keyword, a number, an operator, a quotation mark,
a blank, a line end or the name of a file.

* `candidates`: the rules that can fire at a character, and `best_candidates`;
* `endsLine`: no rule goes on behind a line end;
* `best_word`: the longest keyword fires;
* `scan_word`, `scan_blank`, `scan_operator`, …: one step of the scanner for each.
-/

namespace Mailfilter.Rc

open Flex

/-! ### Candidates -/

/-- Statements about all bytes can be checked. -/
theorem forall_byte_iff {P : UInt8 → Prop} : (∀ c, P c) ↔ ∀ i : Fin 256, P ⟨⟨i⟩⟩ :=
  ⟨fun h _ => h _, fun h c => h c.toBitVec.toFin⟩

/-- The letters for a letter in upper case. -/
theorem eq_or_eq_of_toupper {c d : UInt8} (h : toupper c = d) : c = d ∨ c = d + 32 := by
  unfold toupper at h
  split at h
  · right
    rw [← h, UInt8.sub_add_cancel]
  · exact Or.inl h

/-- The first letter of a keyword, in upper case. -/
def Word.initial : Word → UInt8
  | .allow => chr 'A'
  | .allowCase => chr 'A'
  | .allowNocase => chr 'A'
  | .delDuplicates => chr 'D'
  | .deny => chr 'D'
  | .denyCase => chr 'D'
  | .denyNocase => chr 'D'
  | .highscore => chr 'H'
  | .logfile => chr 'L'
  | .maxlength => chr 'M'
  | .maxsizeAllow => chr 'M'
  | .maxsizeDeny => chr 'M'
  | .maxsizeScore => chr 'M'
  | .normal => chr 'N'
  | .server => chr 'S'
  | .user => chr 'U'
  | .pass => chr 'P'
  | .protocol => chr 'P'
  | .port => chr 'P'
  | .regCase => chr 'R'
  | .regType => chr 'R'
  | .showHeaders => chr 'S'
  | .score => chr 'S'
  | .scoreCase => chr 'S'
  | .scoreNocase => chr 'S'
  | .test => chr 'T'
  | .timeout => chr 'T'
  | .verbose => chr 'V'

/-- The rule can fire at a character. -/
def RuleName.begins (c : UInt8) : RuleName → Bool
  | .includeWord => toupper c = chr 'I'
  | .word w => toupper c = w.initial
  | .yesNoId => toupper c = chr 'Y' || toupper c = chr 'N'
  | n => n.pattern.first c

theorem first_anyCase (t : Bytes) (c : UInt8) :
    (anyCase t).first c = (t.map toupper).head?.any (decide <| toupper c = ·) := by
  cases t <;> simp [anyCase, Pattern.first, Pattern.nullable]

theorem first_eq_begins (n : RuleName) (c : UInt8) : n.pattern.first c = n.begins c := by
  cases n
  case includeWord =>
    have hinitial : ((bytes "include").map toupper).head? = some (chr 'I') := by rfl
    have hnullable : (anyCase (bytes "include")).nullable = false := by rfl
    show ((anyCase (bytes "include")).first c || ((anyCase (bytes "include")).nullable && _)) = _
    rw [first_anyCase, hinitial, hnullable, Bool.false_and, Bool.or_false]
    rfl
  case word w =>
    have hinitial : (w.text.map toupper).head? = some w.initial := by
      cases w <;> rfl
    show (anyCase w.text).first c = _
    rw [first_anyCase, hinitial]
    rfl
  case yesNoId =>
    have hyes : ((bytes "yes").map toupper).head? = some (chr 'Y') := by rfl
    have hno : ((bytes "no").map toupper).head? = some (chr 'N') := by rfl
    show ((anyCase (bytes "yes")).first c || (anyCase (bytes "no")).first c) = _
    rw [first_anyCase, first_anyCase, hyes, hno]
    rfl
  all_goals rfl

/-- The rules that can fire at a character. -/
def candidates (k : StartCondition) (bol : Bool) (c : UInt8) : List RuleName :=
  ruleNames.filter fun n => n.active k && (!decide (n = .rem) || bol) && n.begins c

theorem best_candidates (k : StartCondition) (bol : Bool) (c : UInt8) (s : Bytes) :
    best rcScanner.rules k bol (c :: s) =
      best ((candidates k bol c).map RuleName.rule) k bol (c :: s) := by
  rw [best_filter]
  show best ((ruleNames.map RuleName.rule).filter _) _ _ _ = _
  rw [List.filter_map, candidates]
  simp only [← first_eq_begins]
  rfl

variable {k : StartCondition} {bol : Bool} {c : UInt8} {s u v : Bytes} {n : RuleName} {m : ℕ}

/-- A candidate that is preferred to the others. -/
theorem best_of_candidates {names : List RuleName} (hcand : candidates k bol c = n :: names)
    (hlen : n.rule.length k bol (c :: s) = some m)
    (hmax : ∀ n' ∈ names, ∀ m', n'.rule.length k bol (c :: s) = some m' → m' ≤ m) :
    best rcScanner.rules k bol (c :: s) = some (n.rule, m) := by
  rw [best_candidates, hcand, List.map_cons]
  refine best_cons_some hlen fun r hr m' hm' => ?_
  obtain ⟨n', hn', rfl⟩ := List.mem_map.1 hr
  exact hmax n' hn' m' hm'

/-- The last rule never wins. -/
theorem length_anyChar_le (h : RuleName.anyChar.rule.length k bol s = some m) : m ≤ 1 :=
  Pattern.le_one_of_longest_cls (Rule.length_eq_some h).2.2.1

/-- A rule fires everywhere. -/
theorem exists_best (k : StartCondition) (bol : Bool) (c : UInt8) (s : Bytes) :
    ∃ r m, best rcScanner.rules k bol (c :: s) = some (r, m) := by
  by_cases hc : c = lf
  · have hmem : RuleName.newline ∈ ruleNames := by decide
    have hlen : RuleName.newline.rule.length k bol (c :: s) = some 1 :=
      Rule.length_of_longest rfl (fun h => nomatch h)
        (Pattern.longest_cls (by simpa using hc) s) one_pos
    obtain ⟨r, m, hb, -⟩ := le_best (List.mem_map_of_mem hmem) hlen
    exact ⟨r, m, hb⟩
  · have hmem : RuleName.anyChar ∈ ruleNames := by decide
    have hlen : RuleName.anyChar.rule.length k bol (c :: s) = some 1 :=
      Rule.length_of_longest rfl (fun h => nomatch h)
        (Pattern.longest_cls (by simpa using hc) s) one_pos
    obtain ⟨r, m, hb, -⟩ := le_best (List.mem_map_of_mem hmem) hlen
    exact ⟨r, m, hb⟩

theorem best_of_pair (hcand : candidates k bol c = [n, .anyChar])
    (hlen : n.rule.length k bol (c :: s) = some m) :
    best rcScanner.rules k bol (c :: s) = some (n.rule, m) := by
  refine best_of_candidates hcand hlen fun n' hn' m' hm' => ?_
  obtain rfl := List.mem_singleton.1 hn'
  exact (length_anyChar_le hm').trans (Rule.length_eq_some hlen).2.2.2

/-! ### Patterns without blanks -/

/-- The words of a constant. -/
theorem mem_anyCase {w u : Bytes} : u ∈ (anyCase w).lang ↔ u.map toupper = w.map toupper := by
  induction w generalizing u with
  | nil => simp [anyCase]
  | cons c w ih =>
    rw [anyCase, Pattern.mem_cls_seq]
    constructor
    · rintro ⟨d, v, hd, hv, rfl⟩
      rw [List.map_cons, List.map_cons, ih.1 hv, of_decide_eq_true hd]
    · rcases u with _ | ⟨d, u⟩
      · exact fun h => nomatch h
      · intro h
        obtain ⟨hd, hu⟩ := List.cons.inj h
        exact ⟨d, u, decide_eq_true hd, ih.2 hu, rfl⟩

/-- Blanks and the line end. -/
def separators : Bytes := [32, 9, lf]

/-- Characters that end a keyword or a number. -/
def stops : Bytes := quotation :: separators

theorem avoids_word (w : Word) : (RuleName.word w).pattern.avoids stops = true := by
  cases w <;> decide

/-- No rule goes on behind a line end. -/
theorem endsLine : ∀ r ∈ rcScanner.rules, r.pattern.EndsLine rcScanner.newline := by
  rintro r hr
  obtain ⟨n, -, rfl⟩ := List.mem_map.1 hr
  show n.pattern.EndsLine lf
  cases n
  case word w => exact Pattern.endsLine_of_avoids (by cases w <;> decide)
  case closingQuote =>
    exact .seq (by decide) (.seq (by decide) (.cls _))
  case newline => exact .cls _
  all_goals exact Pattern.endsLine_of_avoids (by decide)

/-! ### Keywords -/

theorem word_text_inj {w w' : Word} (h : w.text.map toupper = w'.text.map toupper) : w = w' := by
  have hall : ∀ w ∈ words, ∀ w' ∈ words, w.text.map toupper = w'.text.map toupper → w = w' := by
    decide +kernel
  exact hall w (mem_words w) w' (mem_words w') h

theorem four_le_text (w : Word) : 4 ≤ w.text.length := by
  cases w <;> decide

theorem initial_ne (w : Word) : isalpha w.initial = true ∧ w.initial ≠ chr 'I' := by
  cases w <;> decide

theorem candidates_initial (bol : Bool) {c : UInt8} (w : Word) (hc : toupper c = w.initial) :
    RuleName.word w ∈ candidates .initial bol c ∧ ∀ n ∈ candidates .initial bol c,
      n = .anyChar ∨ ∃ w, n = .word w := by
  constructor
  · refine List.mem_filter.2 ⟨?_, ?_⟩
    · exact List.mem_append_left _ (List.mem_append_right _ (List.mem_map_of_mem (mem_words w)))
    · simp [RuleName.active, StartCondition.inclusive, RuleName.begins, hc]
  · have hletter : ∀ n : RuleName, n.active .initial = true →
        (∀ i : Fin 256, isalpha (toupper ⟨⟨i⟩⟩) = true → toupper ⟨⟨i⟩⟩ ≠ chr 'I' →
          n.begins ⟨⟨i⟩⟩ = false) ∨ n = .anyChar ∨ ∃ w, n = .word w := by
      intro n hn
      cases n
      case word w => exact Or.inr (Or.inr ⟨w, rfl⟩)
      case anyChar => exact Or.inr (Or.inl rfl)
      all_goals first
        | exact Or.inl (by decide +kernel)
        | cases hn
    intro n hn
    obtain ⟨-, hn⟩ := List.mem_filter.1 hn
    simp only [Bool.and_eq_true] at hn
    refine (hletter n hn.1.1).resolve_left fun hnone => ?_
    have hfalse : ∀ c, isalpha (toupper c) = true → toupper c ≠ chr 'I' → n.begins c = false :=
      forall_byte_iff.2 hnone
    rw [hfalse c (hc ▸ (initial_ne w).1) (hc ▸ (initial_ne w).2)] at hn
    cases hn.2

/-- The match of a keyword before such a character. -/
theorem length_word {w : Word} (hv : ∀ c ∈ v.head?, c ∈ stops)
    (hm : (RuleName.word w).rule.length k bol (u ++ v) = some m) :
    m ≤ u.length ∧ (u.take m).map toupper = w.text.map toupper := by
  obtain ⟨-, -, hlong, -⟩ := Rule.length_eq_some hm
  have hnone : ∀ c ∈ ([] : Bytes).head?, c ∈ stops := fun c hc => nomatch hc
  have hsame := Pattern.longest_append_of_avoids (avoids_word w) u hv hnone
  rw [List.append_nil] at hsame
  obtain ⟨hle, htake⟩ := Pattern.take_mem_of_longest (hsame.symm.trans hlong)
  exact ⟨hle, mem_anyCase.1 htake⟩

theorem best_word {w : Word} (hu : u.map toupper = w.text.map toupper)
    (hv : ∀ c ∈ v.head?, c ∈ stops) :
    best rcScanner.rules .initial bol (u ++ v) = some ((RuleName.word w).rule, u.length) := by
  have hfour := four_le_text w
  have hlength : u.length = w.text.length := by simpa using congrArg List.length hu
  rcases u with _ | ⟨c, u⟩
  · rw [← hlength] at hfour
    exact absurd hfour (by decide)
  · have hmatch : (RuleName.word w).rule.length .initial bol (c :: u ++ v) =
        some (c :: u).length :=
      Rule.length_of_longest rfl (fun h => nomatch h)
        (Pattern.longest_of_avoids (avoids_word w) (mem_anyCase.2 hu) hv) (by simp)
    have hc : toupper c = w.initial := by
      have hfirst := Pattern.first_of_mem (r := (RuleName.word w).pattern) (mem_anyCase.2 hu)
      rw [first_eq_begins] at hfirst
      exact of_decide_eq_true hfirst
    obtain ⟨hmem, hothers⟩ := candidates_initial bol w hc
    rw [List.cons_append, best_candidates]
    refine best_of_lt (List.mem_map_of_mem hmem) hmatch fun r hr m hm => ?_
    obtain ⟨n', hn', rfl⟩ := List.mem_map.1 hr
    rcases hothers n' hn' with rfl | ⟨w', rfl⟩
    · have hone := length_anyChar_le hm
      left
      omega
    · -- another keyword is a part of this one, or this one itself
      obtain ⟨hle, htake⟩ := length_word (u := c :: u) hv hm
      rcases hle.lt_or_eq with hlt | rfl
      · exact Or.inl hlt
      · rw [List.take_length] at htake
        right
        rw [word_text_inj (htake.symm.trans hu)]

/-! ### Arguments -/

/-- The rules that read an argument, in front of those for single characters. -/
def contentNames : List RuleName :=
  [.includeWord, .inclBlanks, .inclName, .rem] ++ words.map .word ++
    [.equal, .notEqual, .openingQuote, .numId, .shellCmd, .envVar, .yesNoId, .textId, .closingQuote]

theorem ruleNames_eq : ruleNames = contentNames ++ [.ctrlChar, .blank, .newline, .anyChar] := by
  decide

/-- The rules of the first part that are active in an argument. -/
theorem content_cases (hn : n ∈ contentNames) (hactive : n.active .param = true) :
    n = .shellCmd ∨ n = .envVar ∨ n = .textId ∨ n = .closingQuote := by
  cases n
  case shellCmd => exact Or.inl rfl
  case envVar => exact Or.inr (Or.inl rfl)
  case textId => exact Or.inr (Or.inr (Or.inl rfl))
  case closingQuote => exact Or.inr (Or.inr (Or.inr rfl))
  all_goals first
    | exact absurd hn (by decide)
    | cases hactive

/-- In an argument, one of these rules fires, or that for single characters. -/
theorem best_param (hc : c ≠ lf) (bol : Bool) (s : Bytes) :
    ∃ n m, best rcScanner.rules .param bol (c :: s) = some (RuleName.rule n, m) ∧
      (n = .ctrlChar ∧ m = 1 ∨ n = .shellCmd ∨ n = .envVar ∨ n = .textId ∨ n = .closingQuote) := by
  have hsingle : best ([RuleName.ctrlChar, .blank, .newline, .anyChar].map RuleName.rule) .param bol
      (c :: s) = some (RuleName.ctrlChar.rule, 1) := by
    have hone : RuleName.ctrlChar.rule.length .param bol (c :: s) = some 1 :=
      Rule.length_of_longest rfl (fun h => nomatch h)
        (Pattern.longest_cls (by simpa using hc) s) one_pos
    refine best_cons_some hone fun r hr m hm => ?_
    obtain ⟨n, hn, rfl⟩ := List.mem_map.1 hr
    have hcls : ∃ p, n.pattern = .cls p := by
      simp only [List.mem_cons, List.not_mem_nil, or_false] at hn
      rcases hn with rfl | rfl | rfl <;> exact ⟨_, rfl⟩
    obtain ⟨p, hp⟩ := hcls
    have hlong : n.pattern.longest _ = some m := (Rule.length_eq_some hm).2.2.1
    rw [hp] at hlong
    exact Pattern.le_one_of_longest_cls hlong
  have hrules : rcScanner.rules = contentNames.map RuleName.rule ++
      [RuleName.ctrlChar, .blank, .newline, .anyChar].map RuleName.rule := by
    rw [← List.map_append, ← ruleNames_eq]
    rfl
  have hbest := @best_append _ _ _ (contentNames.map RuleName.rule) _ _ _ _ _ _ hsingle
  rw [← hrules] at hbest
  rcases hbest with hb | ⟨r, hr, m, hb⟩
  · exact ⟨.ctrlChar, 1, hb, Or.inl ⟨rfl, rfl⟩⟩
  · obtain ⟨n, hn, rfl⟩ := List.mem_map.1 hr
    obtain ⟨hactive, -⟩ := Rule.length_eq_some (best_mem hb).2
    exact ⟨n, m, hb, Or.inr (content_cases hn hactive)⟩

/-! ### Steps -/

section Steps

variable {sub : Bytes → StartCondition → Scan Event StartCondition}

/-- A rule that emits an event. -/
theorem scan_emit {e : Event} {k' : StartCondition}
    (hb : best rcScanner.rules k bol (u ++ v) = some (n.rule, u.length))
    (haction : n.action u k = (emit e, k')) :
    rcScanner.scan sub k bol (u ++ v) =
      (e :: (rcScanner.scan sub k' (bolAfter lf bol u) v).1,
        (rcScanner.scan sub k' (bolAfter lf bol u) v).2) := by
  have hrule : n.rule.action u k = (emit e, k') := haction
  have hbest : best rcScanner.rules k bol (u ++ v) = some (n.rule, (u ++ []).length) := by
    rwa [List.append_nil]
  have hstep : rcScanner.scan sub k bol (u ++ v) = _ :=
    rcScanner.scan_step hbest List.nil_prefix (by rw [List.append_nil, hrule]; rfl)
  rw [List.append_nil, hrule] at hstep
  exact hstep

/-- A rule that does nothing. -/
theorem scan_skip {k' : StartCondition}
    (hb : best rcScanner.rules k bol (u ++ v) = some (n.rule, u.length))
    (haction : n.action u k = (none, k')) :
    rcScanner.scan sub k bol (u ++ v) = rcScanner.scan sub k' (bolAfter lf bol u) v := by
  have hrule : n.rule.action u k = (none, k') := haction
  have hbest : best rcScanner.rules k bol (u ++ v) = some (n.rule, (u ++ []).length) := by
    rwa [List.append_nil]
  have hstep : rcScanner.scan sub k bol (u ++ v) = _ :=
    rcScanner.scan_step hbest List.nil_prefix (by rw [List.append_nil, hrule]; rfl)
  rw [List.append_nil, hrule] at hstep
  exact hstep

theorem scan_word {w : Word} (hu : u.map toupper = w.text.map toupper)
    (hv : ∀ c ∈ v.head?, c ∈ stops) :
    rcScanner.scan sub .initial bol (u ++ v) =
      (.token (.word w (textOf u)) ::
          (rcScanner.scan sub (w.begins.getD .initial) false v).1,
        (rcScanner.scan sub (w.begins.getD .initial) false v).2) := by
  have hbest : best rcScanner.rules .initial bol (u ++ v) = _ := best_word hu hv
  have hmem : u ∈ (RuleName.word w).pattern.lang := mem_anyCase.2 hu
  have hline : bolAfter lf bol u = false :=
    bolAfter_of_notMem (List.length_pos_iff.1 (best_length hbest).1)
      (Pattern.notMem_of_avoids (avoids_word w) hmem lf (by decide))
  rw [scan_emit hbest rfl, hline]

theorem isblank_iff : isblank c = true ↔ c = 32 ∨ c = 9 := by
  simp [isblank]

/-- The start conditions in which the rules without one are active. -/
theorem scan_blank (hk : k.inclusive = true) (hc : isblank c = true) :
    rcScanner.scan sub k false (c :: v) = rcScanner.scan sub k false v := by
  have hcand : candidates k false c = [.blank, .anyChar] := by
    rcases isblank_iff.1 hc with rfl | rfl
    all_goals cases k <;> first | rfl | cases hk
  have hlen : RuleName.blank.rule.length k false ([c] ++ v) = some 1 :=
    Rule.length_of_longest rfl (fun h => nomatch h) (Pattern.longest_cls hc v) one_pos
  have hbest := best_of_pair hcand hlen
  have hstep : rcScanner.scan sub k false ([c] ++ v) = _ := scan_skip hbest rfl
  have hne : c ≠ lf := fun h => by
    rw [h] at hc
    exact absurd hc (by decide)
  rwa [show bolAfter lf false [c] = false from decide_eq_false hne] at hstep

theorem scan_operator (hk : k.inclusive = true) (operat : Operator) :
    rcScanner.scan sub k bol (operat.text ++ v) =
      (.token (.operator operat) :: (rcScanner.scan sub k false v).1,
        (rcScanner.scan sub k false v).2) := by
  cases operat with
  | equal =>
    have hcand : candidates k bol (chr '=') = [.equal, .anyChar] := by
      cases k <;> first | (cases bol <;> rfl) | cases hk
    have hlen : RuleName.equal.rule.length k bol ([chr '='] ++ v) = some 1 :=
      Rule.length_of_longest hk (fun h => nomatch h) (Pattern.longest_cls (by decide) v) one_pos
    exact scan_emit (u := [chr '=']) (best_of_pair hcand hlen) rfl
  | notEqual =>
    have hcand : candidates k bol (chr '<') = [.notEqual, .anyChar] := by
      cases k <;> first | (cases bol <;> rfl) | cases hk
    have hlen : RuleName.notEqual.rule.length k bol ([chr '<', chr '>'] ++ v) = some 2 := by
      refine Rule.length_append hk (fun h => nomatch h) ?_ (by simp) ?_
      · exact Pattern.mem_seq.2 ⟨_, Pattern.mem_lit.2 rfl, _, Pattern.mem_lit.2 rfl, rfl⟩
      · rintro x y hx - hmem
        obtain ⟨a, ha, b, hb, hab⟩ := Pattern.mem_seq.1 hmem
        rw [Pattern.mem_lit.1 ha, Pattern.mem_lit.1 hb] at hab
        simp [eq_comm, hx] at hab
    exact scan_emit (u := [chr '<', chr '>']) (best_of_pair hcand hlen) rfl

theorem scan_newline : rcScanner.scan sub k bol (lf :: v) =
    (.newline :: (rcScanner.scan sub .initial true v).1,
      (rcScanner.scan sub .initial true v).2) := by
  have hcand : candidates k bol lf = [.newline] := by
    cases k <;> cases bol <;> rfl
  have hlen : RuleName.newline.rule.length k bol ([lf] ++ v) = some 1 :=
    Rule.length_of_longest rfl (fun h => nomatch h) (Pattern.longest_cls (by decide) v) one_pos
  exact scan_emit (u := [lf]) (best_of_candidates hcand hlen fun n' hn' => absurd hn' List.not_mem_nil) rfl

/-! ### Quotation marks, numbers and `yes` or `no` -/

/-- The words of the closing quotation mark, with the line end behind it. -/
theorem mem_closingQuote {w : Bytes} : w ∈ RuleName.closingQuote.pattern.lang ↔
    ∃ b, (∀ c ∈ b, isblank c = true) ∧ w = quotation :: (b ++ [lf]) := by
  constructor
  · intro h
    obtain ⟨q, hq, x, hx, rfl⟩ := Pattern.mem_seq.1 h
    obtain ⟨b, hb, n, hn, rfl⟩ := Pattern.mem_seq.1 hx
    rw [Pattern.mem_lit.1 hq, Pattern.mem_lit.1 hn]
    exact ⟨b, Pattern.mem_star_cls.1 hb, rfl⟩
  · rintro ⟨b, hb, rfl⟩
    exact Pattern.mem_seq.2 ⟨[quotation], Pattern.mem_lit.2 rfl, b ++ [lf], Pattern.mem_seq.2
      ⟨b, Pattern.mem_star_cls.2 hb, [lf], Pattern.mem_lit.2 rfl, rfl⟩, rfl⟩

/-- A closing quotation mark is followed by blanks and a line end. -/
theorem blank_of_closingQuote
    (h : RuleName.closingQuote.rule.length k bol (quotation :: s) = some m) :
    ∃ b s', (∀ c ∈ b, isblank c = true) ∧ s = b ++ lf :: s' := by
  obtain ⟨-, -, hlong, -⟩ := Rule.length_eq_some h
  obtain ⟨b, hb, htake⟩ := mem_closingQuote.1 (Pattern.take_mem_of_longest hlong).2
  refine ⟨b, (quotation :: s).drop m, hb, ?_⟩
  have hcut := List.take_append_drop m (quotation :: s)
  rw [htake, List.cons_append] at hcut
  have hs := (List.cons.inj hcut).2
  rw [List.append_assoc, List.singleton_append] at hs
  exact hs.symm

/-- The opening quotation mark, except behind the keywords for `yes` and `no`. -/
theorem scan_openingQuote (hk : k.inclusive = true) (hbool : k ≠ .paramBool) :
    rcScanner.scan sub k bol (quotation :: v) =
      (.token .quote :: (rcScanner.scan sub .param false v).1,
        (rcScanner.scan sub .param false v).2) := by
  have hcand : candidates k bol quotation = [.openingQuote, .anyChar] := by
    cases k <;> first | exact absurd rfl hbool | (cases bol <;> rfl) | cases hk
  have hlen : RuleName.openingQuote.rule.length k bol ([quotation] ++ v) = some 1 :=
    Rule.length_of_longest hk (fun h => nomatch h) (Pattern.longest_cls (by decide) v) one_pos
  exact scan_emit (u := [quotation]) (best_of_pair hcand hlen)
    (by rw [RuleName.action, if_pos hbool])

/-- And behind these. -/
theorem scan_openingQuote_bool
    (hopen : ∀ b s, (∀ c ∈ b, isblank c = true) → v ≠ b ++ lf :: s) :
    rcScanner.scan sub .paramBool bol (quotation :: v) =
      (.token .quote :: (rcScanner.scan sub .paramBool false v).1,
        (rcScanner.scan sub .paramBool false v).2) := by
  have hcand : candidates .paramBool bol quotation =
      [.openingQuote, .closingQuote, .anyChar] := by
    cases bol <;> rfl
  have hlen : RuleName.openingQuote.rule.length .paramBool bol ([quotation] ++ v) = some 1 :=
    Rule.length_of_longest rfl (fun h => nomatch h) (Pattern.longest_cls (by decide) _) one_pos
  refine scan_emit (u := [quotation]) (best_of_candidates hcand hlen fun n' hn' m' hm' => ?_) rfl
  rcases List.mem_cons.1 hn' with rfl | hn'
  · obtain ⟨b, s', hb, hs⟩ := blank_of_closingQuote hm'
    exact absurd hs (hopen b s' hb)
  · obtain rfl := List.mem_singleton.1 hn'
    exact length_anyChar_le hm'

/-- The closing quotation mark leaves the line end to the next step. -/
theorem scan_closingQuote (hk : k = .param ∨ k = .paramBool) {b : Bytes}
    (hb : ∀ c ∈ b, isblank c = true) :
    rcScanner.scan sub k bol (quotation :: (b ++ lf :: v)) =
      (.token .quote :: (rcScanner.scan sub k false (lf :: v)).1,
        (rcScanner.scan sub k false (lf :: v)).2) := by
  have hlen : RuleName.closingQuote.rule.length k bol (quotation :: (b ++ [lf]) ++ v) =
      some (quotation :: (b ++ [lf])).length := by
    refine Rule.length_append (by rcases hk with rfl | rfl <;> rfl) (fun h => nomatch h)
      (mem_closingQuote.2 ⟨b, hb, rfl⟩) (List.cons_ne_nil _ _) ?_
    rintro x y hx - hmem
    have hclosing : RuleName.closingQuote ∈ ruleNames := by decide
    refine hx (endsLine _ (List.mem_map_of_mem hclosing) (quotation :: b) x ?_)
    rwa [List.cons_append, List.append_assoc] at hmem
  have hsplit : quotation :: (b ++ [lf]) ++ v = quotation :: (b ++ lf :: v) := by simp
  rw [hsplit] at hlen
  have hcand : candidates k bol quotation = [.closingQuote, .ctrlChar, .anyChar] ∨
      candidates k bol quotation = [.openingQuote, .closingQuote, .anyChar] := by
    rcases hk with rfl | rfl
    · left
      cases bol <;> rfl
    · right
      cases bol <;> rfl
  have hone : ∀ n, n = RuleName.openingQuote ∨ n = RuleName.ctrlChar ∨ n = RuleName.anyChar →
      ∀ m, n.rule.length k bol (quotation :: (b ++ lf :: v)) = some m →
        m < (quotation :: (b ++ [lf])).length := by
    intro n hn m hm
    have hle : m ≤ 1 := by
      rcases hn with rfl | rfl | rfl
      all_goals exact Pattern.le_one_of_longest_cls (Rule.length_eq_some hm).2.2.1
    rw [List.length_cons, List.length_append]
    exact Nat.lt_of_le_of_lt hle (by simp)
  have hbest : best rcScanner.rules k bol (quotation :: b ++ lf :: v) =
      some (RuleName.closingQuote.rule, (quotation :: b ++ [lf]).length) := by
    rw [List.cons_append, best_candidates]
    refine best_of_lt ?_ hlen fun r hr m hm => ?_
    · rcases hcand with h | h <;> rw [h] <;> simp
    · obtain ⟨n', hn', rfl⟩ := List.mem_map.1 hr
      by_cases hclosing : n' = .closingQuote
      · exact Or.inr (hclosing ▸ rfl)
      · refine Or.inl (hone n' ?_ m hm)
        rcases hcand with h | h <;> rw [h] at hn' <;>
          simp only [List.mem_cons, List.not_mem_nil, or_false] at hn' <;> tauto
  have hline : bolAfter lf bol (quotation :: b) = false := by
    refine bolAfter_of_notMem (List.cons_ne_nil _ _) fun h => ?_
    rcases List.mem_cons.1 h with h | h
    · exact absurd h (by decide)
    · exact absurd (hb lf h) (by decide)
  have hstep : rcScanner.scan sub k bol (quotation :: b ++ lf :: v) = _ :=
    rcScanner.scan_step hbest (List.prefix_append [lf] v) rfl
  rw [show rcScanner.newline = lf from rfl, hline] at hstep
  exact hstep

theorem scan_numId {t : Bytes} (hc : (c = chr '+' || c = chr '-' || isdigit c) = true)
    (ht : ∀ d ∈ t, isdigit d = true) (hv : ∀ c ∈ v.head?, c ∈ stops) :
    rcScanner.scan sub .paramNum bol (c :: t ++ v) =
      (.token (.numId (atoi (cstr (c :: t)))) :: (rcScanner.scan sub .paramNum false v).1,
        (rcScanner.scan sub .paramNum false v).2) := by
  have hcand : ∀ c, (c = chr '+' || c = chr '-' || isdigit c) = true →
      candidates .paramNum bol c = [.numId, .anyChar] := by
    cases bol <;> exact forall_byte_iff.2 (by decide +kernel)
  have havoids : RuleName.numId.pattern.avoids stops = true := by decide
  have hmem : c :: t ∈ RuleName.numId.pattern.lang :=
    Pattern.mem_cls_seq.2 ⟨c, t, hc, Pattern.mem_star_cls.2 ht, rfl⟩
  have hlen : RuleName.numId.rule.length .paramNum bol (c :: t ++ v) = some (c :: t).length :=
    Rule.length_of_longest rfl (fun h => nomatch h) (Pattern.longest_of_avoids havoids hmem hv)
      (by simp)
  have hline : bolAfter lf bol (c :: t) = false :=
    bolAfter_of_notMem (List.cons_ne_nil c t) (Pattern.notMem_of_avoids havoids hmem lf (by decide))
  rw [scan_emit (n := .numId) (best_of_pair (hcand c hc) hlen) rfl, hline]

theorem candidates_yesNo (bol : Bool) (c : UInt8)
    (hc : toupper c = chr 'Y' ∨ toupper c = chr 'N') :
    RuleName.yesNoId ∈ candidates .paramBool bol c ∧ ∀ n ∈ candidates .paramBool bol c,
      n = .anyChar ∨ n = .yesNoId ∨ ∃ w ∈ words, n = .word w := by
  have hcand : candidates .paramBool bol c = [.yesNoId, .anyChar] ∨
      candidates .paramBool bol c = [.word .normal, .yesNoId, .anyChar] := by
    rcases hc with hc | hc
    · left
      rcases eq_or_eq_of_toupper hc with rfl | rfl
      all_goals cases bol <;> rfl
    · right
      rcases eq_or_eq_of_toupper hc with rfl | rfl
      all_goals cases bol <;> rfl
  rcases hcand with h | h
  all_goals
    rw [h]
    simp [mem_words]

theorem scan_yesNo (hu : u.map toupper = bytes "YES" ∨ u.map toupper = bytes "NO") :
    rcScanner.scan sub .paramBool bol (u ++ quotation :: v) =
      (.token (.yesNoId (textOf u)) :: (rcScanner.scan sub .paramBool false (quotation :: v)).1,
        (rcScanner.scan sub .paramBool false (quotation :: v)).2) := by
  have havoids : RuleName.yesNoId.pattern.avoids stops = true := by decide
  have hmem : u ∈ RuleName.yesNoId.pattern.lang :=
    Pattern.mem_alt.2 (hu.imp (fun h => mem_anyCase.2 h) fun h => mem_anyCase.2 h)
  have hstop : ∀ c ∈ (quotation :: v).head?, c ∈ stops := fun c hc => by
    cases hc
    exact List.mem_cons_self ..
  have hlength : 2 ≤ u.length ∧ u.length ≤ 3 := by
    have hyes : (bytes "YES").length = 3 := rfl
    have hno : (bytes "NO").length = 2 := rfl
    rcases hu with h | h
    all_goals
      have hmap := congrArg List.length h
      rw [List.length_map] at hmap
      omega
  rcases u with _ | ⟨c, u⟩
  · exact absurd hlength.1 (by decide)
  · have hlen : RuleName.yesNoId.rule.length .paramBool bol (c :: u ++ quotation :: v) =
        some (c :: u).length :=
      Rule.length_of_longest rfl (fun h => nomatch h) (Pattern.longest_of_avoids havoids hmem hstop)
        (by simp)
    have hc : toupper c = chr 'Y' ∨ toupper c = chr 'N' :=
      hu.imp (fun h => (List.cons.inj h).1) fun h => (List.cons.inj h).1
    obtain ⟨hcand, hothers⟩ := candidates_yesNo bol c hc
    have hbest : best rcScanner.rules .paramBool bol (c :: u ++ quotation :: v) =
        some (RuleName.yesNoId.rule, (c :: u).length) := by
      rw [List.cons_append, best_candidates]
      refine best_of_lt (List.mem_map_of_mem hcand) hlen fun r hr m hm => ?_
      obtain ⟨n', hn', rfl⟩ := List.mem_map.1 hr
      rcases hothers n' hn' with rfl | rfl | ⟨w, -, rfl⟩
      · have hone := length_anyChar_le hm
        left
        omega
      · exact Or.inr rfl
      · -- all keywords are longer
        obtain ⟨hle, htake⟩ := length_word (u := c :: u) hstop hm
        have hword := congrArg List.length htake
        have hfour := four_le_text w
        simp only [List.length_map, List.length_take] at hword
        omega
    have hline : bolAfter lf bol (c :: u) = false :=
      bolAfter_of_notMem (List.cons_ne_nil c u) (Pattern.notMem_of_avoids havoids hmem lf (by decide))
    rw [scan_emit hbest rfl, hline]

end Steps

end Mailfilter.Rc
