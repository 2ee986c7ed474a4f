import Mailfilter.Flex.Scanner

/-!
# Which rule fires

Tools to find the rule that fires, and to compare scans of different inputs.

* `Pattern.first`, the characters that a match can begin with, and `best_filter`: only rules that are
  active and can begin with the next character matter;
* `best_append` and `best_congr`, the rule that fires in a list cut in two, or at two places;
* `Pattern.avoids`: characters that do not occur in a match, and `longest_append_of_avoids`: the match
  does not depend on what follows such a character;
* `Pattern.EndsLine`: a pattern that has a line end as its last character only, and
  `longest_append_of_endsLine`.
-/

namespace Flex

variable {α κ τ : Type}

namespace Pattern

/-! ### Prefixes that match -/

/-- The longest match depends on the matching prefixes. -/
theorem longest_congr {r r' : Pattern α} {s s' : List α}
    (h : ∀ n, (n ≤ s.length ∧ s.take n ∈ r.lang) ↔ (n ≤ s'.length ∧ s'.take n ∈ r'.lang)) :
    r.longest s = r'.longest s' := by
  refine Option.ext fun n => ?_
  rw [longest_eq_some_iff, longest_eq_some_iff, ← and_assoc,
    ← and_assoc, h]
  refine and_congr_right fun _ => ⟨fun hmax m hm hmem => ?_, fun hmax m hm hmem => ?_⟩
  · exact hmax m ((h m).2 ⟨hm, hmem⟩).1 ((h m).2 ⟨hm, hmem⟩).2
  · exact hmax m ((h m).1 ⟨hm, hmem⟩).1 ((h m).1 ⟨hm, hmem⟩).2

/-- Inputs that agree on a prefix, if no match is longer than that. -/
theorem longest_append_congr {r : Pattern α} {u v v' : List α}
    (hv : ∀ x y, x ≠ [] → x ++ y = v → u ++ x ∉ r.lang)
    (hv' : ∀ x y, x ≠ [] → x ++ y = v' → u ++ x ∉ r.lang) :
    r.longest (u ++ v) = r.longest (u ++ v') := by
  have hshort : ∀ {v : List α}, (∀ x y, x ≠ [] → x ++ y = v → u ++ x ∉ r.lang) → ∀ n,
      (n ≤ (u ++ v).length ∧ (u ++ v).take n ∈ r.lang) ↔ (n ≤ u.length ∧ u.take n ∈ r.lang) := by
    intro v hv n
    rcases le_or_gt n u.length with hn | hn
    · rw [List.take_append_of_le_length hn, List.length_append]
      exact and_congr_left fun _ => ⟨fun _ => hn, fun _ => by omega⟩
    · refine iff_of_false (fun ⟨hlen, hmem⟩ => ?_) fun h => absurd h.1 (by omega)
      rw [List.take_append, List.take_of_length_le hn.le] at hmem
      refine hv _ (v.drop (n - u.length)) (fun h0 => ?_) (List.take_append_drop _ _) hmem
      have hzero := congrArg List.length h0
      rw [List.length_append] at hlen
      rw [List.length_take, List.length_nil] at hzero
      omega
  exact longest_congr fun n => (hshort hv n).trans (hshort hv' n).symm

/-! ### First characters -/

/-- A match can begin with the character. -/
def first : Pattern α → α → Bool
  | nothing, _ => false
  | epsilon, _ => false
  | cls p, c => p c
  | seq r s, c => r.first c || (r.nullable && s.first c)
  | alt r s, c => r.first c || s.first c
  | star r, c => r.first c

theorem first_of_mem {r : Pattern α} {c : α} {w : List α} (h : c :: w ∈ r.lang) :
    r.first c = true := by
  induction r generalizing w with
  | nothing => exact absurd h (notMem_nothing _)
  | epsilon => cases mem_epsilon.1 h
  | cls p =>
    obtain ⟨d, hd, hw⟩ := mem_cls.1 h
    cases hw
    exact hd
  | seq r s ihr ihs =>
    obtain ⟨u, hu, v, hv, huv⟩ := mem_seq.1 h
    rw [first, Bool.or_eq_true, Bool.and_eq_true]
    rcases u with _ | ⟨d, u⟩
    · rw [List.nil_append] at huv
      exact Or.inr ⟨(nullable_iff r).2 hu, ihs (huv ▸ hv)⟩
    · cases huv
      exact Or.inl (ihr hu)
  | alt r s ihr ihs =>
    rw [first, Bool.or_eq_true]
    exact (mem_alt.1 h).imp ihr ihs
  | star r ih =>
    obtain ⟨u, -, hu, -⟩ := cons_mem_kstar.1 h
    exact ih hu

/-! ### Characters that do not occur -/

/-- None of the characters `cs` occurs in a match. -/
def avoids (cs : List α) : Pattern α → Bool
  | nothing => true
  | epsilon => true
  | cls p => cs.all fun c => !p c
  | seq r s => r.avoids cs && s.avoids cs
  | alt r s => r.avoids cs && s.avoids cs
  | star r => r.avoids cs

theorem notMem_of_avoids {cs : List α} {r : Pattern α} (h : r.avoids cs = true) {w : List α}
    (hw : w ∈ r.lang) : ∀ c ∈ cs, c ∉ w := by
  intro c hc
  induction r generalizing w with
  | nothing => exact absurd hw (notMem_nothing _)
  | epsilon =>
    rw [mem_epsilon.1 hw]
    exact List.not_mem_nil
  | cls p =>
    obtain ⟨d, hd, rfl⟩ := mem_cls.1 hw
    rw [avoids, List.all_eq_true] at h
    intro hcd
    rw [← List.mem_singleton.1 hcd] at hd
    have hp := h c hc
    rw [hd] at hp
    cases hp
  | seq r s ihr ihs =>
    rw [avoids, Bool.and_eq_true] at h
    obtain ⟨u, hu, v, hv, rfl⟩ := mem_seq.1 hw
    exact fun hcw => (List.mem_append.1 hcw).elim (ihr h.1 hu) (ihs h.2 hv)
  | alt r s ihr ihs =>
    rw [avoids, Bool.and_eq_true] at h
    exact (mem_alt.1 hw).elim (ihr h.1) (ihs h.2)
  | star r ih =>
    obtain ⟨S, rfl, hS⟩ := Language.mem_kstar.1 hw
    intro hcw
    obtain ⟨y, hy, hcy⟩ := List.mem_flatten.1 hcw
    exact ih h (hS y hy) hcy

/-- A match stops before a character that does not occur in it. -/
theorem append_notMem_of_avoids {cs : List α} {r : Pattern α} (h : r.avoids cs = true) (u : List α)
    {v : List α} (hv : ∀ c ∈ v.head?, c ∈ cs) : ∀ x y, x ≠ [] → x ++ y = v → u ++ x ∉ r.lang := by
  rintro (_ | ⟨c, x⟩) y hx rfl hmem
  · exact hx rfl
  · exact notMem_of_avoids h hmem c (hv c rfl) (by simp)

/-- So it does not see what follows the character. -/
theorem longest_append_of_avoids {cs : List α} {r : Pattern α} (h : r.avoids cs = true)
    (u : List α) {v v' : List α} (hv : ∀ c ∈ v.head?, c ∈ cs) (hv' : ∀ c ∈ v'.head?, c ∈ cs) :
    r.longest (u ++ v) = r.longest (u ++ v') :=
  longest_append_congr (append_notMem_of_avoids h u hv) (append_notMem_of_avoids h u hv')

/-- And a word of the pattern is the match there. -/
theorem longest_of_avoids {cs : List α} {r : Pattern α} (h : r.avoids cs = true) {u v : List α}
    (hu : u ∈ r.lang) (hv : ∀ c ∈ v.head?, c ∈ cs) : r.longest (u ++ v) = some u.length :=
  longest_append hu (append_notMem_of_avoids h u hv)

/-- A class matches one character. -/
theorem longest_cls {p : α → Bool} {c : α} (hc : p c = true) (s : List α) :
    (cls p).longest (c :: s) = some 1 := by
  refine longest_append (u := [c]) ⟨c, hc, rfl⟩ ?_
  rintro x y hx - ⟨d, -, hd⟩
  exact hx (List.cons.inj hd).2

/-- One character followed by a word of another pattern. -/
theorem mem_lit_seq [DecidableEq α] {c : α} {r : Pattern α} {w : List α} :
    w ∈ (seq (lit c) r).lang ↔ ∃ v ∈ r.lang, w = c :: v := by
  rw [lit, mem_cls_seq]
  constructor
  · rintro ⟨d, v, hd, hv, rfl⟩
    exact ⟨v, hv, by rw [of_decide_eq_true hd]⟩
  · rintro ⟨v, hv, rfl⟩
    exact ⟨c, v, decide_eq_true rfl, hv, rfl⟩

/-- The first character of the input is that of the match. -/
theorem eq_of_longest_lit_seq [DecidableEq α] {c d : α} {r : Pattern α} {s : List α} {n : ℕ}
    (h : (seq (lit c) r).longest (d :: s) = some n) : d = c := by
  obtain ⟨v, -, hv⟩ := mem_lit_seq.1 (take_mem_of_longest h).2
  rcases n with _ | n
  · cases hv
  · exact (List.cons.inj hv).1

theorem le_one_of_longest_cls {p : α → Bool} {s : List α} {n : ℕ}
    (h : (cls p).longest s = some n) : n ≤ 1 := by
  obtain ⟨hn, c, -, hc⟩ := take_mem_of_longest h
  have hlen := congrArg List.length hc
  rw [List.length_take_of_le hn] at hlen
  exact hlen.le

/-! ### Patterns that end at a line end -/

/-- No match goes on after the character `nl`. -/
def EndsLine (nl : α) (r : Pattern α) : Prop := ∀ x y, x ++ nl :: y ∈ r.lang → y = []

theorem endsLine_of_avoids {nl : α} {r : Pattern α} (h : r.avoids [nl] = true) : r.EndsLine nl :=
  fun _ _ hmem => absurd (by simp) (notMem_of_avoids h hmem nl (by simp))

theorem EndsLine.cls {nl : α} (p : α → Bool) : (cls p).EndsLine nl := by
  rintro x y ⟨c, -, hc⟩
  rcases x with _ | ⟨d, x⟩
  · exact (List.cons.inj hc).2
  · have hnil := (List.cons.inj hc).2
    simp at hnil

theorem EndsLine.seq {nl : α} {r s : Pattern α} (hr : r.avoids [nl] = true) (hs : s.EndsLine nl) :
    (seq r s).EndsLine nl := by
  rintro x y hmem
  obtain ⟨u, hu, v, hv, huv⟩ := mem_seq.1 hmem
  rcases List.append_eq_append_iff.1 huv with ⟨a, rfl, rfl⟩ | ⟨a, rfl, hav⟩
  · exact hs _ _ hv
  · rcases a with _ | ⟨d, a⟩
    · exact hs [] y (hav ▸ hv)
    · cases hav
      exact absurd (by simp) (notMem_of_avoids hr hu nl (by simp))

/-- A match within a line does not see the next one. -/
theorem longest_append_of_endsLine {nl : α} {r : Pattern α} (h : r.EndsLine nl) (l v v' : List α) :
    r.longest (l ++ nl :: v) = r.longest (l ++ nl :: v') := by
  have hstop : ∀ v : List α, ∀ x y, x ≠ [] → x ++ y = v → l ++ [nl] ++ x ∉ r.lang := by
    rintro - x y hx rfl hmem
    exact hx (h l x (by simpa using hmem))
  have := longest_append_congr (hstop v) (hstop v')
  simpa using this

end Pattern

/-! ### The rule that fires -/

section Best

variable {rules : List (Rule κ τ α)} {k : κ} {bol : Bool} {s : List α}

/-- Where the matches of the pattern are the same, those of the rule are. -/
theorem Rule.length_congr {r : Rule κ τ α} {s' : List α}
    (h : r.active k = true → (r.bol = true → bol = true) →
      r.pattern.longest s = r.pattern.longest s') : r.length k bol s = r.length k bol s' := by
  rw [Rule.length, Rule.length]
  split
  · next hc =>
    simp only [Bool.and_eq_true, Bool.or_eq_true, Bool.not_eq_true'] at hc
    rw [h hc.1 fun hb => hc.2.resolve_left (by rw [hb]; exact Bool.noConfusion)]
  · rfl

theorem best_cons (r : Rule κ τ α) (rules : List (Rule κ τ α)) (k : κ) (bol : Bool) (s : List α) :
    best (r :: rules) k bol s = best rules k bol s ∨
      ∃ n, best (r :: rules) k bol s = some (r, n) := by
  rw [best]
  rcases r.length k bol s with _ | n <;> rcases best rules k bol s with _ | ⟨r', m⟩
  · exact Or.inl rfl
  · exact Or.inl rfl
  · exact Or.inr ⟨n, rfl⟩
  · simp only []
    split
    · exact Or.inr ⟨n, rfl⟩
    · exact Or.inl rfl

theorem best_cons_none {r : Rule κ τ α} (h : r.length k bol s = none) :
    best (r :: rules) k bol s = best rules k bol s := by
  rw [best, h]

theorem ne_nil_of_best {r : Rule κ τ α} {n : ℕ} (h : best rules k bol s = some (r, n)) : s ≠ [] := by
  rintro rfl
  obtain ⟨hpos, hle⟩ := best_length h
  exact absurd (hpos.trans_le hle) (lt_irrefl 0)

/-- In a list cut in two, a rule of the first part fires, or the one that would fire in the second. -/
theorem best_append {rules' : List (Rule κ τ α)} {r' : Rule κ τ α} {m : ℕ}
    (h : best rules' k bol s = some (r', m)) :
    best (rules ++ rules') k bol s = some (r', m) ∨
      ∃ r ∈ rules, ∃ n, best (rules ++ rules') k bol s = some (r, n) := by
  induction rules with
  | nil => exact Or.inl h
  | cons r rules ih =>
    rw [List.cons_append]
    rcases best_cons r (rules ++ rules') k bol s with hb | ⟨n, hb⟩
    · rw [hb]
      exact ih.imp_right fun ⟨r₁, hr₁, hn⟩ => ⟨r₁, List.mem_cons_of_mem _ hr₁, hn⟩
    · exact Or.inr ⟨r, List.mem_cons_self .., n, hb⟩

/-- The first of the longest matches fires. -/
theorem best_cons_some {r : Rule κ τ α} {n : ℕ} (h : r.length k bol s = some n)
    (hmax : ∀ r' ∈ rules, ∀ m, r'.length k bol s = some m → m ≤ n) :
    best (r :: rules) k bol s = some (r, n) := by
  rw [best, h]
  rcases hb : best rules k bol s with _ | ⟨r', m⟩
  · rfl
  · obtain ⟨hmem, hlen⟩ := best_mem hb
    simp only [if_pos (hmax r' hmem m hlen)]

theorem le_best {r : Rule κ τ α} {n : ℕ} (hr : r ∈ rules) (hlen : r.length k bol s = some n) :
    ∃ r' m, best rules k bol s = some (r', m) ∧ n ≤ m := by
  induction rules with
  | nil => exact absurd hr List.not_mem_nil
  | cons r₁ rules ih =>
    rcases List.mem_cons.1 hr with rfl | hr
    · rw [best, hlen]
      rcases best rules k bol s with _ | ⟨r', m⟩
      · exact ⟨r, n, rfl, le_rfl⟩
      · by_cases hle : m ≤ n
        · exact ⟨r, n, if_pos hle, le_rfl⟩
        · exact ⟨r', m, if_neg hle, (not_le.1 hle).le⟩
    · obtain ⟨r', m, hb, hle⟩ := ih hr
      rw [best, hb]
      rcases r₁.length k bol s with _ | n₁
      · exact ⟨r', m, rfl, hle⟩
      · by_cases hle' : m ≤ n₁
        · exact ⟨r₁, n₁, if_pos hle', hle.trans hle'⟩
        · exact ⟨r', m, if_neg hle', hle⟩

/-- A rule whose match is longer than all others fires. -/
theorem best_of_lt {r : Rule κ τ α} {n : ℕ} (hr : r ∈ rules) (hlen : r.length k bol s = some n)
    (hmax : ∀ r' ∈ rules, ∀ m, r'.length k bol s = some m → m < n ∨ r' = r) :
    best rules k bol s = some (r, n) := by
  obtain ⟨r', m, hb, hle⟩ := le_best hr hlen
  obtain ⟨hr', hlen'⟩ := best_mem hb
  obtain rfl := (hmax r' hr' m hlen').resolve_left (not_lt.2 hle)
  rw [hb, Option.some.inj (hlen'.symm.trans hlen)]

/-- Only rules that are active and can begin with the next character matter. -/
theorem best_filter (rules : List (Rule κ τ α)) (c : α) :
    best rules k bol (c :: s) =
      best (rules.filter fun r => r.active k && (!r.bol || bol) && r.pattern.first c) k bol
        (c :: s) := by
  induction rules with
  | nil => rfl
  | cons r rules ih =>
    rw [List.filter_cons]
    split_ifs with h
    · rw [best, best, ih]
    · rw [best_cons_none ?_, ih]
      rcases hlen : r.length k bol (c :: s) with _ | n
      · rfl
      · obtain ⟨hactive, hbol, hlong, hpos⟩ := Rule.length_eq_some hlen
        obtain ⟨n, rfl⟩ := Nat.exists_eq_add_of_lt hpos
        obtain ⟨-, hmem⟩ := Pattern.take_mem_of_longest hlong
        refine absurd ?_ h
        rw [Bool.and_eq_true, Bool.and_eq_true, hactive, Pattern.first_of_mem hmem]
        cases hb : r.bol with
        | false => exact ⟨⟨rfl, rfl⟩, rfl⟩
        | true => exact ⟨⟨rfl, hbol hb⟩, rfl⟩

/-- The same rule fires where all rules have the same matches. -/
theorem best_congr {bol' : Bool} {s' : List α}
    (h : ∀ r ∈ rules, r.length k bol s = r.length k bol' s') :
    best rules k bol s = best rules k bol' s' := by
  induction rules with
  | nil => rfl
  | cons r rules ih =>
    rw [best, best, h r (List.mem_cons_self ..), ih fun r' hr' => h r' (List.mem_cons_of_mem _ hr')]

end Best

end Flex
