import Mailfilter.Rfc822.Scanner

/-!
# The scanner, line by line

For a text whose lines end in CRLF the rules of the scanner compete at few places only.

* `splitTag` and `isTopline`, which decide what a line starts with;
* `lineStep`, the tokens of one line, which depend on the `Place` where the scanner stands: the white
  space behind a colon may put the value of a field off to a later line, and a line end may belong to
  the end of a message; `lineTokens`, the tokens of a list of lines;
* `tokensFrom_headerEnd`, …, `tokensFrom_junk`, what happens at the start of a line, one lemma for
  every rule that can fire there;
* `rfclex_unlines`: the scanner yields the tokens of `lineTokens`.
-/

namespace Mailfilter.Rfc822

open Flex

/-! ### Lines -/

/-- The text made of the lines, each ended by CRLF. -/
def unlines (ls : List Bytes) : Bytes := ls.flatMap (· ++ crlf)

/-- A line without line feeds and NULs. -/
def Clean (l : Bytes) : Prop := lf ∉ l ∧ 0 ∉ l

/-- The characters of a field name after the first. -/
def isNameChar (c : UInt8) : Bool := isalnum c || c = chr '-'

/-- The name of a field, if the line starts with one, and what follows the colon. -/
def splitTag : Bytes → Option (Bytes × Bytes)
  | [] => none
  | c :: s =>
    if isalpha c then
      match s.dropWhile isNameChar with
      | [] => none
      | d :: rest => if d = chr ':' then some (c :: s.takeWhile isNameChar, rest) else none
    else none

/-- Does the line start like an mbox line? -/
def isTopline : Bytes → Bool
  | a :: b :: c :: d :: s :: _ => [a, b, c, d].map toupper = bytes "FROM" && isspace s
  | _ => false

/-- White space becomes blanks. -/
def blanks (s : Bytes) : Bytes := s.map fun c => if isspace c then chr ' ' else c

/-- The line that ends a message. -/
def dotLine : Bytes := [chr '.']

/-- Where the scanner stands between two lines: at the start of a line; behind the colon of a field
of which it has only seen white space since; or in front of the line end of a line that is empty
(`pending true`) or of which it has skipped everything else (`pending false`). -/
inductive Place
  | start
  | value
  | pending (empty : Bool)
  deriving DecidableEq

/-- What a line end yields that does not belong to the end of a message. -/
def flush : Bool → List Token
  | true => [⟨.body, bytes " "⟩]
  | false => []

/-- The tokens of a line from its start, and where the scanner stands behind it. -/
def startStep (l : Bytes) : List Token × Place :=
  match splitTag l with
  | some (name, value) =>
    match value.dropWhile isspace with
    | [] => ([⟨.tag, name⟩], .value)
    | c :: s => ([⟨.tag, name⟩, ⟨.body, c :: s⟩], .start)
  | none =>
    if isTopline l then ([⟨.topline, l ++ crlf⟩], .start)
    else if l.head?.any isspace then ([⟨.body, blanks (l ++ [cr])⟩], .start)
    else ([], .pending (l = []))

/-- The tokens of the next line. -/
def lineStep : Place → Bytes → List Token × Place
  | .start, l => startStep l
  | .value, l =>
    match l.dropWhile isspace with
    | [] => ([], .value)
    | c :: s => ([⟨.body, c :: s⟩], .start)
  | .pending empty, l =>
    if l = dotLine then ([⟨.headerEnd, crlf ++ dotLine ++ crlf⟩], .start)
    else (flush empty ++ (startStep l).1, (startStep l).2)

/-- The tokens of a list of lines. -/
def lineTokens : Place → List Bytes → List Token
  | .pending empty, [] => flush empty
  | _, [] => []
  | p, l :: ls => (lineStep p l).1 ++ lineTokens (lineStep p l).2 ls

theorem unlines_cons (l : Bytes) (ls : List Bytes) :
    unlines (l :: ls) = l ++ cr :: lf :: unlines ls := by
  simp [unlines, crlf]

/-! ### Characters -/

theorem isalpha_of_isspace {c : UInt8} : isspace c = true → isalpha c = false := by
  unfold isspace isalpha isupper islower; grind

theorem isNameChar_of_isspace {c : UInt8} : isspace c = true → isNameChar c = false := by
  unfold isspace isNameChar isalnum isalpha isupper islower isdigit chr; grind

theorem toupper_of_isspace {c : UInt8} : isspace c = true → toupper c = c := by
  unfold isspace toupper islower; grind

theorem isNameChar_colon : isNameChar (chr ':') = false := rfl

/-! ### The starts of lines -/

theorem splitTag_eq_some {l name value : Bytes} (h : splitTag l = some (name, value)) :
    IsName name ∧ l = name ++ chr ':' :: value := by
  unfold splitTag at h
  split at h
  · cases h
  next c s =>
    split_ifs at h with hc
    split at h
    · cases h
    next d rest hd =>
      split_ifs at h with hcolon
      cases h
      refine ⟨⟨c, s.takeWhile isNameChar, rfl, hc, fun e he => ?_⟩, ?_⟩
      · exact List.mem_takeWhile_imp (p := isNameChar) he
      · rw [← hcolon, List.cons_append, ← hd, List.takeWhile_append_dropWhile]

theorem splitTag_append {name value : Bytes} (h : IsName name) :
    splitTag (name ++ chr ':' :: value) = some (name, value) := by
  obtain ⟨c, s, rfl, hc, hs⟩ := h
  have hs' : ∀ d ∈ s, isNameChar d = true := hs
  simp only [List.cons_append, splitTag, hc, if_true, List.dropWhile_append_of_pos hs',
    List.takeWhile_append_of_pos hs']
  rw [List.dropWhile_cons_of_neg (by rw [isNameChar_colon]; decide)]
  simp [isNameChar_colon]

theorem isTopline_iff {l : Bytes} : isTopline l = true ↔ IsTopline l := by
  constructor
  · intro h
    unfold isTopline at h
    split at h
    next a b c d s m =>
      simp only [Bool.and_eq_true, decide_eq_true_eq] at h
      exact ⟨[a, b, c, d], s, m, h.1, h.2, rfl⟩
    · cases h
  · rintro ⟨f, s, m, hf, hs, rfl⟩
    obtain ⟨a, b, c, d, rfl⟩ : ∃ a b c d, f = [a, b, c, d] := by
      have hlen : f.length = 4 := by simpa [bytes] using congrArg List.length hf
      exact List.length_eq_four.1 hlen
    simp only [List.cons_append, List.nil_append, isTopline, hf, hs, decide_true, Bool.and_self]

/-- A word without the character `c` that begins where `l` and `c` follow is within `l`. -/
theorem prefix_of_notMem {u z l t : Bytes} {c : UInt8} (hc : c ∉ u) (h : u ++ z = l ++ c :: t) :
    ∃ l', l = u ++ l' ∧ z = l' ++ c :: t := by
  rcases List.append_eq_append_iff.1 h with ⟨a, rfl, rfl⟩ | ⟨b, rfl, hb⟩
  · exact ⟨a, rfl, rfl⟩
  · cases b with
    | nil => exact ⟨[], by simp, by simpa using hb.symm⟩
    | cons d b =>
      obtain rfl : c = d := by simpa using congrArg List.head? hb
      exact absurd (by simp) hc

/-- The first occurrence of a character splits a text in one way only. -/
theorem append_cons_inj {u v u' v' : Bytes} {c : UInt8} (hu : c ∉ u) (hu' : c ∉ u')
    (h : u ++ c :: v = u' ++ c :: v') : u = u' ∧ v = v' := by
  obtain ⟨w, rfl, hw⟩ := prefix_of_notMem hu h
  cases w with
  | nil => exact ⟨by simp, by simpa using hw⟩
  | cons d w =>
    obtain rfl : c = d := by simpa using congrArg List.head? hw
    exact absurd (by simp) hu'

theorem lf_notMem_append_cr {m : Bytes} (h : lf ∉ m) : lf ∉ m ++ [cr] := by
  simpa [h] using (by decide : ¬ lf = cr)

theorem notMem_of_from {f : Bytes} (hf : f.map toupper = bytes "FROM") {c : UInt8}
    (hc : toupper c ∉ bytes "FROM") : c ∉ f :=
  fun hmem => hc (hf ▸ List.mem_map_of_mem hmem)

theorem IsName.notMem {name : Bytes} (h : IsName name) {c : UInt8} (hc : isNameChar c = false) :
    c ∉ name := by
  obtain ⟨d, s, rfl, hd, hs⟩ := h
  rintro hmem
  rcases List.mem_cons.1 hmem with rfl | hmem
  · rw [isNameChar, isalnum, hd] at hc; cases hc
  · have hchar : isNameChar c = true := hs c hmem
    rw [hc] at hchar; cases hchar

/-- No line starts both ways. -/
theorem isTopline_of_splitTag {l name value : Bytes} (h : splitTag l = some (name, value)) :
    isTopline l = false := by
  obtain ⟨hname, rfl⟩ := splitTag_eq_some h
  rw [← Bool.not_eq_true, isTopline_iff]
  rintro ⟨f, s, m, hf, hs, heq⟩
  obtain ⟨l', rfl, hl'⟩ := prefix_of_notMem (notMem_of_from hf (by decide)) heq.symm
  cases l' with
  | nil =>
    obtain rfl : s = chr ':' := by simpa using congrArg List.head? hl'
    exact absurd hs (by decide)
  | cons d l' =>
    obtain rfl : s = d := by simpa using congrArg List.head? hl'
    exact hname.notMem (isNameChar_of_isspace hs) (by simp)

/-! ### The rules at the start of a line -/

section Lengths

variable {k : StartCondition} {bol : Bool} {l t : Bytes}

theorem topline_length_none (h : isTopline l = false) :
    topline.length k bol (l ++ cr :: lf :: t) = none := by
  refine Rule.length_eq_none fun w v hw _ hmem => ?_
  obtain ⟨f, s, m, hf, hs, hm, rfl⟩ := mem_toplinePattern.1 hmem
  have hw' : f ++ (s :: (m ++ crlf ++ v)) = l ++ cr :: lf :: t := by rw [← hw]; simp
  obtain ⟨l', rfl, hl'⟩ := prefix_of_notMem (notMem_of_from hf (by decide)) hw'
  cases l' with
  | nil =>
    simp only [List.nil_append, List.cons.injEq] at hl'
    cases m with
    | nil => cases hl'.2
    | cons d m =>
      obtain rfl : d = lf := by simpa using congrArg List.head? hl'.2
      exact hm (List.mem_cons_self ..)
  | cons d l' =>
    obtain rfl : s = d := by simpa using congrArg List.head? hl'
    exact Bool.false_ne_true (h.symm.trans (isTopline_iff.2 ⟨f, s, l', hf, hs, rfl⟩))

theorem topline_length (h : isTopline l = true) (hl : lf ∉ l) :
    topline.length .initial true (l ++ crlf ++ t) = some (l ++ crlf).length := by
  obtain ⟨f, s, m, hf, hs, rfl⟩ := isTopline_iff.1 h
  have hsm : s ≠ lf ∧ lf ∉ m := by
    simp only [List.mem_append, List.mem_cons, not_or] at hl
    exact ⟨fun h => hl.2.1 h.symm, hl.2.2⟩
  refine Rule.length_append rfl (fun _ => rfl) (mem_toplinePattern.2 ⟨f, s, m, hf, hs, hsm.2, rfl⟩)
    (by simp) fun x y hx _ hmem => hx ?_
  obtain ⟨f', s', m', hf', hs', hm', heq⟩ := mem_toplinePattern.1 hmem
  have hlen : f.length = f'.length := by
    simpa using (congrArg List.length hf).trans (congrArg List.length hf').symm
  simp only [List.append_assoc, List.cons_append] at heq
  obtain ⟨rfl, htail⟩ := List.append_inj heq hlen
  obtain ⟨rfl, hrest⟩ := List.cons.inj htail
  exact (append_cons_inj (lf_notMem_append_cr hsm.2) (lf_notMem_append_cr hm')
    (by simpa using hrest)).2

theorem tag_length_none (h : splitTag l = none) :
    tag.length k bol (l ++ cr :: lf :: t) = none := by
  refine Rule.length_eq_none fun w v hw _ hmem => ?_
  obtain ⟨name, sp, hname, hsp, rfl⟩ := mem_tagPattern.1 hmem
  have hw' : (name ++ [chr ':']) ++ (sp ++ v) = l ++ cr :: lf :: t := by rw [← hw]; simp
  have hcr : cr ∉ name ++ [chr ':'] := by
    have := hname.notMem (c := cr) (by decide)
    simpa [this] using (by decide : ¬ cr = chr ':')
  obtain ⟨l', rfl, -⟩ := prefix_of_notMem hcr hw'
  rw [List.append_assoc, List.singleton_append, splitTag_append hname] at h
  cases h

theorem tag_length {name sp v : Bytes} (hname : IsName name) (hsp : ∀ c ∈ sp, isspace c = true)
    (hv : ∀ c ∈ v.head?, isspace c = false) :
    tag.length .initial true (name ++ chr ':' :: sp ++ v) = some (name ++ chr ':' :: sp).length := by
  refine Rule.length_append rfl (fun _ => rfl) (mem_tagPattern.2 ⟨name, sp, hname, hsp, rfl⟩)
    (by simp) fun x y hx hxy hmem => ?_
  obtain ⟨name', sp', hname', hsp', heq⟩ := mem_tagPattern.1 hmem
  obtain ⟨rfl, rfl⟩ := append_cons_inj (hname.notMem isNameChar_colon)
    (hname'.notMem isNameChar_colon) (by simpa using heq)
  obtain ⟨c, x, rfl⟩ := List.exists_cons_of_ne_nil hx
  have hc : isspace c = false := hv c (by rw [← hxy]; rfl)
  exact Bool.false_ne_true (hc.symm.trans (hsp' c (by simp)))

theorem continuation_length (h : l.head?.any isspace = true) (hl : lf ∉ l) :
    continuation.length .initial true (l ++ lf :: t) = some l.length := by
  obtain ⟨s, m, rfl⟩ : ∃ s m, l = s :: m := by
    cases l with
    | nil => cases h
    | cons s m => exact ⟨s, m, rfl⟩
  have hm : lf ∉ m := fun h => hl (List.mem_cons_of_mem _ h)
  refine Rule.length_append rfl (fun _ => rfl)
    (mem_continuationPattern.2 ⟨s, m, by simpa using h, hm, rfl⟩) (by simp)
    fun x y hx hxy hmem => ?_
  obtain ⟨s', m', -, hm', heq⟩ := mem_continuationPattern.1 hmem
  obtain ⟨c, x, rfl⟩ := List.exists_cons_of_ne_nil hx
  obtain rfl : c = lf := by simpa using congrArg List.head? hxy
  exact hm' ((List.cons.inj heq).2 ▸ by simp)

theorem continuation_length_none {c : UInt8} {s : Bytes} (h : isspace c = false) :
    continuation.length k bol (c :: s) = none := by
  refine Rule.length_eq_none fun w v hw _ hmem => ?_
  obtain ⟨s', m, hs, -, rfl⟩ := mem_continuationPattern.1 hmem
  obtain rfl : s' = c := by simpa using congrArg List.head? hw
  exact Bool.false_ne_true (h.symm.trans hs)

theorem body_length (hne : l ≠ []) (hl : lf ∉ l) :
    body.length .bodyReady bol (l ++ crlf ++ t) = some (l ++ crlf).length := by
  refine Rule.length_append rfl (fun hb => Bool.noConfusion hb)
    (mem_bodyPattern.2 ⟨l, Or.inl hl, rfl⟩) (by simp) fun x y hx _ hmem => hx ?_
  obtain ⟨m, hm, heq⟩ := mem_bodyPattern.1 hmem
  rcases hm with hm | ⟨s, -, rfl⟩
  · exact (append_cons_inj (lf_notMem_append_cr hl) (lf_notMem_append_cr hm)
      (by simpa using heq)).2
  · have hlen := congrArg List.length heq
    have hpos := List.length_pos_iff.2 hne
    simp only [List.length_append, List.length_cons, List.length_nil] at hlen
    exact List.length_eq_zero_iff.1 (by omega)

theorem body_length_none {s : Bytes} (hk : k ≠ .bodyReady) : body.length k bol s = none :=
  Rule.length_of_inactive (decide_eq_false hk)

theorem headerEnd_length :
    headerEnd.length .initial bol (crlf ++ dotLine ++ crlf ++ t) = some 5 := by
  refine Rule.length_append (u := crlf ++ dotLine ++ crlf) rfl (fun h => Bool.noConfusion h)
    (mem_word.2 rfl) (by simp) fun x y hx _ hmem => hx ?_
  exact List.append_cancel_left ((mem_word.1 hmem).trans (List.append_nil _).symm)

theorem headerEnd_length_none {s : Bytes} (h : ∀ t, s ≠ crlf ++ dotLine ++ crlf ++ t) :
    headerEnd.length k bol s = none :=
  Rule.length_eq_none fun _ v hw _ hmem => h v (by rw [← hw, mem_word.1 hmem]; rfl)

theorem blank_length {c : UInt8} {s : Bytes} :
    blank.length k bol (c :: s) = if c = chr ' ' ∨ c = 9 then some 1 else none := by
  split_ifs with h
  · refine Rule.length_append (r := blank) (u := [c]) rfl (fun h => Bool.noConfusion h)
      (Pattern.mem_cls.2 ⟨c, by simpa using h, rfl⟩) (by simp) fun x y hx _ hmem => hx ?_
    obtain ⟨d, -, hd⟩ := Pattern.mem_cls.1 hmem
    exact (List.cons.inj hd).2
  · refine Rule.length_eq_none fun w v hw _ hmem => h ?_
    obtain ⟨d, hd, rfl⟩ := Pattern.mem_cls.1 hmem
    obtain rfl : d = c := by simpa using congrArg List.head? hw
    simpa using hd

theorem newline_length {c : UInt8} {s : Bytes} :
    newline.length k bol (c :: s) = if c = lf then some 1 else none := by
  split_ifs with h
  · subst h
    refine Rule.length_append (r := newline) (u := [lf]) rfl (fun h => Bool.noConfusion h)
      (Pattern.mem_lit.2 rfl) (by simp) fun x y hx _ hmem => hx ?_
    exact (List.cons.inj (Pattern.mem_lit.1 hmem)).2
  · refine Rule.length_eq_none fun w v hw _ hmem => h ?_
    rw [Pattern.mem_lit.1 hmem] at hw
    simpa using (congrArg List.head? hw).symm

/-- Where no white space comes next, only the first three rules are in question. -/
theorem best_of_notSpace {c : UInt8} {s : Bytes} (hs : s.head? = some c) (hc : isspace c = false) :
    best rfcScanner.rules k bol s = best [topline, tag, body] k bol s := by
  obtain ⟨s, rfl⟩ : ∃ s', s = c :: s' := by
    cases s with
    | nil => cases hs
    | cons d s => exact ⟨s, by rw [Option.some.inj hs]⟩
  have hne : ∀ d, isspace d = true → c ≠ d := by
    rintro d hd rfl
    exact Bool.false_ne_true (hc.symm.trans hd)
  have h₁ : continuation.length k bol (c :: s) = none := continuation_length_none hc
  have h₂ : headerEnd.length k bol (c :: s) = none :=
    headerEnd_length_none fun t ht => hne cr rfl (List.cons.inj ht).1
  have h₃ : blank.length k bol (c :: s) = none := by
    rw [blank_length, if_neg (not_or.2 ⟨hne _ rfl, hne _ rfl⟩)]
  have h₄ : newline.length k bol (c :: s) = none := by
    rw [newline_length, if_neg (hne _ rfl)]
  simp only [rfcScanner, best, h₁, h₂, h₃, h₄]

end Lengths

/-! ### Steps of the scanner -/

section Steps

variable {bol : Bool} {l t : Bytes}

theorem getLast?_eq_lf_crlf {s : Bytes} : (s ++ crlf).getLast? = some lf := by simp

/-- `<*>"\n"` where no line starts. -/
theorem tokensFrom_newline {k : StartCondition} (hk : k ≠ .bodyReady) :
    rfcScanner.tokensFrom k false (lf :: t) = rfcScanner.tokensFrom .initial true t := by
  have hend : headerEnd.length k false (lf :: t) = none :=
    headerEnd_length_none fun t ht => absurd (List.cons.inj ht).1 (by decide)
  have hbest : best rfcScanner.rules k false ([lf] ++ t) = some (newline, [lf].length) := by
    simp only [rfcScanner, best, List.singleton_append, Rule.length_of_anchored (r := topline) rfl,
      Rule.length_of_anchored (r := tag) rfl, body_length_none hk,
      Rule.length_of_anchored (r := continuation) rfl, hend, blank_length, newline_length]
    rfl
  exact rfcScanner.tokensFrom_rule hbest

theorem tokensFrom_headerEnd :
    rfcScanner.tokensFrom .initial bol (crlf ++ dotLine ++ crlf ++ t) =
      ⟨.headerEnd, crlf ++ dotLine ++ crlf⟩ :: rfcScanner.tokensFrom .initial true t := by
  have htop : topline.length .initial bol (crlf ++ dotLine ++ crlf ++ t) = none :=
    topline_length_none (l := []) rfl
  have htag : tag.length .initial bol (crlf ++ dotLine ++ crlf ++ t) = none :=
    tag_length_none (l := []) rfl
  have hcont : continuation.length .initial bol (crlf ++ dotLine ++ crlf ++ t) =
      if bol then some 1 else none := by
    cases bol with
    | false => exact Rule.length_of_anchored rfl
    | true => exact continuation_length (l := [cr]) rfl (by decide)
  have hblank : blank.length .initial bol (crlf ++ dotLine ++ crlf ++ t) = none := blank_length
  have hnew : newline.length .initial bol (crlf ++ dotLine ++ crlf ++ t) = none := newline_length
  have hbest : best rfcScanner.rules .initial bol (crlf ++ dotLine ++ crlf ++ t) =
      some (headerEnd, (crlf ++ dotLine ++ crlf).length) := by
    simp only [rfcScanner, best, htop, htag, hcont, headerEnd_length, hblank, hnew,
      body_length_none (k := .initial) (by decide)]
    cases bol <;> rfl
  exact rfcScanner.tokensFrom_rule hbest

theorem tokensFrom_topline (htop : isTopline l = true) (htag : splitTag l = none) (hl : Clean l) :
    rfcScanner.tokensFrom .initial true (l ++ crlf ++ t) =
      ⟨.topline, l ++ crlf⟩ :: rfcScanner.tokensFrom .initial true t := by
  obtain ⟨c, hhead, hc⟩ : ∃ c, (l ++ crlf ++ t).head? = some c ∧ isspace c = false := by
    obtain ⟨f, s, m, hf, -, rfl⟩ := isTopline_iff.1 htop
    cases f with
    | nil => cases hf
    | cons c f =>
      refine ⟨c, rfl, Bool.eq_false_iff.2 fun hc => ?_⟩
      have hF : toupper c = chr 'F' := (List.cons.inj hf).1
      rw [toupper_of_isspace hc] at hF
      exact absurd (hF ▸ hc) (by decide)
  have hbest : best rfcScanner.rules .initial true (l ++ crlf ++ t) =
      some (topline, (l ++ crlf).length) := by
    have htag' : tag.length .initial true (l ++ crlf ++ t) = none := by
      rw [List.append_assoc]; exact tag_length_none htag
    rw [best_of_notSpace hhead hc]
    simp only [best, topline_length htop hl.1, htag', body_length_none (k := .initial) (by decide)]
  have hnul : (0 : UInt8) ∉ l ++ crlf := by
    simpa [hl.2] using (by decide : (0 : UInt8) ∉ crlf)
  rw [rfcScanner.tokensFrom_rule hbest, getLast?_eq_lf_crlf]
  simp only [topline, cstr_of_noNul hnul]
  rfl

/-- A field: the white space behind the colon goes with the tag. -/
theorem tokensFrom_tag {name sp v : Bytes} (hname : IsName name)
    (hsp : ∀ c ∈ sp, isspace c = true) (hv : ∀ c ∈ v.head?, isspace c = false)
    (htop : topline.length .initial true (name ++ chr ':' :: sp ++ v) = none) :
    ∃ b, rfcScanner.tokensFrom .initial true (name ++ chr ':' :: sp ++ v) =
      ⟨.tag, name⟩ :: rfcScanner.tokensFrom .bodyReady b v := by
  obtain ⟨c, hhead, hc⟩ : ∃ c, (name ++ chr ':' :: sp ++ v).head? = some c ∧
      isspace c = false := by
    obtain ⟨c, s, rfl, hc, -⟩ := hname
    refine ⟨c, rfl, Bool.eq_false_iff.2 fun hs => ?_⟩
    rw [isalpha_of_isspace hs] at hc
    cases hc
  have hbest : best rfcScanner.rules .initial true (name ++ chr ':' :: sp ++ v) =
      some (tag, (name ++ chr ':' :: sp).length) := by
    rw [best_of_notSpace hhead hc]
    simp only [best, htop, tag_length hname hsp hv, body_length_none (k := .initial) (by decide)]
  have hnul : (0 : UInt8) ∉ name ++ chr ':' :: sp := by
    simp only [List.mem_append, List.mem_cons, not_or]
    exact ⟨hname.notMem (by decide), by decide, fun h => absurd (hsp 0 h) (by decide)⟩
  have hcolon : chr ':' ∉ sp := fun h => absurd (hsp _ h) (by decide)
  refine ⟨(name ++ chr ':' :: sp).getLast? = some rfcScanner.newline, ?_⟩
  rw [rfcScanner.tokensFrom_rule hbest]
  simp only [tag, cstr_of_noNul hnul, substrBeforeLast_append hcolon]
  rfl

/-- The value of a field. -/
theorem tokensFrom_body {c : UInt8} {s : Bytes} (hc : isspace c = false) (hl : Clean (c :: s)) :
    rfcScanner.tokensFrom .bodyReady bol (c :: s ++ crlf ++ t) =
      ⟨.body, c :: s⟩ :: rfcScanner.tokensFrom .initial true t := by
  have hbest : best rfcScanner.rules .bodyReady bol (c :: s ++ crlf ++ t) =
      some (body, (c :: s ++ crlf).length) := by
    rw [best_of_notSpace rfl hc]
    simp only [best, body_length (List.cons_ne_nil c s) hl.1, Rule.length_of_inactive (r := topline)
      (k := .bodyReady) rfl, Rule.length_of_inactive (r := tag) (k := .bodyReady) rfl]
  have hnul : (0 : UInt8) ∉ c :: s ++ crlf := by
    simp only [List.mem_append, not_or]
    exact ⟨hl.2, by decide⟩
  rw [rfcScanner.tokensFrom_rule hbest, getLast?_eq_lf_crlf]
  simp only [body, cstr_of_noNul hnul, getLast?_eq_lf_crlf]
  simp
  rfl

/-- A line that starts with white space, or an empty line that does not end the message. -/
theorem tokensFrom_continuation (hhead : (l ++ [cr]).head?.any isspace = true)
    (htop : isTopline l = false) (htag : splitTag l = none) (hl : Clean l)
    (hend : ∀ t', l ++ cr :: lf :: t ≠ crlf ++ dotLine ++ crlf ++ t') :
    rfcScanner.tokensFrom .initial true (l ++ cr :: lf :: t) =
      ⟨.body, blanks (l ++ [cr])⟩ :: rfcScanner.tokensFrom .initial true t := by
  have hcr := lf_notMem_append_cr hl.1
  have htext : l ++ cr :: lf :: t = (l ++ [cr]) ++ lf :: t := by simp
  have hbest : best rfcScanner.rules .initial true ((l ++ [cr]) ++ lf :: t) =
      some (continuation, (l ++ [cr]).length) := by
    have h₁ : topline.length .initial true (l ++ cr :: lf :: t) = none := topline_length_none htop
    have h₂ : tag.length .initial true (l ++ cr :: lf :: t) = none := tag_length_none htag
    have h₃ : headerEnd.length .initial true (l ++ cr :: lf :: t) = none :=
      headerEnd_length_none hend
    rw [htext] at h₁ h₂ h₃
    have h₄ := continuation_length (t := t) hhead hcr
    obtain ⟨c, m, hcm⟩ : ∃ c m, l ++ [cr] = c :: m :=
      List.exists_cons_of_ne_nil (List.append_ne_nil_of_right_ne_nil _ (by simp))
    rw [hcm] at h₁ h₂ h₃ h₄ hcr ⊢
    have h₅ : newline.length .initial true (c :: m ++ lf :: t) = none := by
      have hc : c ≠ lf := fun h => hcr (h ▸ List.mem_cons_self ..)
      rw [List.cons_append, newline_length, if_neg hc]
    have h₆ : blank.length .initial true (c :: m ++ lf :: t) =
      if c = chr ' ' ∨ c = 9 then some 1 else none := blank_length
    simp only [rfcScanner, best, h₁, h₂, body_length_none (k := .initial) (by decide), h₃, h₄, h₅,
      h₆]
    split_ifs <;> simp
  have hnul : (0 : UInt8) ∉ l ++ [cr] := by
    simpa [hl.2] using (by decide : ¬ (0 : UInt8) = cr)
  have hlast : decide ((l ++ [cr]).getLast? = some rfcScanner.newline) = false := by
    rw [List.getLast?_concat]; rfl
  rw [htext, rfcScanner.tokensFrom_rule hbest, hlast]
  simp only [continuation, cstr_of_noNul hnul,
    tokensFrom_newline (by decide : StartCondition.tagReady ≠ .bodyReady)]
  rfl

/-- A character that starts nothing is skipped, by the rule for blanks or the default rule. -/
theorem tokensFrom_skip {c : UInt8} {s : Bytes} (hc : c ≠ lf)
    (hend : ∀ t, c :: s ≠ crlf ++ dotLine ++ crlf ++ t)
    (hbol : bol = true → isspace c = false ∧ topline.length .initial true (c :: s) = none ∧
      tag.length .initial true (c :: s) = none) :
    rfcScanner.tokensFrom .initial bol (c :: s) = rfcScanner.tokensFrom .initial false s := by
  have hstart : topline.length .initial bol (c :: s) = none ∧
      tag.length .initial bol (c :: s) = none ∧
        continuation.length .initial bol (c :: s) = none := by
    cases bol with
    | false =>
      exact ⟨Rule.length_of_anchored rfl, Rule.length_of_anchored rfl, Rule.length_of_anchored rfl⟩
    | true =>
      obtain ⟨h, htop, htag⟩ := hbol rfl
      exact ⟨htop, htag, continuation_length_none h⟩
  have hrules : best rfcScanner.rules .initial bol (c :: s) =
      if c = chr ' ' ∨ c = 9 then some (blank, 1) else none := by
    simp only [rfcScanner, best, hstart, body_length_none (k := .initial) (by decide),
      headerEnd_length_none hend, newline_length, if_neg hc, blank_length]
    split_ifs <;> rfl
  split_ifs at hrules with hblank
  · have hbest : best rfcScanner.rules .initial bol ([c] ++ s) = some (blank, [c].length) := hrules
    rw [← List.singleton_append, rfcScanner.tokensFrom_rule hbest]
    have hlast : decide ([c].getLast? = some rfcScanner.newline) = false := by
      simpa [rfcScanner] using hc
    rw [hlast]
    rfl
  · have hlast : decide (c = rfcScanner.newline) = false := decide_eq_false hc
    rw [rfcScanner.tokensFrom_default hrules, hlast]

/-- The rest of a line on which nothing starts. -/
theorem tokensFrom_rest (hl : lf ∉ l) :
    rfcScanner.tokensFrom .initial false (l ++ cr :: lf :: t) =
      rfcScanner.tokensFrom .initial false (cr :: lf :: t) := by
  induction l with
  | nil => rfl
  | cons c l ih =>
    have hc : c ≠ lf := fun h => hl (h ▸ List.mem_cons_self ..)
    have hl' : lf ∉ l := fun h => hl (List.mem_cons_of_mem _ h)
    rw [List.cons_append, tokensFrom_skip hc (fun t' ht => ?_) (fun h => Bool.noConfusion h), ih hl']
    -- a CRLF within the line
    have htail := (List.cons.inj ht).2
    cases l with
    | nil => exact absurd (List.cons.inj htail).1 (by decide)
    | cons d l => exact hl' ((List.cons.inj htail).1 ▸ List.mem_cons_self ..)

/-- A line end that does not belong to the end of the message. -/
theorem tokensFrom_lineEnd (hend : ∀ t', t ≠ dotLine ++ crlf ++ t') :
    rfcScanner.tokensFrom .initial false (cr :: lf :: t) = rfcScanner.tokensFrom .initial true t := by
  rw [tokensFrom_skip (by decide) (fun t' ht => hend t' (List.cons.inj (List.cons.inj ht).2).2)
    (fun h => Bool.noConfusion h), tokensFrom_newline (by decide)]

end Steps

/-! ### The whole text -/

/-- The scanner, at a place between the lines, yields the tokens of `lineTokens`. -/
def Scans (ls : List Bytes) : Place → Prop
  | .start => rfcScanner.tokensFrom .initial true (unlines ls) = lineTokens .start ls
  | .value => ∀ b, rfcScanner.tokensFrom .bodyReady b ((unlines ls).dropWhile isspace) =
      lineTokens .value ls
  | .pending empty => rfcScanner.tokensFrom .initial empty (crlf ++ unlines ls) =
      lineTokens (.pending empty) ls

theorem unlines_eq_dotLine {ls : List Bytes} {t : Bytes} (hls : ∀ l ∈ ls, Clean l)
    (h : unlines ls = dotLine ++ crlf ++ t) : ∃ ls', ls = dotLine :: ls' := by
  cases ls with
  | nil => cases h
  | cons l ls =>
    have hl := (hls l (List.mem_cons_self ..)).1
    rw [unlines_cons] at h
    have hcat : (l ++ [cr]) ++ lf :: unlines ls = (dotLine ++ [cr]) ++ lf :: t := by simpa using h
    have hsplit := append_cons_inj (lf_notMem_append_cr hl) (by decide) hcat
    exact ⟨ls, by rw [List.append_cancel_right hsplit.1]⟩

theorem lineTokens_pending {ls : List Bytes} (e : Bool) (h : ∀ ls', ls ≠ dotLine :: ls') :
    lineTokens (.pending e) ls = flush e ++ lineTokens .start ls := by
  cases ls with
  | nil => simp [lineTokens]
  | cons l ls =>
    have hl : l ≠ dotLine := fun h0 => h ls (by rw [h0])
    simp [lineTokens, lineStep, hl]

theorem isspace_head_dropWhile {s : Bytes} {c : UInt8} (h : (s.dropWhile isspace).head? = some c) :
    isspace c = false := by
  have hnot := List.head?_dropWhile_not isspace s
  rw [h] at hnot
  simpa using hnot

/-- Behind a colon: the value on the same line, or on a later one. -/
theorem tokensFrom_value {l : Bytes} {ls : List Bytes} (hl : Clean l) (hstart : Scans ls .start)
    (hvalue : Scans ls .value) (b : Bool) :
    rfcScanner.tokensFrom .bodyReady b ((l ++ cr :: lf :: unlines ls).dropWhile isspace) =
      match l.dropWhile isspace with
      | [] => lineTokens .value ls
      | c :: s => ⟨.body, c :: s⟩ :: lineTokens .start ls := by
  rw [List.dropWhile_append]
  cases h : l.dropWhile isspace with
  | nil => exact hvalue b
  | cons c s =>
    have hmem : ∀ d ∈ c :: s, d ∈ l := fun d hd => (h ▸ List.dropWhile_suffix isspace).mem hd
    have hc : isspace c = false := isspace_head_dropWhile (by rw [h]; rfl)
    have hclean : Clean (c :: s) := ⟨fun h => hl.1 (hmem _ h), fun h => hl.2 (hmem _ h)⟩
    have hbody : rfcScanner.tokensFrom .bodyReady b (c :: s ++ crlf ++ unlines ls) =
        ⟨.body, c :: s⟩ :: rfcScanner.tokensFrom .initial true (unlines ls) :=
      tokensFrom_body hc hclean
    rw [show c :: s ++ crlf ++ unlines ls = c :: s ++ cr :: lf :: unlines ls by simp] at hbody
    simp only [List.isEmpty_cons, Bool.false_eq_true, if_false]
    rw [hbody, hstart]

theorem scans_value_cons {l : Bytes} {ls : List Bytes} (hl : Clean l) (hstart : Scans ls .start)
    (hvalue : Scans ls .value) : Scans (l :: ls) .value := by
  intro b
  rw [unlines_cons, tokensFrom_value hl hstart hvalue]
  simp only [lineTokens, lineStep]
  cases l.dropWhile isspace <;> rfl

theorem scans_start_cons {l : Bytes} {ls : List Bytes} (hl : Clean l) (hstart : Scans ls .start)
    (hvalue : Scans ls .value) (hpending : ∀ e, Scans ls (.pending e)) :
    Scans (l :: ls) .start := by
  unfold Scans
  simp only [unlines_cons, lineTokens, lineStep, startStep]
  cases htag : splitTag l with
  | some p =>
    obtain ⟨name, value⟩ := p
    have htop : topline.length .initial true (l ++ cr :: lf :: unlines ls) = none :=
      topline_length_none (isTopline_of_splitTag htag)
    obtain ⟨hname, rfl⟩ := splitTag_eq_some htag
    have hvalue' : Clean value := by
      simp only [Clean, List.mem_append, List.mem_cons, not_or] at hl
      exact ⟨hl.1.2.2, hl.2.2.2⟩
    have htext : name ++ chr ':' :: value ++ cr :: lf :: unlines ls =
        name ++ chr ':' :: (value ++ cr :: lf :: unlines ls).takeWhile isspace ++
          (value ++ cr :: lf :: unlines ls).dropWhile isspace := by
      rw [List.append_assoc, List.append_assoc, List.cons_append, List.cons_append,
        List.takeWhile_append_dropWhile]
    rw [htext] at htop ⊢
    obtain ⟨b, hb⟩ := tokensFrom_tag hname (fun c hc => List.mem_takeWhile_imp hc)
      (fun c hc => isspace_head_dropWhile hc) htop
    rw [hb, tokensFrom_value hvalue' hstart hvalue]
    simp only
    cases value.dropWhile isspace <;> rfl
  | none =>
    simp only
    split_ifs with htop hspace
    · have := tokensFrom_topline (t := unlines ls) htop htag hl
      rw [show l ++ crlf ++ unlines ls = l ++ cr :: lf :: unlines ls by simp] at this
      rw [this, hstart]; rfl
    · -- a line that starts with white space
      have hne : l ≠ [] := by rintro rfl; cases hspace
      obtain ⟨c, l, rfl⟩ := List.exists_cons_of_ne_nil hne
      refine (tokensFrom_continuation (by simpa using hspace) (Bool.eq_false_iff.2 htop) htag hl
        fun t' ht => ?_).trans (by rw [hstart]; rfl)
      have htail := (List.cons.inj ht).2
      cases l with
      | nil => exact absurd (List.cons.inj htail).1 (by decide)
      | cons d l => exact hl.1 ((List.cons.inj htail).1 ▸ by simp)
    · cases l with
      | nil => exact hpending true
      | cons c l =>
        have hc : isspace c = false := by simpa using hspace
        have hlf : lf ∉ l := fun h => hl.1 (List.mem_cons_of_mem _ h)
        have htop' : topline.length .initial true ((c :: l) ++ cr :: lf :: unlines ls) = none :=
          topline_length_none (Bool.eq_false_iff.2 htop)
        have htag' : tag.length .initial true ((c :: l) ++ cr :: lf :: unlines ls) = none :=
          tag_length_none htag
        rw [List.cons_append] at htop' htag' ⊢
        have hend : ∀ t', c :: (l ++ cr :: lf :: unlines ls) ≠ crlf ++ dotLine ++ crlf ++ t' :=
          fun t' ht => absurd ((List.cons.inj ht).1 ▸ hc) (by decide)
        rw [tokensFrom_skip (fun h => hl.1 (h ▸ List.mem_cons_self ..)) hend
          fun _ => ⟨hc, htop', htag'⟩, tokensFrom_rest hlf]
        exact hpending false

/-- At a line end that may begin the end of the message. -/
theorem scans_pending {ls : List Bytes} (hls : ∀ l ∈ ls, Clean l) (hstart : Scans ls .start)
    (htail : ∀ ls', ls = dotLine :: ls' → Scans ls' .start) (e : Bool) :
    Scans ls (.pending e) := by
  show rfcScanner.tokensFrom .initial e (crlf ++ unlines ls) = lineTokens (.pending e) ls
  by_cases hdot : ∃ ls', ls = dotLine :: ls'
  · obtain ⟨ls', rfl⟩ := hdot
    have h : rfcScanner.tokensFrom .initial e (crlf ++ dotLine ++ crlf ++ unlines ls') =
        ⟨.headerEnd, crlf ++ dotLine ++ crlf⟩ :: rfcScanner.tokensFrom .initial true (unlines ls') :=
      tokensFrom_headerEnd
    rw [htail ls' rfl] at h
    rw [unlines_cons]
    simpa [lineTokens, lineStep] using h
  · have hne : ∀ t, unlines ls ≠ dotLine ++ crlf ++ t :=
      fun t ht => hdot (unlines_eq_dotLine hls ht)
    rw [lineTokens_pending e fun ls' h => hdot ⟨ls', h⟩, ← hstart]
    cases e with
    | false => exact tokensFrom_lineEnd hne
    | true =>
      exact tokensFrom_continuation (l := []) rfl rfl rfl ⟨by simp, by simp⟩
        fun t ht => hne t (List.cons.inj (List.cons.inj ht).2).2

theorem scans {ls : List Bytes} (hls : ∀ l ∈ ls, Clean l) (p : Place) : Scans ls p := by
  induction ls generalizing p with
  | nil =>
    have hstart : Scans [] .start := rfl
    cases p with
    | start => exact hstart
    | value => exact fun b => rfl
    | pending e => exact scans_pending hls hstart (fun _ h => nomatch h) e
  | cons l ls ih =>
    have hl := hls l (List.mem_cons_self ..)
    have ih := ih fun l hl => hls l (List.mem_cons_of_mem _ hl)
    have hstart := scans_start_cons hl (ih .start) (ih .value) fun e => ih (.pending e)
    cases p with
    | start => exact hstart
    | value => exact scans_value_cons hl (ih .start) (ih .value)
    | pending e =>
      refine scans_pending hls hstart (fun ls' h => ?_) e
      obtain ⟨-, rfl⟩ := List.cons.inj h
      exact ih .start

/-- **The scanner works line by line.** -/
theorem rfclex_unlines {ls : List Bytes} (hls : ∀ l ∈ ls, Clean l) :
    rfclex (unlines ls) = lineTokens .start ls :=
  scans hls .start

end Mailfilter.Rfc822
