import Mailfilter.Rfc822.RoundTrip

/-!
# Folded fields

What the scanner and the parser make of fields that go on over several lines.

* `Field`, a field with its continuation lines, the first line of whose body may be blank;
* `originLines` and `originTokens`: the lines of a header and the tokens that the scanner makes of
  them, each with the field and the line that it comes from;
* `originTokens_field`: a field without a recognised name is skipped, but not its continuation lines,
  and a field whose lines are all blank takes the next line for its body;
* `Traced`, an entry with the origins of its pieces, `Parses`, what the parser reads from a text
  whatever the preferences are, and `parse_glue`: it does not see where one body ends and the next
  one begins;
* `folds_attributed_iff`: continuation lines stay with their field just when every folded field has
  a name that the scanner recognises and no blank field in front of it;
* `Gap`, the white space between two words of a body, and `unfolded_iff`: the body of a field is the
  same as on one line just when the field is not folded.
-/

namespace Mailfilter.Rfc822

/-! ### Fields -/

/-- The line starts with a blank or a tab. -/
def IsFold (l : Bytes) : Prop := l.head? = some (chr ' ') ∨ l.head? = some 9

instance (l : Bytes) : Decidable (IsFold l) := inferInstanceAs (Decidable (_ ∨ _))

/-- A field: a name of printable characters other than the colon, the rest of its line, which is not
empty but may be blank, and its continuation lines. -/
structure Field where
  name : Bytes
  first : Bytes
  folds : List Bytes
  name_ne_nil : name ≠ []
  printable : ∀ c ∈ name, 32 < c ∧ c < 127 ∧ c ≠ chr ':'
  first_ne_nil : first ≠ []
  first_clean : Clean first
  folds_isFold : ∀ l ∈ folds, IsFold l
  folds_clean : ∀ l ∈ folds, Clean l

/-- The line is white space only. -/
def IsBlank (l : Bytes) : Prop := ∀ c ∈ l, isspace c = true

instance (l : Bytes) : Decidable (IsBlank l) := inferInstanceAs (Decidable (∀ c ∈ l, _))

namespace Field

/-- The first line. -/
def line (f : Field) : Bytes := f.name ++ chr ':' :: f.first

def lines (f : Field) : List Bytes := f.line :: f.folds

/-- The scanner takes the name for the name of a field. -/
def recognised (f : Field) : Bool := (splitTag f.line).isSome

/-- Behind the colon there is white space only, on all lines. -/
def Blank (f : Field) : Prop := ∀ l ∈ f.first :: f.folds, IsBlank l

instance (f : Field) : Decidable f.Blank := inferInstanceAs (Decidable (∀ l ∈ _, _))

end Field

/-- The body that the scanner makes of a continuation line: the line feed stays behind, the carriage
return does not. -/
def continued (l : Bytes) : Bytes := blanks (l ++ [cr])

/-- The text of a header as the server sends it. -/
def headerText (fields : List Field) : Bytes := messageText (fields.flatMap Field.lines)

namespace Field

variable (f : Field)

theorem colon_notMem : chr ':' ∉ f.name := fun h => (f.printable _ h).2.2 rfl

theorem notMem_name {c : UInt8} (hc : c ≤ 32) : c ∉ f.name :=
  fun h => absurd (f.printable c h).1 (UInt8.not_lt.2 hc)

theorem clean_line : Clean f.line := by
  have hlf := f.notMem_name (c := lf) (by decide)
  have h0 := f.notMem_name (c := 0) (by decide)
  have hcolon : lf ≠ chr ':' ∧ (0 : UInt8) ≠ chr ':' := by decide
  simp only [Clean, line, List.mem_append, List.mem_cons, not_or]
  exact ⟨⟨hlf, hcolon.1, f.first_clean.1⟩, ⟨h0, hcolon.2, f.first_clean.2⟩⟩

theorem clean_lines : ∀ l ∈ f.lines, Clean l := by
  intro l hl
  rcases List.mem_cons.1 hl with rfl | hl
  · exact f.clean_line
  · exact f.folds_clean l hl

theorem recognised_iff : f.recognised = true ↔ IsName f.name := by
  constructor
  · intro h
    obtain ⟨⟨name, value⟩, hsplit⟩ := Option.isSome_iff_exists.1 h
    obtain ⟨hname, hline⟩ := splitTag_eq_some hsplit
    rw [(append_cons_inj f.colon_notMem (hname.notMem isNameChar_colon) hline).1]
    exact hname
  · intro h
    rw [recognised, line, splitTag_append h]
    rfl

theorem not_isspace_head {c : UInt8} (hc : c ∈ f.line.head?) : isspace c = false := by
  obtain ⟨d, s, hname⟩ := List.exists_cons_of_ne_nil f.name_ne_nil
  obtain rfl : d = c := by simpa [line, hname] using hc
  have hprint := (f.printable d (by simp [hname])).1
  rw [← Bool.not_eq_true]
  intro hspace
  unfold isspace at hspace
  grind

/-- A field name has no white space, so that no field starts like an mbox line. -/
theorem not_isTopline : isTopline f.line = false := by
  rw [← Bool.not_eq_true, isTopline_iff]
  rintro ⟨u, s, m, hu, hs, hline⟩
  obtain ⟨n, hn, hrest⟩ :=
    prefix_of_notMem (notMem_of_from hu (c := chr ':') (by decide)) hline.symm
  cases n with
  | nil =>
    obtain rfl : s = chr ':' := by simpa using congrArg List.head? hrest
    exact absurd hs (by decide)
  | cons d n =>
    obtain rfl : s = d := by simpa using congrArg List.head? hrest
    have hprint := (f.printable s (by simp [hn])).1
    unfold isspace at hs
    grind

/-- Behind the name and the colon the scanner goes on as behind a colon of which it has only seen
white space since. -/
theorem startStep_line : startStep f.line =
    if f.recognised then
      (⟨.tag, f.name⟩ :: (lineStep .value f.first).1, (lineStep .value f.first).2)
    else ([], .pending false) := by
  split_ifs with hrec
  · have hname := f.recognised_iff.1 hrec
    simp only [startStep, line, splitTag_append hname, lineStep]
    cases f.first.dropWhile isspace <;> rfl
  · have hsplit : splitTag f.line = none := by
      simpa [recognised] using hrec
    have hhead : f.line.head?.any isspace = false := by
      rw [← Bool.not_eq_true, Option.any_eq_true]
      rintro ⟨c, hc, hspace⟩
      exact Bool.false_ne_true ((f.not_isspace_head hc).symm.trans hspace)
    have hne : f.line ≠ [] := by simp [line]
    simp [startStep, hsplit, f.not_isTopline, hhead, hne]

/-- A line that is awaited as a body is taken as it stands. -/
theorem valueStep_line : lineStep .value f.line = ([⟨.body, f.line⟩], .start) := by
  obtain ⟨c, s, hline⟩ := List.exists_cons_of_ne_nil (l := f.line) (by simp [line])
  have hc : isspace c = false := f.not_isspace_head (by rw [hline]; rfl)
  have hdrop : (c :: s).dropWhile isspace = c :: s :=
    List.dropWhile_cons_of_neg (by rw [hc]; decide)
  simp only [lineStep, hline, hdrop]

theorem line_ne_dotLine : f.line ≠ dotLine := by
  intro h
  have hcolon : chr ':' ∈ f.line := by simp [line]
  exact absurd (h ▸ hcolon) (by decide)

end Field

theorem IsFold.startStep {l : Bytes} (h : IsFold l) :
    startStep l = ([⟨.body, continued l⟩], .start) := by
  obtain ⟨c, s, rfl, hc⟩ : ∃ c s, l = c :: s ∧ (c = chr ' ' ∨ c = 9) := by
    cases l with
    | nil => rcases h with h | h <;> cases h
    | cons c s => exact ⟨c, s, rfl, h.imp Option.some.inj Option.some.inj⟩
  have hspace : isspace c = true := by rcases hc with rfl | rfl <;> rfl
  have hsplit : splitTag (c :: s) = none := by
    simp [splitTag, isalpha_of_isspace hspace]
  have htop : isTopline (c :: s) = false := by
    rw [← Bool.not_eq_true, isTopline_iff]
    rintro ⟨u, d, m, hu, -, heq⟩
    obtain ⟨e, u, rfl⟩ : ∃ e u', u = e :: u' := by
      cases u with
      | nil => cases hu
      | cons e u => exact ⟨e, u, rfl⟩
    obtain rfl : c = e := (List.cons.inj heq).1
    have hF : toupper c = chr 'F' := (List.cons.inj hu).1
    rw [toupper_of_isspace hspace] at hF
    rcases hc with rfl | rfl <;> cases hF
  simp [Rfc822.startStep, hsplit, htop, hspace, continued]

theorem IsFold.ne_dotLine {l : Bytes} (h : IsFold l) : l ≠ dotLine := by
  rintro rfl
  exact absurd h (by decide)

/-! ### The tokens of a header -/

/-- Where a line comes from: the number of its field and its own number in the field.  The two lines
that close the header count as the first line of one more field. -/
abbrev Origin := ℕ × ℕ

/-- The continuation lines of field number `k`. -/
def Field.originFolds (f : Field) (k : ℕ) : List (Origin × Bytes) :=
  (f.folds.zipIdx 1).map fun p => ((k, p.2), p.1)

/-- The lines of a header; the fields are counted from `k`. -/
def originLines : ℕ → List Field → List (Origin × Bytes)
  | k, [] => [((k, 0), []), ((k, 0), dotLine)]
  | k, f :: fields => ((k, 0), f.line) :: f.originFolds k ++ originLines (k + 1) fields

/-- The tokens of the lines, each with the origin of the line that the scanner makes it of. -/
def originTokens : Place → List (Origin × Bytes) → List (Origin × Token)
  | _, [] => []
  | p, (o, l) :: ls => (lineStep p l).1.map (o, ·) ++ originTokens (lineStep p l).2 ls

/-- The tokens of a header. -/
def headerTokens (fields : List Field) : List (Origin × Token) :=
  originTokens .start (originLines 0 fields)

/-- Behind the line with the dot the scanner keeps nothing back, so that no token is left out. -/
theorem map_originTokens (p : Place) (ls : List (Origin × Bytes)) (o : Origin) :
    (originTokens p (ls ++ [(o, dotLine)])).map Prod.snd =
      lineTokens p (ls.map Prod.snd ++ [dotLine]) := by
  induction ls generalizing p with
  | nil =>
    cases p with
    | start => rfl
    | value => rfl
    | pending empty => cases empty <;> rfl
  | cons q ls ih =>
    simp only [List.cons_append, List.map_cons, originTokens, lineTokens, List.map_append,
      List.map_map, ih]
    congr 1
    exact List.map_id _

theorem map_originFolds (f : Field) (k : ℕ) : (f.originFolds k).map Prod.snd = f.folds := by
  simp [Field.originFolds, Function.comp_def]

theorem originLines_eq (k : ℕ) (fields : List Field) : ∃ ls o,
    originLines k fields = ls ++ [(o, dotLine)] ∧
      ls.map Prod.snd = fields.flatMap Field.lines ++ [[]] := by
  induction fields generalizing k with
  | nil => exact ⟨[((k, 0), [])], (k, 0), rfl, rfl⟩
  | cons f fields ih =>
    obtain ⟨ls, o, hls, hmap⟩ := ih (k + 1)
    refine ⟨((k, 0), f.line) :: f.originFolds k ++ ls, o, by simp [originLines, hls], ?_⟩
    simp [map_originFolds, hmap, Field.lines]

/-- **The scanner's tokens** are those that have an origin here. -/
theorem rfclex_headerText (fields : List Field) :
    rfclex (headerText fields) = (headerTokens fields).map Prod.snd := by
  have hclean : ∀ l ∈ fields.flatMap Field.lines, Clean l := by
    intro l hl
    obtain ⟨f, -, hl⟩ := List.mem_flatMap.1 hl
    exact f.clean_lines l hl
  obtain ⟨ls, o, hls, hmap⟩ := originLines_eq 0 fields
  rw [headerText, rfclex_messageText hclean, headerTokens, hls, map_originTokens, hmap,
    List.append_assoc]
  rfl

/-- The tokens of the pieces of a body. -/
def bodyTokens (pieces : List (Origin × Bytes)) : List (Origin × Token) :=
  pieces.map fun p => (p.1, ⟨.body, p.2⟩)

/-- The pieces that continuation lines yield. -/
def foldPieces (ls : List (Origin × Bytes)) : List (Origin × Bytes) :=
  ls.map fun p => (p.1, continued p.2)

/-- The pieces that the lines of a body yield from its colon on: blank lines at its beginning yield
nothing, because the white space behind a colon goes on to the next line. -/
def bodyPieces : List (Origin × Bytes) → List (Origin × Bytes)
  | [] => []
  | (o, l) :: ls =>
    match l.dropWhile isspace with
    | [] => bodyPieces ls
    | c :: s => (o, c :: s) :: foldPieces ls

/-- Where the scanner stands behind a field: it may still be waiting for a body. -/
def placeOf (waiting : Bool) : Place := if waiting then .value else .start

/-- The lines of the body. -/
def Field.originBody (f : Field) (k : ℕ) : List (Origin × Bytes) :=
  ((k, 0), f.first) :: f.originFolds k

/-- The tokens of field number `k`: if the field before it waits for a body, its line is taken for
that, and if it has no recognised name, it is skipped, but not its continuation lines. -/
def Field.tokens (f : Field) (waiting : Bool) (k : ℕ) : List (Origin × Token) :=
  if waiting then bodyTokens (((k, 0), f.line) :: foldPieces (f.originFolds k))
  else if f.recognised then ((k, 0), ⟨.tag, f.name⟩) :: bodyTokens (bodyPieces (f.originBody k))
  else bodyTokens (foldPieces (f.originFolds k))

/-- Does the field wait for a body behind its last line? -/
def Field.waits (f : Field) (waiting : Bool) : Bool := !waiting && f.recognised && f.Blank

theorem mem_originFolds {f : Field} {k : ℕ} {p : Origin × Bytes} (hp : p ∈ f.originFolds k) :
    p.1.1 = k ∧ p.1.2 ≠ 0 ∧ p.2 ∈ f.folds := by
  obtain ⟨⟨l, i⟩, hi, rfl⟩ := List.mem_map.1 hp
  have hle : 1 ≤ i := (List.mk_mem_zipIdx_iff_le_and_getElem?_sub.1 hi).1
  exact ⟨rfl, Nat.one_le_iff_ne_zero.1 hle, List.fst_mem_of_mem_zipIdx hi⟩

section Tokens

variable {ls rest : List (Origin × Bytes)}

theorem originTokens_folds (hls : ∀ p ∈ ls, IsFold p.2) :
    originTokens .start (ls ++ rest) = bodyTokens (foldPieces ls) ++ originTokens .start rest := by
  induction ls with
  | nil => rfl
  | cons p ls ih =>
    rw [List.forall_mem_cons] at hls
    have hstep : lineStep .start p.2 = ([⟨.body, continued p.2⟩], .start) := hls.1.startStep
    rw [List.cons_append, originTokens, hstep, ih hls.2]
    rfl

theorem dropWhile_isspace {l : Bytes} : l.dropWhile isspace = [] ↔ IsBlank l :=
  List.dropWhile_eq_nil_iff

theorem bodyPieces_eq_nil : bodyPieces ls = [] ↔ ∀ p ∈ ls, IsBlank p.2 := by
  induction ls with
  | nil => simp [bodyPieces]
  | cons p ls ih =>
    rw [List.forall_mem_cons, ← ih, ← dropWhile_isspace, bodyPieces]
    cases p.2.dropWhile isspace <;> simp

/-- The lines of a body, from its colon on. -/
theorem originTokens_body (hls : ∀ p ∈ ls.tail, IsFold p.2) :
    originTokens .value (ls ++ rest) = bodyTokens (bodyPieces ls) ++
      originTokens (placeOf (bodyPieces ls = [])) rest := by
  induction ls with
  | nil => rfl
  | cons p ls ih =>
    have hrest : ∀ q ∈ ls.tail, IsFold q.2 := fun q hq => hls q (List.mem_of_mem_tail hq)
    rw [List.cons_append, originTokens, bodyPieces]
    simp only [lineStep]
    cases p.2.dropWhile isspace with
    | nil => exact ih hrest
    | cons c s =>
      have hfolds := @originTokens_folds ls rest hls
      simp only [hfolds]
      rfl

/-- A line end in front of a line other than the dot is the end of a line. -/
theorem originTokens_pending (hls : ∀ p ∈ ls.head?, p.2 ≠ dotLine) :
    originTokens (.pending false) ls = originTokens .start ls := by
  cases ls with
  | nil => rfl
  | cons p ls =>
    have hne : p.2 ≠ dotLine := hls p rfl
    simp only [originTokens, lineStep, if_neg hne, flush, List.nil_append]

end Tokens

theorem originLines_head (k : ℕ) (fields : List Field) :
    ∀ p ∈ (originLines k fields).head?, p.2 ≠ dotLine := by
  cases fields with
  | nil =>
    rintro p ⟨⟩
    exact (by decide : ([] : Bytes) ≠ dotLine)
  | cons f fields =>
    rintro p ⟨⟩
    exact f.line_ne_dotLine

theorem blank_iff {f : Field} {k : ℕ} : bodyPieces (f.originBody k) = [] ↔ f.Blank := by
  rw [bodyPieces_eq_nil, Field.Blank, ← map_originFolds f k, Field.originBody,
    List.forall_mem_cons, List.forall_mem_cons, List.forall_mem_map]

/-- **One field.** -/
theorem originTokens_field (f : Field) (waiting : Bool) (k : ℕ) (fields : List Field) :
    originTokens (placeOf waiting) (originLines k (f :: fields)) =
      f.tokens waiting k ++ originTokens (placeOf (f.waits waiting)) (originLines (k + 1) fields) := by
  have hfold : ∀ p ∈ f.originFolds k, IsFold p.2 :=
    fun p hp => f.folds_isFold p.2 (mem_originFolds hp).2.2
  have hrest := @originTokens_folds (f.originFolds k) (originLines (k + 1) fields) hfold
  rw [originLines, List.cons_append, originTokens]
  cases waiting with
  | true =>
    simp only [placeOf, if_true, f.valueStep_line, hrest]
    rfl
  | false =>
    have hstep : lineStep (placeOf false) f.line = _ := f.startStep_line
    rw [hstep, Field.tokens, Field.waits, if_neg Bool.false_ne_true]
    by_cases hrec : f.recognised = true
    · have hbody := @originTokens_body (f.originBody k) (originLines (k + 1) fields) hfold
      have hwaits : decide (bodyPieces (f.originBody k) = []) = decide f.Blank :=
        decide_eq_decide.2 blank_iff
      rw [hwaits, Field.originBody, List.cons_append, originTokens] at hbody
      rw [if_pos hrec, if_pos hrec, List.map_cons, List.cons_append, hbody, hrec]
      rfl
    · have hhead : ∀ p ∈ (f.originFolds k ++ originLines (k + 1) fields).head?,
          p.2 ≠ dotLine := by
        intro p hp
        cases hfolds : f.originFolds k with
        | nil => exact originLines_head (k + 1) fields p (by simpa [hfolds] using hp)
        | cons q qs =>
          obtain rfl : q = p := by simpa [hfolds] using hp
          exact (hfold q (by simp [hfolds])).ne_dotLine
      rw [if_neg hrec, if_neg hrec, originTokens_pending hhead, hrest, Bool.eq_false_iff.2 hrec]
      rfl

/-! ### What the parser makes of them -/

/-- An entry, with the field that its tag comes from and the origins of the pieces of its body. -/
structure Traced where
  field : ℕ
  tag : Bytes
  pieces : List (Origin × Bytes)
  pieces_ne_nil : pieces ≠ []

namespace Traced

def entry (e : Traced) : Entry := ⟨e.tag, (e.pieces.map Prod.snd).flatten⟩

def tokens (e : Traced) : List (Origin × Token) :=
  ((e.field, 0), ⟨.tag, e.tag⟩) :: bodyTokens e.pieces

end Traced

section Parser

variable {prefs : Preferences} {st : ParserState} {h : Header} {toks toks' : List Token}

theorem parse_cons_congr (heq : ∀ st h, parse prefs st h toks = parse prefs st h toks')
    (tok : Token) : parse prefs st h (tok :: toks) = parse prefs st h (tok :: toks') := by
  cases st <;> simp only [parse, heq]

theorem parse_append_congr (heq : ∀ st h, parse prefs st h toks = parse prefs st h toks')
    (pre : List Token) : parse prefs st h (pre ++ toks) = parse prefs st h (pre ++ toks') := by
  induction pre generalizing st h with
  | nil => exact heq st h
  | cons tok pre ih => exact parse_cons_congr (fun _ _ => ih) tok

/-- **The parser joins bodies**: two bodies in a row are read like one. -/
theorem parse_glue (b b' : Bytes) : parse prefs st h (⟨.body, b⟩ :: ⟨.body, b'⟩ :: toks) =
    parse prefs st h (⟨.body, b ++ b'⟩ :: toks) := by
  cases st with
  | header => rfl
  | tag t => simp [parse]
  | bodies t b₀ => simp [parse]

theorem parse_bodyTokens (pieces : List (Origin × Bytes)) (b : Bytes) :
    parse prefs st h (⟨.body, b⟩ :: (bodyTokens pieces).map Prod.snd ++ toks) =
      parse prefs st h (⟨.body, b ++ (pieces.map Prod.snd).flatten⟩ :: toks) := by
  induction pieces generalizing b with
  | nil => simp [bodyTokens]
  | cons p pieces ih =>
    have hcons : (bodyTokens (p :: pieces)).map Prod.snd =
        ⟨.body, p.2⟩ :: (bodyTokens pieces).map Prod.snd := rfl
    rw [hcons, List.cons_append, List.cons_append, parse_glue, ← List.cons_append, ih]
    simp

/-- The tokens of the pieces are read like those of the entries. -/
theorem parse_traced (es : List Traced) :
    parse prefs st h ((es.flatMap Traced.tokens).map Prod.snd ++ toks) =
      parse prefs st h ((es.map Traced.entry).flatMap fieldTokens ++ toks) := by
  induction es generalizing st h with
  | nil => rfl
  | cons e es ih =>
    obtain ⟨p, pieces, hpieces⟩ := List.exists_cons_of_ne_nil e.pieces_ne_nil
    have htokens : e.tokens.map Prod.snd =
        ⟨.tag, e.tag⟩ :: ⟨.body, p.2⟩ :: (bodyTokens pieces).map Prod.snd := by
      rw [Traced.tokens, hpieces]
      rfl
    have hentry : fieldTokens e.entry =
        [⟨.tag, e.tag⟩, ⟨.body, p.2 ++ (pieces.map Prod.snd).flatten⟩] := by
      simp only [fieldTokens, Traced.entry, hpieces, List.map_cons, List.flatten_cons]
    simp only [List.flatMap_cons, List.map_append, List.map_cons, List.append_assoc]
    rw [parse_append_congr fun _ _ => ih, htokens, hentry]
    exact parse_cons_congr (fun _ _ => parse_bodyTokens pieces p.2) ⟨.tag, e.tag⟩

end Parser

/-- The parser reads the entries from the text, whatever the preferences and the size are. -/
def Parses (text : Bytes) (es : List Entry) : Prop :=
  ∀ prefs size, Gives prefs es (rfcparse prefs (Header.new size) (rfclex text))

theorem Parses.inj {text : Bytes} {es es' : List Entry} (h : Parses text es)
    (h' : Parses text es') : es = es' := by
  obtain ⟨h₁, hok, rfl⟩ := (h noTimeStamp 0).ok rfl
  obtain ⟨h₂, hok', rfl⟩ := (h' noTimeStamp 0).ok rfl
  cases hok.symm.trans hok'
  rfl

/-- The entries of a header with all their origins: their tokens are those of the header, up to the
end of the message, and they are what the parser reads. -/
structure Traces (fields : List Field) (es : List Traced) : Prop where
  tokens : ∃ ends, headerTokens fields = es.flatMap Traced.tokens ++ ends ∧
    ∀ tok ∈ ends, tok.2.kind = .headerEnd
  parses : Parses (headerText fields) (es.map Traced.entry)

theorem traces_of_tokens {fields : List Field} {es : List Traced} {ends : List (Origin × Token)}
    (htokens : headerTokens fields = es.flatMap Traced.tokens ++ ends)
    (hends : ∀ tok ∈ ends, tok.2.kind = .headerEnd) : Traces fields es := by
  refine ⟨⟨ends, htokens, hends⟩, fun prefs size => ?_⟩
  have hkinds : ∀ tok ∈ ends.map Prod.snd, tok.kind = .headerEnd := by
    rwa [List.forall_mem_map]
  rw [rfclex_headerText, htokens, List.map_append, rfcparse, parse_traced]
  exact parse_fields (es.map Traced.entry) hkinds (Header.new size)

/-! ### Continuation lines -/

/-- The text of every continuation line is in the body of the entry of its own field and in no other.
A line of white space has no text that could be missing. -/
structure Attributed (ls : List (Origin × Bytes)) (es : List Traced) : Prop where
  own : ∀ e ∈ es, ∀ p ∈ e.pieces, p.1.2 ≠ 0 → p.1.1 = e.field
  kept : ∀ p ∈ ls, p.1.2 ≠ 0 → ¬ IsBlank p.2 → ∃ e ∈ es, e.field = p.1.1 ∧
    ∃ b, (p.1, b) ∈ e.pieces ∧ (b = continued p.2 ∨ b = p.2.dropWhile isspace)

/-- Every folded field has a name that the scanner recognises, and the field before it does not wait
for a body. -/
def FoldsOk : Bool → List Field → Prop
  | _, [] => True
  | waiting, f :: fields =>
    (f.folds ≠ [] → IsName f.name ∧ waiting = false) ∧ FoldsOk (f.waits waiting) fields

theorem originFolds_eq_nil {f : Field} {k : ℕ} : f.originFolds k = [] ↔ f.folds = [] := by
  simp [Field.originFolds]

/-- A piece comes from one of the lines. -/
theorem mem_of_mem_bodyPieces {ls : List (Origin × Bytes)} {p : Origin × Bytes}
    (hp : p ∈ bodyPieces ls) : ∃ q ∈ ls, q.1 = p.1 := by
  induction ls with
  | nil => cases hp
  | cons q ls ih =>
    rw [bodyPieces] at hp
    split at hp
    · obtain ⟨r, hr, heq⟩ := ih hp
      exact ⟨r, List.mem_cons_of_mem _ hr, heq⟩
    · rcases List.mem_cons.1 hp with rfl | hp
      · exact ⟨q, List.mem_cons_self .., rfl⟩
      · obtain ⟨r, hr, rfl⟩ := List.mem_map.1 hp
        exact ⟨r, List.mem_cons_of_mem _ hr, rfl⟩

/-- Every line with a text yields a piece. -/
theorem exists_mem_bodyPieces {ls : List (Origin × Bytes)} {p : Origin × Bytes} (hp : p ∈ ls)
    (htext : ¬ IsBlank p.2) :
    ∃ b, (p.1, b) ∈ bodyPieces ls ∧ (b = continued p.2 ∨ b = p.2.dropWhile isspace) := by
  induction ls with
  | nil => cases hp
  | cons q ls ih =>
    rw [bodyPieces]
    cases hdrop : q.2.dropWhile isspace with
    | nil =>
      rcases List.mem_cons.1 hp with rfl | hp
      · exact absurd (dropWhile_isspace.1 hdrop) htext
      · exact ih hp
    | cons c s =>
      rcases List.mem_cons.1 hp with rfl | hp
      · exact ⟨c :: s, List.mem_cons_self .., Or.inr hdrop.symm⟩
      · exact ⟨continued p.2, List.mem_cons_of_mem _ (List.mem_map.2 ⟨p, hp, rfl⟩), Or.inl rfl⟩

/-- The pieces of a field's own body, behind which the pieces of the next line may stand. -/
theorem attributed_cons {f : Field} {k : ℕ} {fields : List Field} {lead : List (Origin × Bytes)}
    {es : List Traced} {e : Traced} (hfield : e.field = k)
    (hpieces : e.pieces = bodyPieces (f.originBody k) ++ lead) (hlead : ∀ p ∈ lead, p.1.2 = 0)
    (hes : Attributed (originLines (k + 1) fields) es) :
    Attributed (originLines k (f :: fields)) (e :: es) where
  own := by
    rw [List.forall_mem_cons]
    refine ⟨fun p hp hfold => ?_, hes.own⟩
    rcases List.mem_append.1 (hpieces ▸ hp) with hp | hp
    · obtain ⟨q, hq, heq⟩ := mem_of_mem_bodyPieces hp
      rcases List.mem_cons.1 hq with rfl | hq
      · rw [← heq, hfield]
      · rw [← heq, hfield, (mem_originFolds hq).1]
    · exact absurd (hlead p hp) hfold
  kept := by
    intro p hp hfold htext
    rw [originLines, List.cons_append, List.mem_cons, List.mem_append] at hp
    rcases hp with rfl | hp | hp
    · exact absurd rfl hfold
    · obtain ⟨b, hb, hform⟩ :=
        @exists_mem_bodyPieces (f.originBody k) p (List.mem_cons_of_mem _ hp) htext
      refine ⟨e, List.mem_cons_self .., hfield.trans (mem_originFolds hp).1.symm, b, ?_, hform⟩
      rw [hpieces]
      exact List.mem_append_left _ hb
    · obtain ⟨e', he', hrest⟩ := hes.kept p hp hfold htext
      exact ⟨e', List.mem_cons_of_mem _ he', hrest⟩

/-- A field that is not folded takes part in no attribution. -/
theorem attributed_skip {f : Field} {k : ℕ} {fields : List Field} {es : List Traced}
    (hfolds : f.folds = []) (hes : Attributed (originLines (k + 1) fields) es) :
    Attributed (originLines k (f :: fields)) es where
  own := hes.own
  kept := by
    intro p hp hfold htext
    rw [originLines, originFolds_eq_nil.2 hfolds] at hp
    rcases List.mem_cons.1 hp with rfl | hp
    · exact absurd rfl hfold
    · exact hes.kept p hp hfold htext

/-- **The entries**, while the field before may wait for a body: the first pieces are for that. -/
theorem exists_traced {waiting : Bool} {k : ℕ} {fields : List Field}
    (hok : FoldsOk waiting fields) : ∃ lead es ends,
      originTokens (placeOf waiting) (originLines k fields) =
        bodyTokens lead ++ (es.flatMap Traced.tokens ++ ends) ∧
      (∀ tok ∈ ends, tok.2.kind = .headerEnd) ∧ (lead = [] ↔ waiting = false) ∧
      (∀ p ∈ lead, p.1.2 = 0) ∧ Attributed (originLines k fields) es := by
  induction fields generalizing waiting k with
  | nil =>
    have hattr : Attributed (originLines k []) [] := by
      refine ⟨fun e he => (nomatch he), fun p hp hfold => absurd ?_ hfold⟩
      simp only [originLines, List.mem_cons, List.not_mem_nil, or_false] at hp
      rcases hp with rfl | rfl <;> rfl
    cases waiting with
    | false =>
      exact ⟨[], [], [((k, 0), ⟨.headerEnd, crlf ++ dotLine ++ crlf⟩)], rfl, by simp, by simp,
        by simp, hattr⟩
    | true => exact ⟨[((k, 0), dotLine)], [], [], rfl, by simp, by simp, by simp, hattr⟩
  | cons f fields ih =>
    obtain ⟨hfolds, hrest⟩ := hok
    obtain ⟨lead, es, ends, htokens, hends, hlead, hfirst, hattr⟩ := @ih _ (k + 1) hrest
    rw [originTokens_field, htokens, Field.tokens]
    cases waiting with
    | true =>
      -- the line is the body that the field before has been waiting for
      have hnone : f.folds = [] := by
        by_contra hne
        exact Bool.noConfusion (hfolds hne).2
      obtain rfl : lead = [] := hlead.2 rfl
      refine ⟨[((k, 0), f.line)], es, ends, ?_, hends, by simp, by simp,
        attributed_skip hnone hattr⟩
      rw [if_pos rfl, originFolds_eq_nil.2 hnone]
      rfl
    | false =>
      rw [if_neg Bool.false_ne_true]
      by_cases hrec : f.recognised = true
      · have hne : bodyPieces (f.originBody k) ++ lead ≠ [] := by
          rw [ne_eq, List.append_eq_nil_iff, blank_iff, hlead, Field.waits, hrec]
          simp
        refine ⟨[], ⟨k, f.name, _, hne⟩ :: es, ends, ?_, hends, by simp, by simp,
          attributed_cons rfl rfl hfirst hattr⟩
        simp [if_pos hrec, Traced.tokens, bodyTokens]
      · have hnone : f.folds = [] := by
          by_contra hne
          exact hrec (f.recognised_iff.2 (hfolds hne).1)
        obtain rfl : lead = [] := hlead.2 (by simp [Field.waits, hrec])
        refine ⟨[], es, ends, ?_, hends, by simp, by simp, attributed_skip hnone hattr⟩
        rw [if_neg hrec, originFolds_eq_nil.2 hnone]
        rfl

/-- The pieces of continuation lines belong to the field whose tag was the last one. -/
def Owned : Option ℕ → List (Origin × Token) → Prop
  | _, [] => True
  | own, (o, tok) :: toks =>
    match tok.kind with
    | .tag => Owned (some o.1) toks
    | .body => (o.2 ≠ 0 → own = some o.1) ∧ Owned own toks
    | _ => Owned own toks

theorem owned_bodyTokens {own : Option ℕ} {pieces : List (Origin × Bytes)}
    {toks : List (Origin × Token)} : Owned own (bodyTokens pieces ++ toks) ↔
      (∀ p ∈ pieces, p.1.2 ≠ 0 → own = some p.1.1) ∧ Owned own toks := by
  induction pieces with
  | nil => simp [bodyTokens]
  | cons p pieces ih =>
    have hcons : bodyTokens (p :: pieces) = (p.1, ⟨.body, p.2⟩) :: bodyTokens pieces := rfl
    rw [hcons, List.cons_append, Owned, ih, List.forall_mem_cons, and_assoc]

theorem owned_traced {own : Option ℕ} {es : List Traced} {ends : List (Origin × Token)}
    (hown : ∀ e ∈ es, ∀ p ∈ e.pieces, p.1.2 ≠ 0 → p.1.1 = e.field)
    (hends : ∀ tok ∈ ends, tok.2.kind = .headerEnd) :
    Owned own (es.flatMap Traced.tokens ++ ends) := by
  induction es generalizing own with
  | nil =>
    induction ends with
    | nil => trivial
    | cons tok ends ih =>
      rw [List.forall_mem_cons] at hends
      rw [List.flatMap_nil, List.nil_append, Owned, hends.1]
      exact ih hends.2
  | cons e es ih =>
    rw [List.forall_mem_cons] at hown
    rw [List.flatMap_cons, List.append_assoc, Traced.tokens, List.cons_append, Owned]
    refine owned_bodyTokens.2 ⟨fun p hp hfold => ?_, ih hown.2⟩
    rw [hown.1 p hp hfold]

/-- **One field after the other** its continuation lines need its own tag. -/
theorem foldsOk_of_owned {waiting : Bool} {own : Option ℕ} {k : ℕ} {fields : List Field}
    (hlt : ∀ i ∈ own, i < k)
    (howned : Owned own (originTokens (placeOf waiting) (originLines k fields))) :
    FoldsOk waiting fields := by
  induction fields generalizing waiting own k with
  | nil => trivial
  | cons f fields ih =>
    rw [originTokens_field, Field.tokens] at howned
    -- the tag that came last is that of an earlier field
    have hforeign : (∀ p ∈ foldPieces (f.originFolds k), p.1.2 ≠ 0 → own = some p.1.1) →
        f.folds = [] := by
      intro hpieces
      by_contra hne
      obtain ⟨q, qs, hq⟩ := List.exists_cons_of_ne_nil (mt (originFolds_eq_nil (k := k)).1 hne)
      have horigin := mem_originFolds (p := q) (by rw [hq]; exact List.mem_cons_self ..)
      have hown := hpieces (q.1, continued q.2) (by simp [foldPieces, hq]) horigin.2.1
      have hk : q.1.1 < k := hlt _ hown
      rw [horigin.1] at hk
      exact lt_irrefl k hk
    have hlt' : ∀ i ∈ own, i < k + 1 := fun i hi => Nat.lt_succ_of_lt (hlt i hi)
    cases waiting with
    | true =>
      rw [if_pos rfl, owned_bodyTokens, List.forall_mem_cons] at howned
      exact ⟨fun hne => absurd (hforeign howned.1.2) hne, ih hlt' howned.2⟩
    | false =>
      rw [if_neg Bool.false_ne_true] at howned
      by_cases hrec : f.recognised = true
      · rw [if_pos hrec, List.cons_append, Owned, owned_bodyTokens] at howned
        refine ⟨fun _ => ⟨f.recognised_iff.1 hrec, rfl⟩, ih (fun i hi => ?_) howned.2⟩
        obtain rfl := Option.some.inj hi
        exact Nat.lt_succ_self _
      · rw [if_neg hrec, owned_bodyTokens] at howned
        exact ⟨fun hne => absurd (hforeign howned.1) hne, ih hlt' howned.2⟩

/-- **Continuation lines stay with their field** just when every field that has some has a name
that the scanner recognises, and no field of white space only waits in front of it. -/
theorem folds_attributed_iff (fields : List Field) :
    (∃ es, Traces fields es ∧ Attributed (originLines 0 fields) es) ↔ FoldsOk false fields := by
  constructor
  · rintro ⟨es, htraces, hattr⟩
    obtain ⟨ends, htokens, hends⟩ := htraces.tokens
    have howned : Owned none (headerTokens fields) := htokens ▸ owned_traced hattr.own hends
    exact foldsOk_of_owned (k := 0) (by simp) howned
  · intro hok
    obtain ⟨lead, es, ends, htokens, hends, hlead, -, hattr⟩ := exists_traced (k := 0) hok
    obtain rfl : lead = [] := hlead.2 rfl
    exact ⟨es, traces_of_tokens htokens hends, hattr⟩

/-- A field on one line. -/
def subjectField : Field where
  name := bytes "Subject"
  first := bytes " x"
  folds := []
  name_ne_nil := by decide
  printable := forall_of_all (by decide)
  first_ne_nil := by decide
  first_clean := by decide
  folds_isFold := by decide
  folds_clean := by decide

/-- A folded field whose name has an underscore. -/
def spamField : Field where
  name := bytes "X_Spam"
  first := bytes " y"
  folds := [9 :: bytes "buy"]
  name_ne_nil := by decide
  printable := forall_of_all (by decide)
  first_ne_nil := by decide
  first_clean := by decide
  folds_isFold := by decide
  folds_clean := by decide

/-- The continuation line goes to the subject. -/
theorem spamField_foreign :
    headerText [subjectField, spamField] =
        bytes "Subject: x\r\nX_Spam: y\r\n\tbuy\r\n\r\n.\r\n" ∧
      (∃ h, rfcparse noTimeStamp (Header.new 0) (rfclex (headerText [subjectField, spamField])) =
        .ok h ∧ h.msgEntries = [⟨bytes "Subject", bytes "x buy "⟩]) ∧
      ¬ ∃ es, Traces [subjectField, spamField] es ∧
        Attributed (originLines 0 [subjectField, spamField]) es := by
  have hrun : ∃ h, rfcparse noTimeStamp (Header.new 0)
      (rfclex (headerText [subjectField, spamField])) = .ok h ∧
        h.msgEntries = [⟨bytes "Subject", bytes "x buy "⟩] := by
    rw [rfclex_headerText]
    exact ⟨_, rfl, by decide⟩
  refine ⟨by decide, hrun, ?_⟩
  rintro ⟨es, htraces, hattr⟩
  obtain ⟨ends, htokens, hends⟩ := htraces.tokens
  have howned : Owned none (headerTokens [subjectField, spamField]) :=
    htokens ▸ owned_traced hattr.own hends
  have hsome : some 0 = some 1 := howned.2.1 (by decide)
  exact absurd hsome (by decide)

/-- A field of blanks. -/
def blankField : Field :=
  { subjectField with
    name := bytes "A"
    first := bytes "  "
    name_ne_nil := by decide
    printable := forall_of_all (by decide)
    first_ne_nil := by decide
    first_clean := by decide }

/-- The same field as `spamField` under a name that is recognised. -/
def buyField : Field :=
  { spamField with
    name := bytes "B"
    name_ne_nil := by decide
    printable := forall_of_all (by decide) }

/-- A folded field becomes the body of the field of blanks in front of it. -/
example : ∃ h, rfcparse noTimeStamp (Header.new 0) (rfclex (headerText [blankField, buyField])) =
    .ok h ∧ h.msgEntries = [⟨bytes "A", bytes "B: y buy "⟩] := by
  rw [rfclex_headerText]
  exact ⟨_, rfl, by decide⟩

/-! ### Folded and unfolded -/

/-- The white space between two words: a blank, or a line end and a blank or a tab. -/
inductive Gap
  | blank
  | fold (tab : Bool)
  deriving DecidableEq

/-- The character in front of the next word. -/
def Gap.char : Gap → UInt8
  | .fold true => 9
  | _ => chr ' '

def Gap.text : Gap → Bytes
  | .blank => [chr ' ']
  | .fold tab => crlf ++ [Gap.char (.fold tab)]

/-- A word without white space. -/
def IsWord (w : Bytes) : Prop := w ≠ [] ∧ ∀ c ∈ w, isspace c = false ∧ c ≠ 0

/-- A field with a body of words. -/
structure Worded where
  name : Bytes
  first : Bytes
  rest : List (Gap × Bytes)
  isName : IsName name
  first_isWord : IsWord first
  rest_isWord : ∀ p ∈ rest, IsWord p.2

namespace Worded

/-- The header with this field only. -/
def text (w : Worded) : Bytes :=
  w.name ++ bytes ": " ++ w.first ++ w.rest.flatMap (fun p => p.1.text ++ p.2) ++ crlf ++ crlf ++
    dotLine ++ crlf

/-- The same field on one line. -/
def unfolded (w : Worded) : Worded :=
  { w with
    rest := w.rest.map fun p => (.blank, p.2)
    rest_isWord := by
      intro p hp
      obtain ⟨q, hq, rfl⟩ := List.mem_map.1 hp
      exact w.rest_isWord q hq }

end Worded

/-- The lines of a body, the first one apart, of which the beginning has been read. -/
def foldLines : Bytes → List (Gap × Bytes) → Bytes × List Bytes
  | l, [] => (l, [])
  | l, (.blank, w) :: rest => foldLines (l ++ chr ' ' :: w) rest
  | l, (.fold tab, w) :: rest =>
    let p := foldLines (Gap.char (.fold tab) :: w) rest
    (l, p.1 :: p.2)

theorem unlines_foldLines (l : Bytes) (rest : List (Gap × Bytes)) :
    unlines ((foldLines l rest).1 :: (foldLines l rest).2) =
      l ++ rest.flatMap (fun p => p.1.text ++ p.2) ++ crlf := by
  induction l, rest using foldLines.induct with
  | case1 l => simp [foldLines, unlines]
  | case2 l w rest ih => rw [foldLines, ih]; simp [Gap.text]
  | case3 l tab w rest ih =>
    rw [foldLines, unlines_cons, ih]
    simp [Gap.text, crlf]

theorem foldLines_first (l : Bytes) (rest : List (Gap × Bytes)) :
    ∃ s, (foldLines l rest).1 = l ++ s := by
  induction l, rest using foldLines.induct with
  | case1 l => exact ⟨[], (List.append_nil l).symm⟩
  | case2 l w rest ih =>
    obtain ⟨s, hs⟩ := ih
    exact ⟨chr ' ' :: w ++ s, by rw [foldLines, hs, List.append_assoc]⟩
  | case3 l tab w rest ih => exact ⟨[], (List.append_nil l).symm⟩

theorem foldLines_isFold (l : Bytes) (rest : List (Gap × Bytes)) :
    ∀ m ∈ (foldLines l rest).2, IsFold m := by
  induction l, rest using foldLines.induct with
  | case1 l => exact fun _ h => nomatch h
  | case2 l w rest ih => rw [foldLines]; exact ih
  | case3 l tab w rest ih =>
    rw [foldLines, List.forall_mem_cons]
    refine ⟨?_, ih⟩
    obtain ⟨s, hs⟩ := foldLines_first (Gap.char (.fold tab) :: w) rest
    rw [hs]
    cases tab with
    | false => exact Or.inl rfl
    | true => exact Or.inr rfl

theorem IsName.printable {name : Bytes} (h : IsName name) :
    ∀ c ∈ name, 32 < c ∧ c < 127 ∧ c ≠ chr ':' := by
  obtain ⟨d, s, rfl, hd, hs⟩ := h
  have hname : ∀ c ∈ d :: s, isNameChar c = true := by
    rw [List.forall_mem_cons]
    exact ⟨by simp [isNameChar, isalnum, hd], hs⟩
  intro c hc
  have hchar := hname c hc
  unfold isNameChar isalnum isalpha isupper islower isdigit chr at hchar
  unfold chr
  grind

theorem IsWord.clean {w : Bytes} (h : IsWord w) : Clean w :=
  ⟨fun hlf => absurd (h.2 _ hlf).1 (by decide), fun h0 => (h.2 _ h0).2 rfl⟩

theorem clean_append {l m : Bytes} (hl : Clean l) (hm : Clean m) : Clean (l ++ m) := by
  simp only [Clean, List.mem_append, not_or]
  exact ⟨⟨hl.1, hm.1⟩, ⟨hl.2, hm.2⟩⟩

theorem foldLines_clean {l : Bytes} {rest : List (Gap × Bytes)} (hl : Clean l)
    (hrest : ∀ p ∈ rest, IsWord p.2) :
    Clean (foldLines l rest).1 ∧ ∀ m ∈ (foldLines l rest).2, Clean m := by
  induction l, rest using foldLines.induct with
  | case1 l => exact ⟨hl, fun _ h => nomatch h⟩
  | case2 l w rest ih =>
    rw [List.forall_mem_cons] at hrest
    rw [foldLines]
    have hword : Clean (chr ' ' :: w) := clean_append (l := [chr ' ']) (by decide) hrest.1.clean
    exact ih (clean_append hl hword) hrest.2
  | case3 l tab w rest ih =>
    rw [List.forall_mem_cons] at hrest
    have hword : Clean (Gap.char (.fold tab) :: w) :=
      clean_append (l := [Gap.char (.fold tab)]) (by cases tab <;> decide) hrest.1.clean
    rw [foldLines, List.forall_mem_cons]
    exact ⟨hl, ih hword hrest.2⟩

/-- A fold neither adds nor takes a character of the body. -/
theorem foldLines_length (l : Bytes) (rest : List (Gap × Bytes)) :
    (foldLines l rest).1.length + ((foldLines l rest).2.map List.length).sum =
      l.length + (rest.map fun p => p.2.length + 1).sum := by
  induction l, rest using foldLines.induct with
  | case1 l => rfl
  | case2 l w rest ih =>
    rw [foldLines, ih]
    simp only [List.length_append, List.length_cons, List.map_cons, List.sum_cons]
    omega
  | case3 l tab w rest ih =>
    simp only [foldLines, List.map_cons, List.sum_cons, ih, List.length_cons]

theorem foldLines_eq_nil {l : Bytes} {rest : List (Gap × Bytes)} :
    (foldLines l rest).2 = [] ↔ ∀ p ∈ rest, p.1 = .blank := by
  induction l, rest using foldLines.induct with
  | case1 l => simp [foldLines]
  | case2 l w rest ih => simp [foldLines, ih]
  | case3 l tab w rest ih => simp [foldLines]

/-- The entry of a field whose first line is not blank. -/
def Field.entry (f : Field) : Entry :=
  ⟨f.name, f.first.dropWhile isspace ++ (f.folds.map continued).flatten⟩

theorem parses_field {f : Field} (hname : IsName f.name) (htext : ¬ IsBlank f.first) :
    Parses (headerText [f]) [f.entry] := by
  have hrec := f.recognised_iff.2 hname
  have hfolds : ((foldPieces (f.originFolds 0)).map Prod.snd).flatten =
      (f.folds.map continued).flatten := by
    rw [← map_originFolds f 0, foldPieces, List.map_map, List.map_map]
    rfl
  obtain ⟨c, s, hdrop⟩ := List.exists_cons_of_ne_nil (mt dropWhile_isspace.1 htext)
  have hpieces : bodyPieces (f.originBody 0) = ((0, 0), c :: s) :: foldPieces (f.originFolds 0) := by
    rw [Field.originBody, bodyPieces, hdrop]
  have hwaits : f.waits false = false := by
    have hblank : ¬ f.Blank := fun hblank => htext (hblank _ (List.mem_cons_self ..))
    simp [Field.waits, hblank]
  have htokens : headerTokens [f] =
      [(⟨0, f.name, bodyPieces (f.originBody 0), by simp [hpieces]⟩ : Traced)].flatMap
        Traced.tokens ++ [((1, 0), ⟨.headerEnd, crlf ++ dotLine ++ crlf⟩)] := by
    have hone := originTokens_field f false 0 []
    rw [hwaits, Field.tokens, if_neg Bool.false_ne_true, if_pos hrec] at hone
    refine hone.trans ?_
    simp only [List.flatMap_singleton, Traced.tokens]
    rfl
  have hparses := (traces_of_tokens htokens (by simp)).parses
  simpa [Traced.entry, hpieces, hfolds, Field.entry, hdrop] using hparses

namespace Worded

variable (w : Worded)

/-- The field, line by line. -/
def toField : Field where
  name := w.name
  first := chr ' ' :: (foldLines w.first w.rest).1
  folds := (foldLines w.first w.rest).2
  name_ne_nil := by
    obtain ⟨c, s, hname, -⟩ := w.isName
    simp [hname]
  printable := w.isName.printable
  first_ne_nil := List.cons_ne_nil _ _
  first_clean := clean_append (l := [chr ' ']) (by decide)
    (foldLines_clean w.first_isWord.clean w.rest_isWord).1
  folds_isFold := foldLines_isFold w.first w.rest
  folds_clean := (foldLines_clean w.first_isWord.clean w.rest_isWord).2

/-- Behind the blank the first word begins. -/
theorem dropWhile_first : w.toField.first.dropWhile isspace = (foldLines w.first w.rest).1 := by
  obtain ⟨s, hs⟩ := foldLines_first w.first w.rest
  obtain ⟨c, t, hword⟩ := List.exists_cons_of_ne_nil w.first_isWord.1
  have hc : isspace c = false := (w.first_isWord.2 c (by simp [hword])).1
  show (chr ' ' :: (foldLines w.first w.rest).1).dropWhile isspace = _
  rw [List.dropWhile_cons_of_pos (by decide), hs, hword, List.cons_append,
    List.dropWhile_cons_of_neg (by rw [hc]; decide)]

theorem text_eq : w.text = headerText [w.toField] := by
  have hlines := unlines_foldLines w.first w.rest
  rw [unlines_cons] at hlines
  have hcolon : bytes ": " = [chr ':', chr ' '] := rfl
  have hend : unlines [[], dotLine] = crlf ++ dotLine ++ crlf := by simp [unlines]
  calc w.text = w.name ++ bytes ": " ++
        (w.first ++ w.rest.flatMap (fun p => p.1.text ++ p.2) ++ crlf) ++
          (crlf ++ dotLine ++ crlf) := by simp only [text, List.append_assoc]
    _ = w.name ++ bytes ": " ++ ((foldLines w.first w.rest).1 ++
        cr :: lf :: unlines (foldLines w.first w.rest).2) ++ unlines [[], dotLine] := by
      rw [hlines, hend]
    _ = headerText [w.toField] := by
      simp [headerText, messageText, Field.lines, Field.line, toField, unlines, hcolon]

theorem parses_text : Parses w.text [w.toField.entry] := by
  have htext : ¬ IsBlank w.toField.first := by
    rw [← dropWhile_isspace, dropWhile_first]
    obtain ⟨s, hs⟩ := foldLines_first w.first w.rest
    rw [hs]
    exact List.append_ne_nil_of_left_ne_nil w.first_isWord.1 s
  rw [text_eq]
  exact parses_field w.isName htext

/-- Every fold makes the body longer by a character, the carriage return that becomes a blank. -/
theorem length_body : w.toField.entry.body.length =
    w.first.length + (w.rest.map fun p => p.2.length + 1).sum + w.toField.folds.length := by
  have hfolds : ∀ folds : List Bytes, (folds.map continued).flatten.length =
      (folds.map List.length).sum + folds.length := by
    intro folds
    induction folds with
    | nil => rfl
    | cons l folds ih =>
      simp only [List.map_cons, List.flatten_cons, List.length_append, ih, List.sum_cons,
        List.length_cons, continued, blanks, List.length_map, List.length_nil]
      omega
  have hlength := foldLines_length w.first w.rest
  simp only [Field.entry, List.length_append, hfolds, dropWhile_first]
  simp only [toField]
  omega

end Worded

/-- **Folded and unfolded**: the entry is the same as for the field on one line just when the field
is not folded. -/
theorem unfolded_iff (w : Worded) :
    (∃ e, Parses w.unfolded.text [e] ∧ Parses w.text [e]) ↔ ∀ p ∈ w.rest, p.1 = .blank := by
  constructor
  · rintro ⟨e, hun, hfold⟩
    have hbody : w.unfolded.toField.entry = w.toField.entry := by
      have h₁ := hun.inj w.unfolded.parses_text
      have h₂ := hfold.inj w.parses_text
      exact (List.cons.inj (h₁.symm.trans h₂)).1
    have hnone : w.unfolded.toField.folds = [] :=
      foldLines_eq_nil.2 fun p hp => by
        obtain ⟨q, -, rfl⟩ := List.mem_map.1 hp
        rfl
    have hlength := w.length_body
    rw [← hbody, w.unfolded.length_body, hnone] at hlength
    have hrest : (w.unfolded.rest.map fun p => p.2.length + 1) =
        w.rest.map fun p => p.2.length + 1 := by
      simp [Worded.unfolded]
    rw [hrest] at hlength
    have hfolds : w.toField.folds = [] := by
      apply List.eq_nil_of_length_eq_zero
      simp only [Worded.unfolded, List.length_nil] at hlength
      omega
    exact foldLines_eq_nil.1 hfolds
  · intro hblank
    have hself : w.unfolded = w := by
      have hrest : w.rest.map (fun p => (Gap.blank, p.2)) = w.rest.map id :=
        List.map_congr_left fun p hp => Prod.ext (hblank p hp).symm rfl
      rw [List.map_id] at hrest
      cases w
      simp only [Worded.unfolded, hrest]
    exact ⟨w.toField.entry, by rw [hself]; exact w.parses_text, w.parses_text⟩

/-- A subject of two words on two lines. -/
def foldedSubject : Worded where
  name := bytes "Subject"
  first := bytes "a"
  rest := [(.fold false, bytes "b")]
  isName := by
    have hsplit : splitTag (bytes "Subject:") = some (bytes "Subject", []) := by decide
    exact (splitTag_eq_some hsplit).1
  first_isWord := ⟨by decide, forall_of_all (by decide)⟩
  rest_isWord := by
    simp only [List.forall_mem_singleton]
    exact ⟨by decide, forall_of_all (by decide)⟩

/-- The continuation line ends in a blank. -/
theorem foldedSubject_longer :
    foldedSubject.text = bytes "Subject: a\r\n b\r\n\r\n.\r\n" ∧
      Parses foldedSubject.text [⟨bytes "Subject", bytes "a b "⟩] ∧
      Parses foldedSubject.unfolded.text [⟨bytes "Subject", bytes "a b"⟩] ∧
      ¬ ∃ e, Parses foldedSubject.unfolded.text [e] ∧ Parses foldedSubject.text [e] := by
  have hfold : Parses foldedSubject.text [⟨bytes "Subject", bytes "a b "⟩] :=
    foldedSubject.parses_text
  have hun : Parses foldedSubject.unfolded.text [⟨bytes "Subject", bytes "a b"⟩] :=
    foldedSubject.unfolded.parses_text
  refine ⟨by decide, hfold, hun, ?_⟩
  rintro ⟨e, h₁, h₂⟩
  exact absurd ((hfold.inj h₂).trans (h₁.inj hun)) (by decide)

end Mailfilter.Rfc822
