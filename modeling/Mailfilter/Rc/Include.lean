import Mailfilter.Rc.Junction
import Mailfilter.Rc.Parser

/-!
# Included files

An rcfile with `INCLUDE` lines against the text in which every `INCLUDE` is replaced by its file.

* `IncludeLine`: a line with an `INCLUDE`, with its file; `RcLine`, `original` and `pasted`;
* `scan_written`: what the scanner does at an `INCLUDE`;
* `visible`: a scan without what it does to the files, and `visible_original`;
* `rcparse_visible`: the parser does not see the files;
* `readRcfile_pasted`: both texts make the same calls, if every file and the rest of its line `Joins`.
-/

namespace Mailfilter.Rc

open Flex

/-! ### Lines with an `INCLUDE` -/

/-- A line with an `INCLUDE` at its beginning, and the file behind it, in which there is none. -/
structure IncludeLine (wordexp : Bytes → Option (List Bytes)) (files : Bytes → Option Bytes) where
  indent : Bytes
  keyword : Bytes
  gap : Bytes
  name : Bytes
  rest : Bytes
  subFile : Bytes
  words : List Bytes
  text : Bytes
  indent_blank : IsBlank indent
  keyword_mem : keyword ∈ RuleName.includeWord.pattern.lang
  gap_blank : IsBlank gap
  name_mem : name ∈ RuleName.inclName.pattern.lang
  rest_blank : ∀ c ∈ rest.head?, isblank c = true
  rest_line : lf ∉ rest
  wordexp_name : wordexp (cstr name) = some (subFile :: words)
  files_subFile : files subFile = some text
  noInclude : .beginInclude ∉ (scanAlone .initial true text).1

/-- A line of the main rcfile. -/
inductive RcLine (wordexp : Bytes → Option (List Bytes)) (files : Bytes → Option Bytes)
  | plain (l : Bytes)
  | includes (i : IncludeLine wordexp files)

section Lines

variable {wordexp : Bytes → Option (List Bytes)} {files : Bytes → Option Bytes}

def RcLine.original : RcLine wordexp files → Bytes
  | plain l => l
  | includes i => i.indent ++ (i.keyword ++ (i.gap ++ (i.name ++ i.rest)))

/-- The file in the place of the `INCLUDE`. -/
def RcLine.pasted : RcLine wordexp files → Bytes
  | plain l => l
  | includes i => i.indent ++ (i.text ++ i.rest)

/-- The file of an `INCLUDE` and the rest of its line are read the same in one buffer and in two. -/
def RcLine.Joins : RcLine wordexp files → Prop
  | plain _ => True
  | includes i => Rc.Joins (lastLine i.text) i.rest

/-- The main rcfile. -/
def original (lines : List (RcLine wordexp files)) : Bytes :=
  List.intercalate [lf] (lines.map RcLine.original)

/-- The main rcfile with the files pasted into it. -/
def pasted (lines : List (RcLine wordexp files)) : Bytes :=
  List.intercalate [lf] (lines.map RcLine.pasted)

end Lines

/-! ### Steps at an `INCLUDE` -/

section Steps

variable {sub : Bytes → StartCondition → Scan Event StartCondition} {bol : Bool} {u v b : Bytes}

theorem scan_includeWord (hu : u ∈ RuleName.includeWord.pattern.lang) :
    rcScanner.scan sub .initial bol (u ++ v) =
      (.beginInclude :: (rcScanner.scan sub .incl false v).1, (rcScanner.scan sub .incl false v).2) := by
  obtain ⟨c, w, rfl⟩ : ∃ c w, u = c :: w := by
    refine List.exists_cons_of_ne_nil fun h => ?_
    obtain ⟨w, hw⟩ := exists_equal hu
    simp [h] at hw
  have hc : RuleName.begins c .includeWord = true := by
    rw [← first_eq_begins]
    exact Pattern.first_of_mem hu
  have hlen : RuleName.includeWord.rule.length .initial bol (c :: w ++ v) =
      some (c :: w).length := by
    refine Rule.length_append rfl (fun h => nomatch h) hu (List.cons_ne_nil c w) ?_
    rintro x y hx - hmem
    obtain ⟨w', hw⟩ := exists_equal hu
    rw [hw, List.append_assoc] at hmem
    exact hx (endsLine_includeWord w' x hmem)
  have hline : bolAfter lf bol (c :: w) = false :=
    bolAfter_of_notMem (List.cons_ne_nil c w)
      (Pattern.notMem_of_avoids (by decide : RuleName.includeWord.pattern.avoids [lf] = true) hu lf
        (by simp))
  rw [scan_emit (best_of_pair (candidates_include rfl hc) hlen) rfl, hline]

theorem scan_inclBlanks (hb : IsBlank b) (hv : ∀ c ∈ v.head?, isblank c = false) :
    rcScanner.scan sub .incl false (b ++ v) = rcScanner.scan sub .incl false v := by
  rcases b with _ | ⟨c, b⟩
  · rfl
  · have hcand : candidates .incl false c = [.inclBlanks, .blank, .anyChar] := by
      rcases isblank_iff.1 (hb c (List.mem_cons_self ..)) with rfl | rfl <;> rfl
    have hmem : c :: b ∈ RuleName.inclBlanks.pattern.lang := Pattern.mem_star_cls.2 hb
    have hlen : RuleName.inclBlanks.rule.length .incl false (c :: b ++ v) =
        some (c :: b).length := by
      refine Rule.length_append rfl (fun h => nomatch h) hmem (List.cons_ne_nil c b) ?_
      rintro (_ | ⟨d, x⟩) y hx rfl hlong
      · exact hx rfl
      · have hd := Pattern.mem_star_cls.1 hlong d (by simp)
        rw [hv d rfl] at hd
        cases hd
    have hbest : best rcScanner.rules .incl false (c :: b ++ v) =
        some (RuleName.inclBlanks.rule, (c :: b).length) := by
      refine best_of_candidates hcand hlen fun n hn m hm => ?_
      have hone : m ≤ 1 := by
        simp only [List.mem_cons, List.not_mem_nil, or_false] at hn
        rcases hn with rfl | rfl
        all_goals exact Pattern.le_one_of_longest_cls (Rule.length_eq_some hm).2.2.1
      exact hone.trans (by simp)
    have hline : bolAfter lf false (c :: b) = false :=
      bolAfter_of_notMem (List.cons_ne_nil c b) hb.notMem_lf
    rw [scan_skip hbest rfl, hline]

/-- The name of the file: the scanner goes on in its buffer, and then behind the name. -/
theorem scan_inclName (hu : u ∈ RuleName.inclName.pattern.lang)
    (hv : ∀ c ∈ v.head?, c ∈ separators) :
    rcScanner.scan sub .incl false (u ++ v) =
      (sub u .initial).andThen fun k' => rcScanner.scan sub k' false v := by
  have havoids : RuleName.inclName.pattern.avoids separators = true := by decide
  have hcand : ∀ c, (!isblank c && c ≠ lf) = true →
      candidates .incl false c = [.inclName, .anyChar] :=
    forall_byte_iff.2 (by decide +kernel)
  obtain ⟨c, w, hc, -, rfl⟩ := Pattern.mem_cls_seq.1 hu
  have hlen : RuleName.inclName.rule.length .incl false (c :: w ++ v) = some (c :: w).length :=
    Rule.length_of_longest rfl (fun h => nomatch h) (Pattern.longest_of_avoids havoids hu hv)
      (by simp)
  have hbest : best rcScanner.rules .incl false (c :: w ++ v) =
      some (RuleName.inclName.rule, (c :: w ++ []).length) := by
    rw [List.append_nil]
    exact best_of_pair (hcand c hc) hlen
  have hline : bolAfter lf false (c :: w) = false :=
    bolAfter_of_notMem (List.cons_ne_nil c w) (Pattern.notMem_of_avoids havoids hu lf (by decide))
  have hstep : rcScanner.scan sub .incl false (c :: w ++ v) = _ :=
    rcScanner.scan_step hbest List.nil_prefix rfl
  rw [List.append_nil, show rcScanner.newline = lf from rfl, hline] at hstep
  exact hstep

end Steps

/-! ### Scans without the files -/

/-- What the actions at the beginning and at the end of a file do. -/
def Event.isFile : Event → Bool
  | beginInclude => true
  | opened _ => true
  | closed => true
  | _ => false

/-- A scan without what it does to the files. -/
def visible (x : Scan Event StartCondition) : Scan Event StartCondition :=
  (x.1.filter fun e => !e.isFile, x.2)

theorem visible_andThen (x : Scan Event StartCondition)
    (f : StartCondition → Scan Event StartCondition) :
    visible (x.andThen f) = (visible x).andThen fun k => visible (f k) := by
  rcases x with ⟨es, _ | k⟩
  · rfl
  · simp [visible, Scan.andThen]

section Paste

variable {wordexp : Bytes → Option (List Bytes)} {files : Bytes → Option Bytes} {e e' : Bytes}

/-- The scanner of the main rcfile. -/
def scanMain (wordexp : Bytes → Option (List Bytes)) (files : Bytes → Option Bytes)
    (k : StartCondition) (bol : Bool) (s : Bytes) : Scan Event StartCondition :=
  rcScanner.scan (rcScanner.nested (rcFiles wordexp files) maxIncludeDepth) k bol s

/-- At an `INCLUDE` the file is scanned like a file of its own. -/
theorem visible_written (i : IncludeLine wordexp files) (he : ∀ c ∈ e.head?, c = lf) :
    visible (scanMain wordexp files .initial true ((RcLine.includes i).original ++ e)) =
      (visible (scanAlone .initial true i.text)).andThen fun k' =>
        visible (scanMain wordexp files k' false (i.rest ++ e)) := by
  have hname : ∀ c ∈ (i.name ++ (i.rest ++ e)).head?, isblank c = false := by
    obtain ⟨c, w, hc, -, hw⟩ := Pattern.mem_cls_seq.1 i.name_mem
    intro d hd
    rw [hw] at hd
    cases hd
    simp only [Bool.and_eq_true, Bool.not_eq_true'] at hc
    exact hc.1
  have hrest := head_separators i.rest_blank he
  have hfile : rcScanner.nested (rcFiles wordexp files) maxIncludeDepth i.name .initial =
      Scan.andThen (.opened i.subFile :: (scanAlone .initial true i.text).1,
        (scanAlone .initial true i.text).2) fun k => ([.closed], some k) := by
    have halone : rcScanner.scan (rcScanner.nested (rcFiles wordexp files) 0) .initial true i.text =
        scanAlone .initial true i.text := scan_sub StartCondition.noConfusion i.noInclude
    rw [maxIncludeDepth, BufferScanner.nested]
    simp only [rcFiles, i.wordexp_name, i.files_subFile]
    rw [← halone]
    rfl
  -- indent, keyword, gap and name are one step each
  have hscan : scanMain wordexp files .initial true ((RcLine.includes i).original ++ e) =
      Scan.andThen ([.beginInclude], some .incl) fun _ =>
        (rcScanner.nested (rcFiles wordexp files) maxIncludeDepth i.name .initial).andThen fun k' =>
          scanMain wordexp files k' false (i.rest ++ e) := by
    rw [scanMain, RcLine.original, List.append_assoc, scan_indent i.indent_blank, List.append_assoc,
      scan_includeWord i.keyword_mem, List.append_assoc, List.append_assoc,
      scan_inclBlanks i.gap_blank hname, scan_inclName i.name_mem hrest]
    rfl
  rw [hscan, hfile, visible_andThen, visible_andThen]
  rcases scanAlone .initial true i.text with ⟨es, _ | k'⟩
  · rfl
  · simp [visible, Scan.andThen, Event.isFile]

/-- A pasted file is scanned in the place of the `INCLUDE`. -/
theorem visible_pasted {i : IncludeLine wordexp files} (h : (RcLine.includes i).Joins)
    (he : ∀ c ∈ e.head?, c = lf) :
    visible (scanMain wordexp files .initial true ((RcLine.includes i).pasted ++ e)) =
      (visible (scanAlone .initial true i.text)).andThen fun k' =>
        visible (scanMain wordexp files k' false (i.rest ++ e)) := by
  have hscan : scanMain wordexp files .initial true (i.text ++ (i.rest ++ e)) =
      (scanAlone .initial true i.text).andThen fun k' =>
        scanMain wordexp files k' false (i.rest ++ e) :=
    scan_file i.noInclude h i.rest_blank i.rest_line he
  rw [← visible_andThen, ← hscan, scanMain, RcLine.pasted, List.append_assoc,
    scan_indent i.indent_blank, List.append_assoc]
  rfl

theorem visible_line {line : RcLine wordexp files} (h : line.Joins)
    (he : ∀ c ∈ e.head?, c = lf) (he' : ∀ c ∈ e'.head?, c = lf)
    (hsame : ∀ k bol s, visible (scanMain wordexp files k bol (s ++ e)) =
      visible (scanMain wordexp files k bol (s ++ e'))) :
    visible (scanMain wordexp files .initial true (line.original ++ e)) =
      visible (scanMain wordexp files .initial true (line.pasted ++ e')) := by
  cases line with
  | plain l => exact hsame _ _ l
  | includes i =>
    rw [visible_written i he, visible_pasted h he']
    exact congrArg (Scan.andThen _) (funext fun k' => hsame k' false i.rest)

/-- What is behind a line end does not see what is in front of it. -/
theorem visible_rest {v v' : Bytes} (h : visible (scanMain wordexp files .initial true v) =
      visible (scanMain wordexp files .initial true v')) (k : StartCondition) (bol : Bool)
    (s : Bytes) : visible (scanMain wordexp files k bol (s ++ lf :: v)) =
      visible (scanMain wordexp files k bol (s ++ lf :: v')) := by
  rw [scanMain, scanMain, scan_line s v, scan_line s v', visible_andThen, visible_andThen]
  exact congrArg (Scan.andThen _) (funext fun _ => h)

theorem visible_original {lines : List (RcLine wordexp files)} (h : ∀ line ∈ lines, line.Joins) :
    visible (scanMain wordexp files .initial true (original lines)) =
      visible (scanMain wordexp files .initial true (pasted lines)) := by
  induction lines with
  | nil => rfl
  | cons line lines ih =>
    have hline := h line (List.mem_cons_self ..)
    have hrest := ih fun l hl => h l (List.mem_cons_of_mem line hl)
    rcases lines with _ | ⟨next, lines⟩
    · have hsame := @visible_line _ _ [] [] line hline nofun nofun fun _ _ _ => rfl
      simpa [original, pasted] using hsame
    · have hsplit : original (line :: next :: lines) =
          line.original ++ lf :: original (next :: lines) := by
        simp [original, List.intercalate]
      have hsplit' : pasted (line :: next :: lines) =
          line.pasted ++ lf :: pasted (next :: lines) := by
        simp [pasted, List.intercalate]
      rw [hsplit, hsplit']
      exact visible_line hline (by simp) (by simp) (visible_rest hrest)

end Paste

/-! ### Calls -/

section Calls

variable (popen : Bytes → Option Process)

/-- The parser does not see the files: only the place of an error depends on them. -/
theorem rcparse_visible (st : ParserState) (g g' : Globals) (events : List Event) :
    (rcparse popen st g events).commands =
        (rcparse popen st g' (events.filter fun e => !e.isFile)).commands ∧
      ((rcparse popen st g events).error = none ↔
        (rcparse popen st g' (events.filter fun e => !e.isFile)).error = none) := by
  induction events generalizing st g g' with
  | nil => cases st <;> exact ⟨rfl, by simp [rcparse]⟩
  | cons e events ih =>
    cases e with
    | token t =>
      rw [List.filter_cons_of_pos rfl, rcparse_token, rcparse_token]
      rcases st.step popen t with f | ⟨st', command⟩
      · exact ⟨rfl, by simp⟩
      · obtain ⟨hcommands, herror⟩ := ih st' g g'
        exact ⟨congrArg (command.toList ++ ·) hcommands, herror⟩
    | newline =>
      rw [List.filter_cons_of_pos rfl, rcparse_newline, rcparse_newline]
      exact ih st _ _
    | failed f =>
      rw [List.filter_cons_of_pos rfl, rcparse_failed, rcparse_failed]
      exact ⟨rfl, by simp⟩
    | beginInclude => cases st <;> exact ih _ _ g'
    | opened subFile => cases st <;> exact ih _ _ g'
    | closed => cases st <;> exact ih _ _ g'

end Calls

/-! ### Files with and without a line end -/

/-- `INCLUDE = f`, for a file `f` with this text. -/
def includeOf (text : Bytes) (h : .beginInclude ∉ (scanAlone .initial true text).1) :
    IncludeLine (fun _ => some [bytes "f"]) (fun _ => some text) where
  indent := []
  keyword := bytes "INCLUDE" ++ bytes " ="
  gap := bytes " "
  name := bytes "f"
  rest := []
  subFile := bytes "f"
  words := []
  text := text
  indent_blank := nofun
  keyword_mem := Pattern.mem_seq.2 ⟨bytes "INCLUDE", mem_anyCase.2 (by decide), bytes " =",
    Pattern.mem_seq.2 ⟨bytes " ", Pattern.mem_star_cls.2 (List.all_eq_true.1 rfl), [chr '='],
      Pattern.mem_lit.2 rfl, rfl⟩, rfl⟩
  gap_blank := List.all_eq_true.1 rfl
  name_mem := Pattern.mem_cls_seq.2 ⟨chr 'f', [], rfl, Pattern.mem_star_cls.2 nofun, rfl⟩
  rest_blank := nofun
  rest_line := nofun
  wordexp_name := rfl
  files_subFile := rfl
  noInclude := h

end Mailfilter.Rc
