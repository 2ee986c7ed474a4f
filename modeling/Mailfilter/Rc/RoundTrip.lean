import Mailfilter.Numbers
import Mailfilter.Rc.Matches
import Mailfilter.Rc.Parser

/-!
# Writing and reading an rcfile

Every list of commands can be written as an rcfile, one command a line, and comes back when the rcfile
is read.

* `Line`: the lines for a command, with the keyword in any spelling;
* `scan_content`: in an argument the scanner finds one piece after the other, and none reaches over the
  closing quotation mark;
* `parse_content`, the argument for the parser, and `reads_strArg`, …, the arguments of the three kinds;
* `readRcfile_lines`: an rcfile of such lines makes the calls that its commands stand for.
-/

namespace Mailfilter.Rc

open Flex

/-! ### Lines -/

/-- A number in decimal digits, perhaps with a sign. -/
def IsNumeral (t : Bytes) (n : Int32) : Prop :=
  ∃ sign digits : Bytes, t = sign ++ digits ∧ digits ≠ [] ∧ (∀ c ∈ digits, isdigit c = true) ∧
    ((sign = [] ∨ sign = bytes "+") ∧ n.toInt = digitsValue digits ∨
      sign = bytes "-" ∧ n.toInt = -(digitsValue digits : ℤ))

/-- A string that is not empty and has no backquote; line ends and NULs are excluded by the type. -/
def IsString (arg : Text) : Prop := arg.val ≠ [] ∧ backquote ∉ arg.val

/-- `yes` or `no`. -/
def IsYesNo (arg : Text) : Prop :=
  arg.val.map toupper = bytes "YES" ∨ arg.val.map toupper = bytes "NO"

/-- An argument in quotation marks. -/
def quoted (arg : Bytes) : Bytes := quotation :: arg ++ [quotation]

/-- `KEYWORD = argument` -/
def line (keyword : Bytes) (operat : Operator) (arg : Bytes) : Bytes :=
  keyword ++ bytes " " ++ operat.text ++ bytes " " ++ arg ++ [lf]

/-- The lines for a command. -/
inductive Line : Command → Bytes → Prop
  | allowRule {keyword : Text} {arg : Text} (operat : Operator)
      (hkey : keyword.val.map toupper ∈ [bytes "ALLOW", bytes "ALLOW_CASE", bytes "ALLOW_NOCASE"])
      (harg : IsString arg) : Line (.allowRule keyword operat arg) (line keyword operat (quoted arg))
  | delDuplicates {keyword : Bytes} {arg : Text} (hkey : keyword.map toupper = bytes "DEL_DUPLICATES")
      (harg : IsYesNo arg) : Line (.delDuplicates arg) (line keyword .equal (quoted arg))
  | denyRule {keyword : Text} {arg : Text} (operat : Operator)
      (hkey : keyword.val.map toupper ∈ [bytes "DENY", bytes "DENY_CASE", bytes "DENY_NOCASE"])
      (harg : IsString arg) : Line (.denyRule keyword operat arg) (line keyword operat (quoted arg))
  | highscore {keyword t : Bytes} {n : Int32} (hkey : keyword.map toupper = bytes "HIGHSCORE")
      (hn : IsNumeral t n) : Line (.highscore n) (line keyword .equal t)
  | logfile {keyword : Bytes} {arg : Text} (hkey : keyword.map toupper = bytes "LOGFILE")
      (harg : IsString arg) : Line (.logfile arg) (line keyword .equal (quoted arg))
  | maxlength {keyword t : Bytes} {n : Int32} (hkey : keyword.map toupper = bytes "MAXLENGTH")
      (hn : IsNumeral t n) : Line (.maxlength n) (line keyword .equal t)
  | maxsizeAllow {keyword t : Bytes} {n : Int32} (hkey : keyword.map toupper = bytes "MAXSIZE_ALLOW")
      (hn : IsNumeral t n) : Line (.maxsizeAllow n) (line keyword .equal t)
  | maxsizeDeny {keyword t : Bytes} {n : Int32} (hkey : keyword.map toupper = bytes "MAXSIZE_DENY")
      (hn : IsNumeral t n) : Line (.maxsizeDeny n) (line keyword .equal t)
  | maxsizeScore {keyword s t : Bytes} {m n : Int32}
      (hkey : keyword.map toupper = bytes "MAXSIZE_SCORE") (hm : IsNumeral s m)
      (hn : IsNumeral t n) : Line (.maxsizeScore m n) (line (keyword ++ bytes " " ++ s) .equal t)
  | normal {keyword : Bytes} {arg : Text} (hkey : keyword.map toupper = bytes "NORMAL")
      (harg : IsYesNo arg) : Line (.normal arg) (line keyword .equal (quoted arg))
  | server {keyword : Bytes} {arg : Text} (hkey : keyword.map toupper = bytes "SERVER")
      (harg : IsString arg) : Line (.server arg) (line keyword .equal (quoted arg))
  | user {keyword : Bytes} {arg : Text} (hkey : keyword.map toupper = bytes "USER")
      (harg : IsString arg) : Line (.user arg) (line keyword .equal (quoted arg))
  | pass {keyword : Bytes} {arg : Text} (hkey : keyword.map toupper = bytes "PASS")
      (harg : IsString arg) : Line (.pass arg) (line keyword .equal (quoted arg))
  | protocol {keyword : Bytes} {arg : Text} (hkey : keyword.map toupper = bytes "PROTOCOL")
      (harg : IsString arg) : Line (.protocol arg) (line keyword .equal (quoted arg))
  | port {keyword t : Bytes} {n : Int32} (hkey : keyword.map toupper = bytes "PORT")
      (hn : IsNumeral t n) : Line (.port n) (line keyword .equal t)
  | regCase {keyword : Bytes} {arg : Text} (hkey : keyword.map toupper = bytes "REG_CASE")
      (harg : IsYesNo arg) : Line (.regCase arg) (line keyword .equal (quoted arg))
  | regType {keyword : Bytes} {arg : Text} (hkey : keyword.map toupper = bytes "REG_TYPE")
      (harg : IsString arg) : Line (.regType arg) (line keyword .equal (quoted arg))
  | showHeaders {keyword : Bytes} {arg : Text} (hkey : keyword.map toupper = bytes "SHOW_HEADERS")
      (harg : IsString arg) : Line (.showHeaders arg) (line keyword .equal (quoted arg))
  | score {keyword : Text} {s : Bytes} {m : Int32} {arg : Text} (operat : Operator)
      (hkey : keyword.val.map toupper ∈ [bytes "SCORE", bytes "SCORE_CASE", bytes "SCORE_NOCASE"])
      (hm : IsNumeral s m) (harg : IsString arg) :
      Line (.score keyword m operat arg) (line (keyword ++ bytes " " ++ s) operat (quoted arg))
  | test {keyword : Bytes} {arg : Text} (hkey : keyword.map toupper = bytes "TEST")
      (harg : IsYesNo arg) : Line (.test arg) (line keyword .equal (quoted arg))
  | timeout {keyword t : Bytes} {n : Int32} (hkey : keyword.map toupper = bytes "TIMEOUT")
      (hn : IsNumeral t n) : Line (.timeout n) (line keyword .equal t)
  | verbose {keyword t : Bytes} {n : Int32} (hkey : keyword.map toupper = bytes "VERBOSE")
      (hn : IsNumeral t n) : Line (.verbose n) (line keyword .equal t)

/-! ### Values -/

theorem textOf_val {b : Bytes} (hlf : 10 ∉ b) (hnul : 0 ∉ b) : textOf b = ⟨b, hlf, hnul⟩ := by
  refine Subtype.ext (List.takeWhile_eq_self_iff.2 fun c hc => ?_)
  have h10 : c ≠ 10 := fun h => hlf (h ▸ hc)
  have h0 : c ≠ 0 := fun h => hnul (h ▸ hc)
  simp [h10, h0]

theorem textOf_text (t : Text) : textOf t.val = t := textOf_val t.property.1 t.property.2

/-- A number that is written as such begins with itself. -/
theorem IsNumeral.begins {t : Bytes} {n : Int32} (h : IsNumeral t n) : Begins t n.toInt := by
  obtain ⟨sign, digits, rfl, hne, hdigits, hvalue⟩ := h
  have hwhite : ∀ c ∈ ([] : Bytes), isspace c = true := fun _ hc => nomatch hc
  have hrest : ∀ c ∈ ([] : Bytes).head?, isdigit c = false := fun _ hc => nomatch hc
  rcases hvalue with ⟨rfl | rfl, hvalue⟩ | ⟨rfl, hvalue⟩
  · rw [hvalue]
    simpa using Begins.plain hwhite hdigits hrest fun h => absurd h hne
  · rw [hvalue]
    simpa [bytes] using Begins.plus hwhite hdigits hrest
  · rw [hvalue]
    simpa [bytes] using Begins.minus hwhite hdigits hrest

/-- A number within the range of `int` is read as it is. -/
theorem atoi_of_isNumeral {t : Bytes} {n : Int32} (h : IsNumeral t n) : atoi (cstr t) = n :=
  Int32.toInt_inj.1 (toInt_atoi_of_le h.begins n.le_toInt n.toInt_lt)

/-- What the rule for numbers matches. -/
theorem IsNumeral.exists_cons {t : Bytes} {n : Int32} (h : IsNumeral t n) : ∃ c s, t = c :: s ∧
    (c = chr '+' || c = chr '-' || isdigit c) = true ∧ ∀ d ∈ s, isdigit d = true := by
  obtain ⟨sign, digits, rfl, hne, hdigits, hvalue⟩ := h
  rcases hvalue with ⟨rfl | rfl, -⟩ | ⟨rfl, -⟩
  · obtain ⟨c, s, rfl⟩ := List.exists_cons_of_ne_nil hne
    refine ⟨c, s, rfl, ?_, fun d hd => hdigits d (List.mem_cons_of_mem _ hd)⟩
    rw [hdigits c (List.mem_cons_self ..), Bool.or_true]
  · exact ⟨chr '+', digits, rfl, by decide, hdigits⟩
  · exact ⟨chr '-', digits, rfl, by decide, hdigits⟩

/-! ### The content of a string -/

section Content

variable {sub : Bytes → StartCondition → Scan Event StartCondition}
  {popen : Bytes → Option Process} {s v w : Bytes} {c : UInt8} {n : RuleName} {m : ℕ}

/-- The closing quotation mark of a line. -/
theorem scan_end {k : StartCondition} {bol : Bool} (hk : k = .param ∨ k = .paramBool) :
    rcScanner.scan sub k bol (quotation :: lf :: v) =
      (.token .quote :: (rcScanner.scan sub k false (lf :: v)).1,
        (rcScanner.scan sub k false (lf :: v)).2) :=
  scan_closingQuote (b := []) hk fun _ hc => absurd hc List.not_mem_nil

/-- Within an argument there is no closing quotation mark. -/
theorem not_closingQuote (hs : lf ∉ s) :
    RuleName.closingQuote.rule.length .param false (quotation :: (s ++ quotation :: lf :: v)) ≠
      some m := by
  intro hlen
  obtain ⟨b, s', hb, hcut⟩ := blank_of_closingQuote hlen
  have hline : ∀ {u x : Bytes}, lf ∉ u → (u ++ lf :: x).takeWhile (· ≠ lf) = u := by
    intro u x hu
    rw [List.takeWhile_append_of_pos fun c hc => by simpa using fun h : c = lf => hu (h ▸ hc)]
    simp
  have hbl : lf ∉ b := fun h => absurd (hb lf h) (by decide)
  have hsl : lf ∉ s ++ [quotation] := fun h =>
    (List.mem_append.1 h).elim hs fun h => absurd (List.mem_singleton.1 h) (by decide)
  have hsplit : s ++ quotation :: lf :: v = (s ++ [quotation]) ++ lf :: v := by simp
  have hsame : s ++ [quotation] = b := by
    rw [← hline (x := v) hsl, ← hline (x := s') hbl, ← hsplit, hcut]
  exact absurd (hb quotation (by simp [← hsame])) (by decide)

/-- A piece of the content that does not end it. -/
structure Piece (popen : Bytes → Option Process) (t : Token) (w : Bytes) : Prop where
  exp : exp popen t = .ok (textOf w)
  ne_quote : t ≠ .quote
  ne_yesNoId : ∀ sval, t ≠ .yesNoId sval

theorem piece_ctrlChar (w : Bytes) : Piece popen (.ctrlChar (textOf w)) w :=
  ⟨rfl, nofun, nofun⟩

theorem piece_envVar (w : Bytes) : Piece popen (.envVar (textOf w)) w :=
  ⟨rfl, nofun, nofun⟩

theorem piece_textId (w : Bytes) : Piece popen (.textId (textOf w)) w :=
  ⟨rfl, nofun, nofun⟩

variable (sub) in
/-- A rule for names stops before the closing quotation mark. -/
theorem scan_name {f : Text → Token} (havoids : n.pattern.avoids stops = true)
    (haction : ∀ w, n.action w .param = (emit (.token (f (textOf w))), .param))
    (hb : best rcScanner.rules .param false (s ++ quotation :: lf :: v) = some (n.rule, m)) :
    ∃ w s', s = w ++ s' ∧ w ≠ [] ∧
      rcScanner.scan sub .param false (s ++ quotation :: lf :: v) =
        (.token (f (textOf w)) :: (rcScanner.scan sub .param false (s' ++ quotation :: lf :: v)).1,
          (rcScanner.scan sub .param false (s' ++ quotation :: lf :: v)).2) := by
  obtain ⟨-, -, hlong, hpos⟩ := Rule.length_eq_some (best_mem hb).2
  have hstop : ∀ c ∈ (quotation :: lf :: v).head?, c ∈ stops := fun c hc => by
    cases hc
    exact List.mem_cons_self ..
  have hnone : ∀ c ∈ ([] : Bytes).head?, c ∈ stops := fun c hc => nomatch hc
  have hsame : n.pattern.longest (s ++ quotation :: lf :: v) = n.pattern.longest s := by
    simpa using Pattern.longest_append_of_avoids havoids s hstop hnone
  obtain ⟨hle, hmem⟩ := Pattern.take_mem_of_longest (hsame.symm.trans hlong)
  have hlength : (s.take m).length = m := List.length_take_of_le hle
  have hne : s.take m ≠ [] := List.length_pos_iff.1 (hlength.symm ▸ hpos)
  have hline : bolAfter lf false (s.take m) = false :=
    bolAfter_of_notMem hne (Pattern.notMem_of_avoids havoids hmem lf (by decide))
  have hsplit : s ++ quotation :: lf :: v =
      s.take m ++ (s.drop m ++ quotation :: lf :: v) := by
    rw [← List.append_assoc, List.take_append_drop]
  refine ⟨s.take m, s.drop m, (List.take_append_drop m s).symm, hne, ?_⟩
  rw [hsplit] at hb ⊢
  rw [scan_emit (n := n) (by rw [hb, hlength]) (haction _), hline]

variable (popen sub v) in
/-- What the scanner finds at the beginning of a text in an argument. -/
theorem scan_content (hs : ∀ d ∈ c :: s, d ≠ lf ∧ d ≠ backquote) :
    ∃ w s' t, c :: s = w ++ s' ∧ w ≠ [] ∧ Piece popen t w ∧
      rcScanner.scan sub .param false (c :: s ++ quotation :: lf :: v) =
        (.token t :: (rcScanner.scan sub .param false (s' ++ quotation :: lf :: v)).1,
          (rcScanner.scan sub .param false (s' ++ quotation :: lf :: v)).2) := by
  obtain ⟨hlf, hback⟩ := hs c (List.mem_cons_self ..)
  obtain ⟨n, m, hb, hn⟩ := best_param hlf false (s ++ quotation :: lf :: v)
  rw [← List.cons_append] at hb
  -- a command needs a backquote, and a closing mark a line end
  rcases hn with ⟨rfl, rfl⟩ | rfl | rfl | rfl | rfl
  · have hline : bolAfter lf false [c] = false := decide_eq_false hlf
    have hstep : rcScanner.scan sub .param false ([c] ++ (s ++ quotation :: lf :: v)) = _ :=
      scan_emit hb rfl
    rw [hline] at hstep
    exact ⟨[c], s, .ctrlChar (textOf [c]), rfl, List.cons_ne_nil _ _, piece_ctrlChar [c], hstep⟩
  · obtain ⟨-, -, hlong, -⟩ := Rule.length_eq_some (best_mem hb).2
    exact absurd (Pattern.eq_of_longest_lit_seq hlong) hback
  · obtain ⟨w, s', hsplit, hne, hscan⟩ := scan_name sub (f := .envVar) (by decide) (fun _ => rfl) hb
    exact ⟨w, s', .envVar (textOf w), hsplit, hne, piece_envVar w, hscan⟩
  · obtain ⟨w, s', hsplit, hne, hscan⟩ := scan_name sub (f := .textId) (by decide) (fun _ => rfl) hb
    exact ⟨w, s', .textId (textOf w), hsplit, hne, piece_textId w, hscan⟩
  · obtain ⟨-, -, hlong, -⟩ := Rule.length_eq_some (best_mem hb).2
    obtain rfl : c = quotation := Pattern.eq_of_longest_lit_seq hlong
    exact absurd (best_mem hb).2
      (not_closingQuote fun h => (hs lf (List.mem_cons_of_mem _ h)).1 rfl)

end Content

/-! ### Steps of the parser -/

/-- One call more. -/
def callThen (c : Command) (file : Rcfile) : Rcfile := ⟨c :: file.commands, file.error⟩

section Parse

variable {popen : Bytes → Option Process} {sub : Bytes → StartCondition → Scan Event StartCondition}
  {st st' : ParserState} {g : Globals} {t : Token} {events : List Event} {o : Opening}

theorem rcparse_shift (h : st.step popen t = .ok (st', none)) :
    rcparse popen st g (.token t :: events) = rcparse popen st' g events := by
  rw [rcparse_token, h]
  rfl

theorem rcparse_call {c : Command} (h : st.step popen t = .ok (st', some c)) :
    rcparse popen st g (.token t :: events) = callThen c (rcparse popen st' g events) := by
  rw [rcparse_token, h]
  rfl

/-- The rest of an rcfile, from the beginning of a line on. -/
def readFrom (popen : Bytes → Option Process) (sub : Bytes → StartCondition → Scan Event StartCondition)
    (g : Globals) (v : Bytes) : Rcfile :=
  rcparse popen .commands g (rcScanner.scan sub .initial true v).1

/-- Behind a command there is a line end. -/
theorem readFrom_newline {k : StartCondition} {bol : Bool} {v : Bytes} :
    rcparse popen .commands g (rcScanner.scan sub k bol (lf :: v)).1 =
      readFrom popen sub (g.after .newline) v := by
  rw [scan_newline, rcparse_newline]
  rfl

/-- A part of an argument is a text. -/
theorem val_textOf (arg : Text) {w : Bytes} (hw : ∀ c ∈ w, c ∈ arg.val) : (textOf w).val = w :=
  congrArg Subtype.val
    (textOf_val (fun h => arg.property.1 (hw _ h)) fun h => arg.property.2 (hw _ h))

theorem textOf_append {acc arg : Text} {s w s' : Bytes} (harg : arg.val = acc.val ++ s)
    (hsplit : s = w ++ s') : arg.val = (catText acc (textOf w)).val ++ s' := by
  show _ = acc.val ++ (textOf w).val ++ s'
  rw [val_textOf arg fun c hc => by simp [harg, hsplit, hc], harg, hsplit,
    List.append_assoc]

theorem content_ne {arg : Text} (hback : backquote ∉ arg.val) :
    ∀ d ∈ arg.val, d ≠ lf ∧ d ≠ backquote := by
  refine fun d hd => ⟨?_, ?_⟩
  · rintro rfl
    exact arg.property.1 hd
  · rintro rfl
    exact hback hd

/-- **The content of a string.** The pieces that the scanner finds are put together again. -/
theorem parse_content {s v : Bytes} {acc arg : Text} (hback : backquote ∉ arg.val)
    (harg : arg.val = acc.val ++ s) :
    rcparse popen (.exps o acc) g
        (rcScanner.scan sub .param false (s ++ quotation :: lf :: v)).1 =
      callThen (o.command arg 0) (readFrom popen sub (g.after .newline) v) := by
  induction hn : s.length using Nat.strong_induction_on generalizing s acc with
  | _ len ih =>
    rcases s with _ | ⟨c, s⟩
    · have hsame : arg = acc := Subtype.ext (harg.trans (List.append_nil _))
      rw [List.nil_append, scan_end (Or.inl rfl), rcparse_call rfl, readFrom_newline, hsame]
    · have hs : ∀ d ∈ c :: s, d ≠ lf ∧ d ≠ backquote := fun d hd => by
        have hmem : d ∈ arg.val := harg ▸ List.mem_append_right _ hd
        refine ⟨?_, ?_⟩
        · rintro rfl
          exact arg.property.1 hmem
        · rintro rfl
          exact hback hmem
      obtain ⟨w, s', t, hsplit, hne, hpiece, hscan⟩ :=
        scan_content sub popen v hs
      have hstep : (ParserState.exps o acc).step popen t =
          .ok (.exps o (catText acc (textOf w)), none) := by
        have hmap : (exp popen t).map (fun sval => (ParserState.exps o (catText acc sval), none)) =
            .ok (.exps o (catText acc (textOf w)), (none : Option Command)) := by
          rw [hpiece.exp]
          rfl
        cases t
        case quote => exact absurd rfl hpiece.ne_quote
        all_goals exact hmap
      have hshort : s'.length < len := by
        have hlen := congrArg List.length hsplit
        have hpos := List.length_pos_iff.2 hne
        rw [List.length_append] at hlen
        omega
      rw [hscan, rcparse_shift hstep]
      exact ih _ hshort (textOf_append harg hsplit) rfl

/-! ### Arguments -/

variable {k : StartCondition} {v : Bytes}

theorem reads_str {arg : Text} (hform : o.word.form.argument = .str) (hk : k.inclusive = true)
    (hbool : k ≠ .paramBool) (harg : IsString arg) :
    rcparse popen (.operator o) g (rcScanner.scan sub k false (quoted arg ++ lf :: v)).1 =
      callThen (o.command arg 0) (readFrom popen sub (g.after .newline) v) := by
  have hopen : (ParserState.operator o).step popen .quote = .ok (.quote o, none) := by
    rw [ParserState.step, hform]
    rfl
  obtain ⟨c, s, hcs⟩ := List.exists_cons_of_ne_nil harg.1
  have hquoted : quoted arg ++ lf :: v = quotation :: (c :: s ++ quotation :: lf :: v) := by
    rw [← hcs]
    simp [quoted]
  obtain ⟨w, s', t, hsplit, -, hpiece, hscan⟩ := scan_content sub popen v
    (hcs ▸ content_ne harg.2)
  have hfirst : (ParserState.quote o).step popen t = .ok (.exps o (textOf w), none) := by
    have hmap : (exp popen t).map (fun sval => (ParserState.exps o sval, none)) =
        .ok (.exps o (textOf w), (none : Option Command)) := by
      rw [hpiece.exp]
      rfl
    cases t
    case yesNoId sval => exact absurd rfl (hpiece.ne_yesNoId sval)
    all_goals
      simp only [ParserState.step, hform]
      exact hmap
  have hval : arg.val = (textOf w).val ++ s' := by
    rw [val_textOf arg fun c' hc' => by simp [hcs, hsplit, hc'], hcs, hsplit]
  rw [hquoted, scan_openingQuote hk hbool, rcparse_shift hopen, hscan, rcparse_shift hfirst]
  exact parse_content harg.2 hval

theorem reads_yesNo {arg : Text} (hform : o.word.form.argument = .yesNo) (harg : IsYesNo arg) :
    rcparse popen (.operator o) g (rcScanner.scan sub .paramBool false (quoted arg ++ lf :: v)).1 =
      callThen (o.command arg 0) (readFrom popen sub (g.after .newline) v) := by
  have hopen : (ParserState.operator o).step popen .quote = .ok (.quote o, none) := by
    rw [ParserState.step, hform]
    rfl
  have hyesNo : (ParserState.quote o).step popen (.yesNoId (textOf arg)) =
      .ok (.yesNo o (textOf arg), none) := by
    simp only [ParserState.step, hform]
  obtain ⟨c, s, hcs⟩ : ∃ c s, arg.val = c :: s := by
    refine List.exists_cons_of_ne_nil fun h => ?_
    rw [IsYesNo, h] at harg
    rcases harg with h | h <;> exact absurd h (by decide)
  have hc : c ∉ separators := by
    rw [IsYesNo, hcs] at harg
    rcases harg with h | h
    all_goals
      rcases eq_or_eq_of_toupper (List.cons.inj h).1 with rfl | rfl
      all_goals decide
  have hopening : ∀ b s', (∀ c ∈ b, isblank c = true) →
      c :: (s ++ quotation :: lf :: v) ≠ b ++ lf :: s' := by
    rintro (_ | ⟨d, b⟩) s' hb hsame
    · obtain ⟨rfl, -⟩ := List.cons.inj hsame
      exact hc (by decide)
    · obtain ⟨rfl, -⟩ := List.cons.inj hsame
      have hblank := hb c (List.mem_cons_self ..)
      simp only [isblank, Bool.or_eq_true, decide_eq_true_eq] at hblank
      rcases hblank with rfl | rfl <;> exact hc (by decide)
  have hquoted : quoted arg ++ lf :: v = quotation :: c :: (s ++ quotation :: lf :: v) := by
    rw [hcs]
    simp [quoted]
  have hback : c :: (s ++ quotation :: lf :: v) = arg.val ++ quotation :: lf :: v := by
    rw [hcs]
    rfl
  rw [hquoted, scan_openingQuote_bool hopening, rcparse_shift hopen, hback, scan_yesNo harg,
    rcparse_shift hyesNo, scan_end (Or.inr rfl), rcparse_call rfl, readFrom_newline,
    textOf_text]

theorem reads_num {t : Bytes} {n : Int32} (hform : o.word.form.argument = .num)
    (hn : IsNumeral t n) :
    rcparse popen (.operator o) g (rcScanner.scan sub .paramNum false (t ++ lf :: v)).1 =
      callThen (o.command (textOf []) n) (readFrom popen sub (g.after .newline) v) := by
  have hnum : (ParserState.operator o).step popen (.numId n) =
      .ok (.commands, some (o.command (textOf []) n)) := by
    rw [ParserState.step, hform]
    rfl
  have hstop : ∀ c ∈ (lf :: v).head?, c ∈ stops := fun c hc => by
    cases hc
    decide
  obtain ⟨c, s, rfl, hc, hs⟩ := hn.exists_cons
  rw [scan_numId hc hs hstop, atoi_of_isNumeral hn, rcparse_call hnum, readFrom_newline]

/-! ### Keywords and operators -/

theorem begins_inclusive (w : Word) : (w.begins.getD .initial).inclusive = true := by
  cases w <;> rfl

/-- A blank ends a keyword or a number. -/
theorem blank_stops (x : Bytes) : ∀ c ∈ (32 :: x : Bytes).head?, c ∈ stops := fun c hc => by
  cases hc
  decide

variable {w : Word} {u x s : Bytes} {operat : Operator} {m : Int32}

/-- `KEYWORD = ` in front of an argument. -/
theorem reads_opening (hu : u.map toupper = w.text.map toupper) (hform : w.form.scored = false)
    (hop : operat = .equal ∨ w.form.notEqual = true) :
    readFrom popen sub g (u ++ 32 :: (operat.text ++ 32 :: x)) =
      rcparse popen (.operator ⟨w, textOf u, 0, operat⟩) g
        (rcScanner.scan sub (w.begins.getD .initial) false x).1 := by
  have hk := begins_inclusive w
  have hstep : (ParserState.word w (textOf u)).step popen (.operator operat) =
      .ok (.operator ⟨w, textOf u, 0, operat⟩, none) := by
    rcases hop with rfl | hop
    · simp [ParserState.step, hform]
    · simp [ParserState.step, hform, hop]
  rw [readFrom, scan_word hu (blank_stops _), rcparse_shift rfl, scan_blank hk (by decide),
    scan_operator hk, rcparse_shift hstep, scan_blank hk (by decide)]

/-- `KEYWORD number = ` -/
theorem reads_scoredOpening (hu : u.map toupper = w.text.map toupper)
    (hform : w.form.scored = true) (hbegins : w.begins.getD .initial = .paramNum)
    (hop : operat = .equal ∨ w.form.notEqual = true) (hm : IsNumeral s m) :
    readFrom popen sub g (u ++ 32 :: (s ++ 32 :: (operat.text ++ 32 :: x))) =
      rcparse popen (.operator ⟨w, textOf u, m, operat⟩) g
        (rcScanner.scan sub .paramNum false x).1 := by
  have hk : StartCondition.paramNum.inclusive = true := rfl
  have hnum : (ParserState.word w (textOf u)).step popen (.numId m) =
      .ok (.scored w (textOf u) m, none) := by
    simp [ParserState.step, hform]
  have hstep : (ParserState.scored w (textOf u) m).step popen (.operator operat) =
      .ok (.operator ⟨w, textOf u, m, operat⟩, none) := by
    rcases hop with rfl | hop
    · simp [ParserState.step]
    · simp [ParserState.step, hop]
  have hvalue := atoi_of_isNumeral hm
  obtain ⟨c, t, rfl, hc, ht⟩ := hm.exists_cons
  rw [readFrom, scan_word hu (blank_stops _), rcparse_shift rfl, hbegins, scan_blank hk (by decide),
    scan_numId hc ht (blank_stops _), hvalue, rcparse_shift hnum, scan_blank hk (by decide),
    scan_operator hk, rcparse_shift hstep, scan_blank hk (by decide)]

theorem line_append (u x v : Bytes) (operat : Operator) :
    line u operat x ++ v = u ++ 32 :: (operat.text ++ 32 :: (x ++ lf :: v)) := by
  have hblank : bytes " " = [32] := rfl
  simp [line, hblank]

/-! ### Lines of the three kinds -/

theorem readFrom_strLine {arg : Text} (hform : w.form = ⟨false, w.form.notEqual, .str⟩)
    (hbegins : w.begins.getD .initial = .initial) (hu : u.map toupper = w.text.map toupper)
    (hop : operat = .equal ∨ w.form.notEqual = true) (harg : IsString arg) :
    readFrom popen sub g (line u operat (quoted arg) ++ v) =
      callThen (Opening.command ⟨w, textOf u, 0, operat⟩ arg 0)
        (readFrom popen sub (g.after .newline) v) := by
  have hkind : w.form.argument = .str := by rw [hform]
  rw [line_append, reads_opening hu (by rw [hform]) hop, hbegins]
  exact reads_str (o := ⟨w, textOf u, 0, operat⟩) hkind rfl (by decide) harg

theorem readFrom_yesNoLine {arg : Text} (hform : w.form = ⟨false, false, .yesNo⟩)
    (hbegins : w.begins.getD .initial = .paramBool) (hu : u.map toupper = w.text.map toupper)
    (harg : IsYesNo arg) :
    readFrom popen sub g (line u .equal (quoted arg) ++ v) =
      callThen (Opening.command ⟨w, textOf u, 0, .equal⟩ arg 0)
        (readFrom popen sub (g.after .newline) v) := by
  have hkind : w.form.argument = .yesNo := by rw [hform]
  rw [line_append, reads_opening hu (by rw [hform]) (Or.inl rfl), hbegins]
  exact reads_yesNo (o := ⟨w, textOf u, 0, .equal⟩) hkind harg

theorem readFrom_numLine {t : Bytes} {n : Int32} (hform : w.form = ⟨false, false, .num⟩)
    (hbegins : w.begins.getD .initial = .paramNum) (hu : u.map toupper = w.text.map toupper)
    (hn : IsNumeral t n) :
    readFrom popen sub g (line u .equal t ++ v) =
      callThen (Opening.command ⟨w, textOf u, 0, .equal⟩ (textOf []) n)
        (readFrom popen sub (g.after .newline) v) := by
  have hkind : w.form.argument = .num := by rw [hform]
  rw [line_append, reads_opening hu (by rw [hform]) (Or.inl rfl), hbegins]
  exact reads_num (o := ⟨w, textOf u, 0, .equal⟩) hkind hn

theorem scored_append (u s : Bytes) : u ++ bytes " " ++ s ++ x = u ++ 32 :: (s ++ x) := by
  have hblank : bytes " " = [32] := rfl
  simp [hblank]

theorem readFrom_scoreLine {arg : Text} (hform : w.form = ⟨true, true, .str⟩)
    (hbegins : w.begins.getD .initial = .paramNum) (hu : u.map toupper = w.text.map toupper)
    (hm : IsNumeral s m) (harg : IsString arg) :
    readFrom popen sub g (line (u ++ bytes " " ++ s) operat (quoted arg) ++ v) =
      callThen (Opening.command ⟨w, textOf u, m, operat⟩ arg 0)
        (readFrom popen sub (g.after .newline) v) := by
  have hkind : w.form.argument = .str := by rw [hform]
  rw [line_append, scored_append,
    reads_scoredOpening hu (by rw [hform]) hbegins (Or.inr (by rw [hform])) hm]
  exact reads_str (o := ⟨w, textOf u, m, operat⟩) hkind rfl (by decide) harg

theorem readFrom_sizeScoreLine {t : Bytes} {n : Int32} (hform : w.form = ⟨true, false, .num⟩)
    (hbegins : w.begins.getD .initial = .paramNum) (hu : u.map toupper = w.text.map toupper)
    (hm : IsNumeral s m) (hn : IsNumeral t n) :
    readFrom popen sub g (line (u ++ bytes " " ++ s) .equal t ++ v) =
      callThen (Opening.command ⟨w, textOf u, m, .equal⟩ (textOf []) n)
        (readFrom popen sub (g.after .newline) v) := by
  have hkind : w.form.argument = .num := by rw [hform]
  rw [line_append, scored_append,
    reads_scoredOpening hu (by rw [hform]) hbegins (Or.inl rfl) hm]
  exact reads_num (o := ⟨w, textOf u, m, .equal⟩) hkind hn

/-! ### Whole rcfiles -/

/-- A line makes the call of its command. -/
theorem readFrom_line {c : Command} {l : Bytes} (h : Line c l) (v : Bytes) :
    readFrom popen sub g (l ++ v) = callThen c (readFrom popen sub (g.after .newline) v) := by
  cases h with
  | @allowRule keyword arg operat hkey harg =>
    have hval := congrArg (fun t => callThen (.allowRule t operat arg)
      (readFrom popen sub (g.after .newline) v)) (textOf_text keyword)
    simp only [List.mem_cons, List.not_mem_nil, or_false] at hkey
    rcases hkey with hkey | hkey | hkey
    · exact (readFrom_strLine (w := .allow) rfl rfl (hkey.trans (by decide)) (Or.inr rfl) harg).trans hval
    · exact (readFrom_strLine (w := .allowCase) rfl rfl (hkey.trans (by decide)) (Or.inr rfl) harg).trans
        hval
    · exact (readFrom_strLine (w := .allowNocase) rfl rfl (hkey.trans (by decide)) (Or.inr rfl)
        harg).trans hval
  | delDuplicates hkey harg =>
    exact readFrom_yesNoLine (w := .delDuplicates) rfl rfl (hkey.trans (by decide)) harg
  | @denyRule keyword arg operat hkey harg =>
    have hval := congrArg (fun t => callThen (.denyRule t operat arg)
      (readFrom popen sub (g.after .newline) v)) (textOf_text keyword)
    simp only [List.mem_cons, List.not_mem_nil, or_false] at hkey
    rcases hkey with hkey | hkey | hkey
    · exact (readFrom_strLine (w := .deny) rfl rfl (hkey.trans (by decide)) (Or.inr rfl) harg).trans hval
    · exact (readFrom_strLine (w := .denyCase) rfl rfl (hkey.trans (by decide)) (Or.inr rfl) harg).trans
        hval
    · exact (readFrom_strLine (w := .denyNocase) rfl rfl (hkey.trans (by decide)) (Or.inr rfl)
        harg).trans hval
  | highscore hkey hn => exact readFrom_numLine (w := .highscore) rfl rfl (hkey.trans (by decide)) hn
  | logfile hkey harg =>
    exact readFrom_strLine (w := .logfile) rfl rfl (hkey.trans (by decide)) (Or.inl rfl) harg
  | maxlength hkey hn => exact readFrom_numLine (w := .maxlength) rfl rfl (hkey.trans (by decide)) hn
  | maxsizeAllow hkey hn =>
    exact readFrom_numLine (w := .maxsizeAllow) rfl rfl (hkey.trans (by decide)) hn
  | maxsizeDeny hkey hn =>
    exact readFrom_numLine (w := .maxsizeDeny) rfl rfl (hkey.trans (by decide)) hn
  | maxsizeScore hkey hm hn =>
    exact readFrom_sizeScoreLine (w := .maxsizeScore) rfl rfl (hkey.trans (by decide)) hm hn
  | normal hkey harg => exact readFrom_yesNoLine (w := .normal) rfl rfl (hkey.trans (by decide)) harg
  | server hkey harg =>
    exact readFrom_strLine (w := .server) rfl rfl (hkey.trans (by decide)) (Or.inl rfl) harg
  | user hkey harg =>
    exact readFrom_strLine (w := .user) rfl rfl (hkey.trans (by decide)) (Or.inl rfl) harg
  | pass hkey harg =>
    exact readFrom_strLine (w := .pass) rfl rfl (hkey.trans (by decide)) (Or.inl rfl) harg
  | protocol hkey harg =>
    exact readFrom_strLine (w := .protocol) rfl rfl (hkey.trans (by decide)) (Or.inl rfl) harg
  | port hkey hn => exact readFrom_numLine (w := .port) rfl rfl (hkey.trans (by decide)) hn
  | regCase hkey harg => exact readFrom_yesNoLine (w := .regCase) rfl rfl (hkey.trans (by decide)) harg
  | regType hkey harg =>
    exact readFrom_strLine (w := .regType) rfl rfl (hkey.trans (by decide)) (Or.inl rfl) harg
  | showHeaders hkey harg =>
    exact readFrom_strLine (w := .showHeaders) rfl rfl (hkey.trans (by decide)) (Or.inl rfl) harg
  | @score keyword s m arg operat hkey hm harg =>
    have hval := congrArg (fun t => callThen (.score t m operat arg)
      (readFrom popen sub (g.after .newline) v)) (textOf_text keyword)
    simp only [List.mem_cons, List.not_mem_nil, or_false] at hkey
    rcases hkey with hkey | hkey | hkey
    · exact (readFrom_scoreLine (w := .score) rfl rfl (hkey.trans (by decide)) hm harg).trans hval
    · exact (readFrom_scoreLine (w := .scoreCase) rfl rfl (hkey.trans (by decide)) hm harg).trans hval
    · exact (readFrom_scoreLine (w := .scoreNocase) rfl rfl (hkey.trans (by decide)) hm harg).trans hval
  | test hkey harg => exact readFrom_yesNoLine (w := .test) rfl rfl (hkey.trans (by decide)) harg
  | timeout hkey hn => exact readFrom_numLine (w := .timeout) rfl rfl (hkey.trans (by decide)) hn
  | verbose hkey hn => exact readFrom_numLine (w := .verbose) rfl rfl (hkey.trans (by decide)) hn

theorem readFrom_lines {commands : List Command} {lines : List Bytes}
    (h : List.Forall₂ Line commands lines) (g : Globals) :
    readFrom popen sub g lines.flatten = ⟨commands, none⟩ := by
  induction h generalizing g with
  | nil => rfl
  | cons hline _ ih =>
    rw [List.flatten_cons, readFrom_line hline, ih]
    rfl

/-- **Round trip.** An rcfile with one line for each command makes the calls of these commands, in
order, whatever the files and the shell are. -/
theorem readRcfile_lines (popen : Bytes → Option Process) (wordexp : Bytes → Option (List Bytes))
    (files : Bytes → Option Bytes) {commands : List Command} {lines : List Bytes}
    (h : List.Forall₂ Line commands lines) :
    readRcfile popen wordexp files lines.flatten = ⟨commands, none⟩ :=
  readFrom_lines h _

/-- A rule with quotation marks, blanks and other signs in its expression. -/
theorem readRcfile_lines_rule : readRcfile (fun _ => none) (fun _ => none) (fun _ => none)
    (line (bytes "Score" ++ bytes " " ++ bytes "+10") .notEqual (quoted (bytes "\x22$b\x22 #"))) =
      ⟨[.score ⟨bytes "Score", by decide⟩ 10 .notEqual ⟨bytes "\x22$b\x22 #", by decide⟩], none⟩ := by
  have hscore : Line (.score ⟨bytes "Score", by decide⟩ 10 .notEqual
      ⟨bytes "\x22$b\x22 #", by decide⟩)
      (line (bytes "Score" ++ bytes " " ++ bytes "+10") .notEqual
        (quoted (bytes "\x22$b\x22 #"))) :=
    .score .notEqual (by decide)
      ⟨bytes "+", bytes "10", rfl, by decide, List.all_eq_true.1 rfl, Or.inl ⟨Or.inr rfl, by decide⟩⟩
      ⟨by decide, by decide⟩
  have hread := readRcfile_lines (fun _ => none) (fun _ => none) (fun _ => none)
    (.cons hscore .nil)
  rwa [List.flatten_singleton] at hread

end Parse

end Mailfilter.Rc
