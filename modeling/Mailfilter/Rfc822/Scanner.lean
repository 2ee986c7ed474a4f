import Mailfilter.CString
import Mailfilter.Flex.Scanner

/-!
# The scanner of message headers

The rules of `rfc822.ll`, as flex reads them with the option `-i` (letters match in both cases).

* `topline`, `tag`, `body`, `continuation`, `headerEnd`, `blank` and `newline`: the seven rules, in
  the order of the description;
* `rfcScanner`, and `rfclex`, all tokens of a text;
* `mem_topline`, …, `mem_headerEnd`: what the patterns match.
-/

namespace Mailfilter.Rfc822

open Flex

/-- The tokens of `rfc822.yy`. -/
inductive TokenKind
  | headerEnd
  | topline
  | tag
  | body
  | bodyMultiLine
  deriving DecidableEq

/-- A token with its semantic value. -/
structure Token where
  kind : TokenKind
  sval : Bytes
  deriving DecidableEq

/-- The start conditions: `INITIAL`, the exclusive `BODY_READY` and the inclusive `TAG_READY`. -/
inductive StartCondition
  | initial
  | bodyReady
  | tagReady
  deriving DecidableEq

abbrev cr : UInt8 := 13

abbrev lf : UInt8 := 10

/-- `NL` -/
abbrev crlf : Bytes := [cr, lf]

/-! ### Patterns -/

/-- `.` -/
def dot : Pattern UInt8 := .cls fun c => c ≠ lf

/-- `[[:space:]]` -/
def space : Pattern UInt8 := .cls isspace

/-- A letter in either case. -/
def letter (c : Char) : Pattern UInt8 := .cls fun d => toupper d = toupper (chr c)

/-- A constant. -/
def word : Bytes → Pattern UInt8
  | [] => .epsilon
  | c :: s => .seq (.lit c) (word s)

/-- `^From[[:space:]].*\r\n` without the anchor. -/
def toplinePattern : Pattern UInt8 :=
  .seq (letter 'F') (.seq (letter 'r') (.seq (letter 'o') (.seq (letter 'm')
    (.seq space (.seq (.star dot) (word crlf))))))

/-- `^[[:alpha:]]+([[:alnum:]]|\-)*\:[[:space:]]*` without the anchor. -/
def tagPattern : Pattern UInt8 :=
  .seq (.plus (.cls isalpha)) (.seq (.star (.cls fun c => isalnum c || c = chr '-'))
    (.seq (.lit (chr ':')) (.star space)))

/-- `(.*|[[:space:]])\r\n` -/
def bodyPattern : Pattern UInt8 := .seq (.alt (.star dot) space) (word crlf)

/-- `^[[:space:]].*` without the anchor. -/
def continuationPattern : Pattern UInt8 := .seq space (.star dot)

/-- `\r\n\.\r\n` -/
def headerEndPattern : Pattern UInt8 := word (crlf ++ chr '.' :: crlf)

/-! ### Rules -/

/-- Is the start condition inclusive? -/
def StartCondition.inclusive : StartCondition → Bool
  | .bodyReady => false
  | _ => true

/-- `<INITIAL>{TOPLINE}{NL}` -/
def topline : Rule StartCondition Token UInt8 where
  active k := k = .initial
  bol := true
  pattern := toplinePattern
  action yytext k := (some ⟨.topline, cstr yytext⟩, k)

/-- `<INITIAL,TAG_READY>{TAG}[[:space:]]*` -/
def tag : Rule StartCondition Token UInt8 where
  active k := k.inclusive
  bol := true
  pattern := tagPattern
  action yytext _ := (some ⟨.tag, substrBeforeLast (chr ':') (cstr yytext)⟩, .bodyReady)

/-- `<BODY_READY>{BODY}{NL}`. The `snprintf` leaves the last two characters out. -/
def body : Rule StartCondition Token UInt8 where
  active k := k = .bodyReady
  bol := false
  pattern := bodyPattern
  action yytext _ :=
    let text := cstr yytext
    (some ⟨.body, if text.getLast? = some lf then text.take (text.length - 2) else text⟩, .initial)

/-- `^[[:space:]].*`. All white space becomes blanks. -/
def continuation : Rule StartCondition Token UInt8 where
  active k := k.inclusive
  bol := true
  pattern := continuationPattern
  action yytext _ :=
    (some ⟨.body, (cstr yytext).map fun c => if isspace c then chr ' ' else c⟩, .tagReady)

/-- `{NL}{HEADER_END}{NL}` -/
def headerEnd : Rule StartCondition Token UInt8 where
  active k := k.inclusive
  bol := false
  pattern := headerEndPattern
  action yytext k := (some ⟨.headerEnd, cstr yytext⟩, k)

/-- `<*>[ \t]` -/
def blank : Rule StartCondition Token UInt8 where
  active _ := true
  bol := false
  pattern := .cls fun c => c = chr ' ' || c = 9
  action _ k := (none, k)

/-- `<*>"\n"` -/
def newline : Rule StartCondition Token UInt8 where
  active _ := true
  bol := false
  pattern := .lit lf
  action _ _ := (none, .initial)

/-- The scanner `rfcFlexLexer`. -/
def rfcScanner : Scanner StartCondition Token UInt8 where
  rules := [topline, tag, body, continuation, headerEnd, blank, newline]
  newline := lf

/-- All tokens of a text. -/
def rfclex (text : Bytes) : List Token := rfcScanner.tokensFrom .initial true text

/-! ### What the patterns match -/

theorem mem_word {s w : Bytes} : w ∈ (word s).lang ↔ w = s := by
  induction s generalizing w with
  | nil => exact Pattern.mem_epsilon
  | cons c s ih =>
    rw [word, Pattern.mem_seq]
    simp only [Pattern.mem_lit, ih]
    simp [eq_comm]

theorem mem_star_dot {w : Bytes} : w ∈ (Pattern.star dot).lang ↔ lf ∉ w := by
  rw [dot, Pattern.mem_star_cls]
  simp only [decide_eq_true_eq]
  exact ⟨fun h hmem => h _ hmem rfl, fun h c hc he => h (he ▸ hc)⟩

theorem mem_space {w : Bytes} : w ∈ space.lang ↔ ∃ s, isspace s = true ∧ w = [s] := Pattern.mem_cls

theorem mem_letter {c : Char} {w : Bytes} :
    w ∈ (letter c).lang ↔ ∃ d, toupper d = toupper (chr c) ∧ w = [d] := by
  rw [letter, Pattern.mem_cls]; simp

/-- The names of fields. -/
def IsName (name : Bytes) : Prop :=
  ∃ c s, name = c :: s ∧ isalpha c = true ∧ ∀ d ∈ s, (isalnum d || d = chr '-') = true

theorem mem_tagPattern {w : Bytes} :
    w ∈ tagPattern.lang ↔ ∃ name sp, IsName name ∧ (∀ c ∈ sp, isspace c = true) ∧
      w = name ++ chr ':' :: sp := by
  simp only [tagPattern, Pattern.plus, space, Pattern.mem_seq, Pattern.mem_cls, Pattern.mem_star_cls,
    Pattern.mem_lit]
  constructor
  · rintro ⟨_, ⟨_, ⟨c, hc, rfl⟩, s, hs, rfl⟩, _, ⟨t, ht, _, ⟨_, rfl, sp, hsp, rfl⟩, rfl⟩, rfl⟩
    refine ⟨c :: (s ++ t), sp, ⟨c, s ++ t, rfl, hc, fun d hd => ?_⟩, hsp, by simp⟩
    rcases List.mem_append.1 hd with hd | hd
    · rw [isalnum, hs d hd]; rfl
    · exact ht d hd
  · rintro ⟨_, sp, ⟨c, s, rfl, hc, hs⟩, hsp, rfl⟩
    exact ⟨[c], ⟨[c], ⟨c, hc, rfl⟩, [], by simp, rfl⟩, s ++ chr ':' :: sp,
      ⟨s, hs, chr ':' :: sp, ⟨[chr ':'], rfl, sp, hsp, rfl⟩, rfl⟩, rfl⟩

theorem mem_bodyPattern {w : Bytes} :
    w ∈ bodyPattern.lang ↔
      ∃ m, (lf ∉ m ∨ ∃ s, isspace s = true ∧ m = [s]) ∧ w = m ++ crlf := by
  simp only [bodyPattern, Pattern.mem_seq, Pattern.mem_alt, mem_star_dot, mem_space, mem_word]
  constructor
  · rintro ⟨m, hm, _, rfl, rfl⟩; exact ⟨m, hm, rfl⟩
  · rintro ⟨m, hm, rfl⟩; exact ⟨m, hm, _, rfl, rfl⟩

theorem mem_continuationPattern {w : Bytes} :
    w ∈ continuationPattern.lang ↔ ∃ s m, isspace s = true ∧ lf ∉ m ∧ w = s :: m := by
  simp only [continuationPattern, space, Pattern.mem_cls_seq, mem_star_dot]

/-- The start of an mbox line: `From` and a white space. -/
def IsTopline (l : Bytes) : Prop :=
  ∃ f s m, f.map toupper = bytes "FROM" ∧ isspace s = true ∧ l = f ++ s :: m

theorem mem_toplinePattern {w : Bytes} :
    w ∈ toplinePattern.lang ↔ ∃ f s m, f.map toupper = bytes "FROM" ∧ isspace s = true ∧ lf ∉ m ∧
      w = f ++ s :: m ++ crlf := by
  simp only [toplinePattern, Pattern.mem_seq, mem_letter, mem_space, mem_star_dot, mem_word]
  constructor
  · rintro ⟨_, ⟨a, ha, rfl⟩, _, ⟨_, ⟨b, hb, rfl⟩, _, ⟨_, ⟨c, hc, rfl⟩, _, ⟨_, ⟨d, hd, rfl⟩,
      _, ⟨_, ⟨s, hs, rfl⟩, _, ⟨m, hm, _, rfl, rfl⟩, rfl⟩, rfl⟩, rfl⟩, rfl⟩, rfl⟩
    exact ⟨[a, b, c, d], s, m, by simp only [List.map_cons, List.map_nil, ha, hb, hc, hd]; rfl, hs,
      hm, rfl⟩
  · rintro ⟨f, s, m, hf, hs, hm, rfl⟩
    obtain ⟨a, b, c, d, rfl⟩ : ∃ a b c d, f = [a, b, c, d] := by
      have hlen : f.length = 4 := by simpa [bytes] using congrArg List.length hf
      exact List.length_eq_four.1 hlen
    have hfrom : bytes "FROM" = [toupper (chr 'F'), toupper (chr 'r'), toupper (chr 'o'),
      toupper (chr 'm')] := by decide
    simp only [hfrom, List.map_cons, List.map_nil, List.cons.injEq] at hf
    exact ⟨[a], ⟨a, hf.1, rfl⟩, _, ⟨[b], ⟨b, hf.2.1, rfl⟩, _, ⟨[c], ⟨c, hf.2.2.1, rfl⟩, _,
      ⟨[d], ⟨d, hf.2.2.2.1, rfl⟩, _, ⟨[s], ⟨s, hs, rfl⟩, _, ⟨m, hm, _, rfl, rfl⟩, rfl⟩, rfl⟩, rfl⟩,
      rfl⟩, rfl⟩

end Mailfilter.Rfc822
