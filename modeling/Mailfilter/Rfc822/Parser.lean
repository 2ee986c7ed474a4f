import Mailfilter.Grammar
import Mailfilter.Header
import Mailfilter.Rfc822.Scanner
import Mathlib.Data.Finset.Insert

/-!
# The parser of message headers

The grammar `rfc822.yy`, and the parser that bison makes of it.

* `rfcGrammar`, the rules of the grammar;
* `rfcparse`, the parser with its actions: a stack holds a tag and the bodies read so far, and
  whatever follows the bodies reduces them to an entry, which `addEntry` stores;
* `Follow`, the states of the parser without the semantic values, and `accepts`;
* `mem_language_iff_accepts`: the parser accepts the sentences of the grammar;
* `parse_ne_halt`: on a sentence the parser does not end the program, and `parse_ne_thrown`: with `-i`
  it does not reject a message-ID;
* `parse_invariant`: what every `addEntry` keeps, the parser keeps;
* `parse_entriesOk`: what holds of the tokens holds of the entries.
-/

namespace Mailfilter.Rfc822

open Grammar

/-! ### The grammar -/

/-- The nonterminals. -/
inductive Nonterminal
  | header
  | entry
  | bodies
  | theEnd
  deriving DecidableEq

open Nonterminal in
/-- The rules of `rfc822.yy`. -/
def rfcRules : List (ContextFreeRule TokenKind Nonterminal) :=
  [⟨header, []⟩,
    ⟨header, [.nonterminal header, .nonterminal entry]⟩,
    ⟨entry, [.nonterminal theEnd]⟩,
    ⟨entry, [.terminal .tag, .nonterminal bodies]⟩,
    ⟨bodies, [.terminal .body]⟩,
    ⟨bodies, [.nonterminal bodies, .terminal .body]⟩,
    ⟨theEnd, [.terminal .headerEnd]⟩]

def rfcGrammar : ContextFreeGrammar TokenKind where
  NT := Nonterminal
  initial := .header
  rules := rfcRules.toFinset

theorem mem_rules {r : ContextFreeRule TokenKind Nonterminal} :
    r ∈ rfcGrammar.rules ↔ r ∈ rfcRules :=
  List.mem_toFinset

/-! ### The parser -/

/-- How a call of the parser ends if it does not return: an exception of `addEntry` leaves it, or
`rfcerror` ends the program. -/
inductive Abort
  | thrown (e : WrongMessageIDException)
  | halt (h : Halt)
  deriving DecidableEq

/-- `rfcerror` -/
def rfcerror : Abort := .halt (.exit (-1) (bytes "Parser reported syntax error."))

/-- What is on the stack: a `header`, perhaps followed by a `TAG`, or by a `TAG` and `bodies`. -/
inductive ParserState
  | header
  | tag (t : Bytes)
  | bodies (t b : Bytes)
  deriving DecidableEq

/-- Shift a token behind a `header`. -/
def shift (tok : Token) : Except Abort ParserState :=
  match tok.kind with
  | .headerEnd => .ok .header
  | .tag => .ok (.tag tok.sval)
  | _ => .error rfcerror

/-- The reduction `entry: TAG bodies`. -/
def reduce (prefs : Preferences) (h : Header) (t b : Bytes) : Except Abort Header :=
  match h.addEntry prefs t b with
  | .ok h => .ok h
  | .error e => .error (.thrown e)

/-- The parser in some state, with the tokens still to come. -/
def parse (prefs : Preferences) : ParserState → Header → List Token → Except Abort Header
  | .header, h, [] => .ok h
  | .tag _, _, [] => .error rfcerror
  | .bodies t b, h, [] => reduce prefs h t b
  | .header, h, tok :: toks => do
    let st ← shift tok
    parse prefs st h toks
  | .tag t, h, tok :: toks =>
    if tok.kind = .body then parse prefs (.bodies t tok.sval) h toks else .error rfcerror
  | .bodies t b, h, tok :: toks =>
    if tok.kind = .body then parse prefs (.bodies t (b ++ tok.sval)) h toks
    else do
      -- the reduction comes before the token is looked at
      let h ← reduce prefs h t b
      let st ← shift tok
      parse prefs st h toks

/-- `rfcparse` -/
def rfcparse (prefs : Preferences) (h : Header) (toks : List Token) : Except Abort Header :=
  parse prefs .header h toks

/-! ### What the parser accepts -/

/-- The states of the parser without the semantic values. -/
inductive Follow
  | header
  | tag
  | bodies
  deriving DecidableEq

/-- The state after a token, unless the token is an error. -/
def Follow.step : Follow → TokenKind → Option Follow
  | .tag, .body => some .bodies
  | .tag, _ => none
  | .bodies, .body => some .bodies
  | _, .headerEnd => some .header
  | _, .tag => some .tag
  | _, _ => none

/-- The input may end. -/
def Follow.final : Follow → Bool
  | .tag => false
  | _ => true

/-- The automaton in state `q` accepts the rest of the input. -/
def accepts : Follow → List TokenKind → Bool
  | q, [] => q.final
  | q, k :: ks => (q.step k).any fun q' => accepts q' ks

theorem accepts_append {q : Follow} {ks ks' : List TokenKind} :
    accepts q (ks ++ ks') = (ks.foldlM Follow.step q).any fun q' => accepts q' ks' := by
  induction ks generalizing q with
  | nil => rfl
  | cons k ks ih =>
    rw [List.cons_append, accepts, List.foldlM_cons]
    cases q.step k with
    | none => rfl
    | some q' => exact ih

theorem accepts_iff {q : Follow} {w : List TokenKind} :
    accepts q w = true ↔ ∃ q', w.foldlM Follow.step q = some q' ∧ q'.final = true := by
  rw [← List.append_nil w, accepts_append, Option.any_eq_true]
  simp [accepts]

/-- What the nonterminals stand for: the words that lead the automaton from the states before them
to those behind them. -/
def interp : Nonterminal → Language TokenKind
  | .header => {w | ∃ q, w.foldlM Follow.step .header = some q ∧ q.final = true}
  | .entry => {w | ∀ q, q.final = true → ∃ q', w.foldlM Follow.step q = some q' ∧ q'.final = true}
  | .bodies => {w | w.foldlM Follow.step .tag = some .bodies}
  | .theEnd => {w | w = [.headerEnd]}

theorem interp_closed : ∀ r ∈ rfcRules, denote interp r.output ≤ interp r.input := by
  intro r hr w hw
  simp only [rfcRules, List.mem_cons, List.not_mem_nil, or_false] at hr
  rcases hr with rfl | rfl | rfl | rfl | rfl | rfl | rfl
  · obtain rfl : w = [] := hw
    exact ⟨.header, rfl, rfl⟩
  · obtain ⟨u, ⟨q, hu, hq⟩, _, ⟨v, hv, _, rfl, rfl⟩, rfl⟩ := hw
    obtain ⟨q', hv, hq'⟩ := hv q hq
    refine ⟨q', ?_, hq'⟩
    simp only [List.append_nil, List.foldlM_append]
    rw [hu]; exact hv
  · obtain ⟨_, rfl, _, rfl, rfl⟩ := hw
    intro q hq
    cases q with
    | header => exact ⟨.header, rfl, rfl⟩
    | tag => cases hq
    | bodies => exact ⟨.header, rfl, rfl⟩
  · obtain ⟨_, rfl, _, ⟨v, hv, _, rfl, rfl⟩, rfl⟩ := hw
    intro q hq
    have hv' : v.foldlM Follow.step .tag = some .bodies := hv
    refine ⟨.bodies, ?_, rfl⟩
    show ([TokenKind.tag] ++ (v ++ [])).foldlM Follow.step q = some .bodies
    rw [List.append_nil, List.foldlM_append]
    cases q with
    | header => exact hv'
    | tag => cases hq
    | bodies => exact hv'
  · obtain ⟨_, rfl, _, rfl, rfl⟩ := hw
    rfl
  · obtain ⟨u, hu, _, ⟨_, rfl, _, rfl, rfl⟩, rfl⟩ := hw
    have hu' : u.foldlM Follow.step .tag = some .bodies := hu
    show (u ++ ([TokenKind.body] ++ [])).foldlM Follow.step .tag = some .bodies
    rw [List.foldlM_append, hu']; rfl
  · obtain ⟨_, rfl, _, rfl, rfl⟩ := hw
    rfl

/-- What a nonterminal derives. -/
abbrev Derived (n : Nonterminal) (w : List TokenKind) : Prop :=
  Yields rfcGrammar [.nonterminal n] w

theorem derived_of_rule {n : Nonterminal} (out : List (Symbol TokenKind Nonterminal))
    (hr : ⟨n, out⟩ ∈ rfcRules) {w : List TokenKind} (h : Yields rfcGrammar out w) : Derived n w :=
  Yields.of_rule (g := rfcGrammar) (mem_rules.2 hr) h

/-- What the automaton has read when it is in a state: the derivations that the parser has found. -/
def Viable : Follow → List TokenKind → Prop
  | .header, w => Derived .header w
  | .tag, w => ∃ u, w = u ++ [.tag] ∧ Derived .header u
  | .bodies, w => ∃ u v, w = u ++ .tag :: v ∧ Derived .header u ∧ Derived .bodies v

/-- `header: header entry` -/
theorem derived_header {u v : List TokenKind} (hu : Derived .header u) (hv : Derived .entry v) :
    Derived .header (u ++ v) :=
  derived_of_rule [.nonterminal .header, .nonterminal .entry] (by decide) (hu.append hv)

/-- In a state in which the input may end, a `header` has been read. -/
theorem Viable.derived {q : Follow} {w : List TokenKind} (h : Viable q w) (hq : q.final = true) :
    Derived .header w := by
  cases q with
  | header => exact h
  | tag => cases hq
  | bodies =>
    obtain ⟨u, v, rfl, hu, hv⟩ := h
    refine derived_header hu
      (derived_of_rule [.terminal .tag, .nonterminal .bodies] (by decide) ?_)
    exact (Yields.terminal [TokenKind.tag]).append hv

/-- One token. -/
theorem Viable.step {q q' : Follow} {w : List TokenKind} {k : TokenKind} (h : Viable q w)
    (hk : q.step k = some q') : Viable q' (w ++ [k]) := by
  have hend : q.final = true → k = .headerEnd → Viable q' (w ++ [k]) := by
    rintro hq rfl
    obtain rfl : q' = .header := by cases q <;> cases hq <;> cases hk <;> rfl
    refine derived_header (h.derived hq) (derived_of_rule [.nonterminal .theEnd]
      (by decide) ?_)
    exact derived_of_rule [.terminal .headerEnd] (by decide) (.terminal [_])
  have htag : q.final = true → k = .tag → Viable q' (w ++ [k]) := by
    rintro hq rfl
    obtain rfl : q' = .tag := by cases q <;> cases hq <;> cases hk <;> rfl
    exact ⟨w, rfl, h.derived hq⟩
  cases q with
  | header => cases k <;> first | exact hend rfl rfl | exact htag rfl rfl | cases hk
  | tag =>
    cases k <;> cases hk
    obtain ⟨u, rfl, hu⟩ := h
    exact ⟨u, [.body], by simp, hu, derived_of_rule [.terminal .body] (by decide)
      (.terminal [_])⟩
  | bodies =>
    cases k with
    | headerEnd => exact hend rfl rfl
    | tag => exact htag rfl rfl
    | body =>
      cases hk
      obtain ⟨u, v, rfl, hu, hv⟩ := h
      refine ⟨u, v ++ [.body], by simp, hu, ?_⟩
      exact derived_of_rule [.nonterminal .bodies, .terminal .body] (by decide)
        (hv.append (.terminal [_]))
    | topline => cases hk
    | bodyMultiLine => cases hk

/-- A run. -/
theorem Viable.run {q q' : Follow} {w v : List TokenKind} (h : Viable q w)
    (hv : v.foldlM Follow.step q = some q') : Viable q' (w ++ v) := by
  induction v generalizing q w with
  | nil =>
    obtain rfl : q = q' := Option.some.inj hv
    rwa [List.append_nil]
  | cons k v ih =>
    rw [List.foldlM_cons] at hv
    cases hk : q.step k with
    | none => rw [hk] at hv; cases hv
    | some q₁ =>
      rw [hk] at hv
      simpa using ih (h.step hk) hv

/-- **The parser accepts the sentences of the grammar.** -/
theorem mem_language_iff_accepts (w : List TokenKind) :
    w ∈ rfcGrammar.language ↔ accepts .header w = true := by
  rw [accepts_iff]
  constructor
  · exact fun h => @language_le _ rfcGrammar interp (fun r hr => interp_closed r (mem_rules.1 hr)) _ h
  · rintro ⟨q, hw, hq⟩
    have hstart : Viable .header [] := derived_of_rule _ (by decide) (.terminal [])
    exact (hstart.run hw).derived hq

/-! ### Runs of the parser -/

/-- The state without the semantic values. -/
def ParserState.follow : ParserState → Follow
  | .header => .header
  | .tag _ => .tag
  | .bodies _ _ => .bodies

variable {prefs : Preferences}

theorem follow_shift {tok : Token} {q : Follow} (hq : q.final = true) (hbody : tok.kind ≠ .body) :
    (∃ st, shift tok = .ok st ∧ q.step tok.kind = some st.follow) ∨
      (shift tok = .error rfcerror ∧ q.step tok.kind = none) := by
  obtain ⟨k, sval⟩ := tok
  cases k with
  | headerEnd => exact Or.inl ⟨.header, rfl, by cases q <;> cases hq <;> rfl⟩
  | tag => exact Or.inl ⟨.tag sval, rfl, by cases q <;> cases hq <;> rfl⟩
  | body => exact absurd rfl hbody
  | topline => exact Or.inr ⟨rfl, by cases q <;> cases hq <;> rfl⟩
  | bodyMultiLine => exact Or.inr ⟨rfl, by cases q <;> cases hq <;> rfl⟩

theorem reduce_ne_halt {h : Header} {t b : Bytes} (halt : Halt) :
    reduce prefs h t b ≠ .error (.halt halt) := by
  unfold reduce
  split <;> simp

/-- On a sentence the parser does not end the program. -/
theorem parse_ne_halt {st : ParserState} {h : Header} {toks : List Token}
    (hacc : accepts st.follow (toks.map (·.kind)) = true) (halt : Halt) :
    parse prefs st h toks ≠ .error (.halt halt) := by
  induction toks generalizing st h with
  | nil =>
    cases st with
    | header => exact fun h => nomatch h
    | tag t => cases hacc
    | bodies t b => exact reduce_ne_halt halt
  | cons tok toks ih =>
    rw [List.map_cons, accepts, Option.any_eq_true] at hacc
    obtain ⟨q', hq', hacc⟩ := hacc
    -- behind a header, or behind bodies that have been reduced to one
    have hshift : ∀ h, st.follow.final = true → tok.kind ≠ .body →
        (shift tok >>= fun st => parse prefs st h toks) ≠ .error (.halt halt) := by
      intro h hq hbody
      rcases follow_shift hq hbody with ⟨st', hst', hstep⟩ | ⟨-, hstep⟩
      · rw [hst']
        rw [hstep] at hq'
        exact ih (Option.some.inj hq' ▸ hacc)
      · rw [hstep] at hq'; cases hq'
    cases st with
    | header =>
      rw [parse]
      refine hshift h rfl fun hbody => ?_
      rw [hbody] at hq'; cases hq'
    | tag t =>
      rw [parse]
      have hbody : tok.kind = .body := by
        by_contra hne
        cases hk : tok.kind <;> rw [hk] at hq' hne <;> first | exact hne rfl | cases hq'
      rw [if_pos hbody]
      rw [hbody] at hq'
      obtain rfl := Option.some.inj hq'
      exact ih hacc
    | bodies t b =>
      rw [parse]
      split_ifs with hbody
      · rw [hbody] at hq'
        obtain rfl := Option.some.inj hq'
        exact ih hacc
      · cases hr : reduce prefs h t b with
        | ok h' => exact hshift h' rfl hbody
        | error e => exact fun he => reduce_ne_halt halt (hr.trans he)

/-- With `-i` no message-ID is an error. -/
theorem parse_ne_thrown (hts : prefs.ignoreTimeStamp = true) (st : ParserState) (h : Header)
    (toks : List Token) (e : WrongMessageIDException) :
    parse prefs st h toks ≠ .error (.thrown e) := by
  have hreduce (h : Header) (t b : Bytes) : ∃ h', reduce prefs h t b = .ok h' := by
    obtain ⟨h', hadd⟩ := addEntry_ignoreTimeStamp hts h t b
    exact ⟨h', by rw [reduce, hadd]⟩
  induction toks generalizing st h with
  | nil =>
    cases st with
    | header => exact fun he => nomatch he
    | tag t => exact fun he => nomatch he
    | bodies t b =>
      obtain ⟨h', hok⟩ := hreduce h t b
      rw [parse, hok]
      exact fun he => nomatch he
  | cons tok toks ih =>
    have hshift (h : Header) :
        (shift tok >>= fun st => parse prefs st h toks) ≠ .error (.thrown e) := by
      obtain ⟨k, sval⟩ := tok
      cases k with
      | headerEnd => exact ih .header h
      | tag => exact ih (.tag sval) h
      | body => exact fun he => nomatch he
      | topline => exact fun he => nomatch he
      | bodyMultiLine => exact fun he => nomatch he
    cases st with
    | header => exact hshift h
    | tag t =>
      rw [parse]
      split_ifs
      · exact ih _ h
      · exact fun he => nomatch he
    | bodies t b =>
      rw [parse]
      split_ifs
      · exact ih _ h
      · obtain ⟨h', hok⟩ := hreduce h t b
        rw [hok]
        exact hshift h'

/-! ### What the parser keeps -/

/-- What every `addEntry` keeps, the parser keeps. -/
theorem parse_invariant {I : Header → Prop}
    (hI : ∀ h h' t b, I h → h.addEntry prefs t b = .ok h' → I h') {st : ParserState}
    {h h' : Header} {toks : List Token} (hh : I h) (hparse : parse prefs st h toks = .ok h') :
    I h' := by
  have hreduce : ∀ {h h' : Header} {t b : Bytes}, I h → reduce prefs h t b = .ok h' → I h' := by
    intro h h' t b hh hred
    unfold reduce at hred
    split at hred
    next h₁ hadd => cases hred; exact hI _ _ _ _ hh hadd
    next => cases hred
  induction toks generalizing st h with
  | nil =>
    cases st with
    | header => cases hparse; exact hh
    | tag t => cases hparse
    | bodies t b => exact hreduce hh hparse
  | cons tok toks ih =>
    have hshift : ∀ {h : Header}, I h →
        (shift tok >>= fun st => parse prefs st h toks) = .ok h' → I h' := by
      intro h hh hrun
      cases hs : shift tok with
      | error e => rw [hs] at hrun; cases hrun
      | ok st' => rw [hs] at hrun; exact ih hh hrun
    cases st with
    | header => exact hshift hh hparse
    | tag t =>
      rw [parse] at hparse
      split_ifs at hparse
      exact ih hh hparse
    | bodies t b =>
      rw [parse] at hparse
      split_ifs at hparse
      · exact ih hh hparse
      · cases hr : reduce prefs h t b with
        | error e => rw [hr] at hparse; cases hparse
        | ok h₁ => rw [hr] at hparse; exact hshift (hreduce hh hr) hparse

section Entries

variable {T B : Bytes → Prop}

/-- What holds of the tags and of the bodies that the scanner reports. -/
def TokenOk (T B : Bytes → Prop) (tok : Token) : Prop :=
  (tok.kind = .tag → T tok.sval) ∧ (tok.kind = .body → B tok.sval)

/-- The same of the field on the stack. -/
def StackOk (T B : Bytes → Prop) : ParserState → Prop
  | .header => True
  | .tag t => T t
  | .bodies t b => T t ∧ B b

/-- The same of the entries. -/
def EntriesOk (T B : Bytes → Prop) (h : Header) : Prop :=
  ∀ e ∈ h.msgEntries, T e.tag ∧ B e.body

theorem shift_stackOk {tok : Token} {st : ParserState} (htok : TokenOk T B tok)
    (hst : shift tok = .ok st) : StackOk T B st := by
  unfold shift at hst
  split at hst <;> cases hst
  next => trivial
  next hk => exact htok.1 hk

theorem reduce_entriesOk {h h' : Header} {t b : Bytes} (ht : T t) (hb : B b)
    (hh : EntriesOk T B h) (hred : reduce prefs h t b = .ok h') : EntriesOk T B h' := by
  unfold reduce at hred
  split at hred
  next h₁ hadd =>
    cases hred
    intro e he
    rw [(addEntry_ok hadd).1] at he
    rcases List.mem_append.1 he with he | he
    · exact hh e he
    · obtain rfl := List.mem_singleton.1 he
      exact ⟨ht, hb⟩
  next => cases hred

/-- **What holds of the tokens holds of the entries**, if it survives the joining of bodies. -/
theorem parse_entriesOk (happend : ∀ b b', B b → B b' → B (b ++ b')) {st : ParserState}
    {h h' : Header} {toks : List Token} (htoks : ∀ tok ∈ toks, TokenOk T B tok)
    (hst : StackOk T B st) (hh : EntriesOk T B h) (hparse : parse prefs st h toks = .ok h') :
    EntriesOk T B h' := by
  induction toks generalizing st h with
  | nil =>
    cases st with
    | header => cases hparse; exact hh
    | tag t => cases hparse
    | bodies t b => exact reduce_entriesOk hst.1 hst.2 hh hparse
  | cons tok toks ih =>
    have htok := htoks tok (List.mem_cons_self ..)
    have ih : ∀ {st : ParserState} {h : Header}, StackOk T B st → EntriesOk T B h →
        parse prefs st h toks = .ok h' → EntriesOk T B h' :=
      ih fun tok h => htoks tok (List.mem_cons_of_mem _ h)
    have hshift : ∀ {h : Header}, EntriesOk T B h →
        (shift tok >>= fun st => parse prefs st h toks) = .ok h' → EntriesOk T B h' := by
      intro h hh hrun
      cases hs : shift tok with
      | error e => rw [hs] at hrun; cases hrun
      | ok st' => rw [hs] at hrun; exact ih (shift_stackOk htok hs) hh hrun
    cases st with
    | header => exact hshift hh hparse
    | tag t =>
      rw [parse] at hparse
      split_ifs at hparse with hk
      have hst' : StackOk T B (.bodies t tok.sval) := ⟨hst, htok.2 hk⟩
      exact ih hst' hh hparse
    | bodies t b =>
      rw [parse] at hparse
      split_ifs at hparse with hk
      · have hst' : StackOk T B (.bodies t (b ++ tok.sval)) :=
          ⟨hst.1, happend _ _ hst.2 (htok.2 hk)⟩
        exact ih hst' hh hparse
      · cases hr : reduce prefs h t b with
        | error e => rw [hr] at hparse; cases hparse
        | ok h₁ =>
          rw [hr] at hparse
          exact hshift (reduce_entriesOk hst.1 hst.2 hh hr) hparse

end Entries

/-- The size is not changed. -/
theorem rfcparse_msgSize {h h' : Header} {toks : List Token}
    (hparse : rfcparse prefs h toks = .ok h') : h'.msgSize = h.msgSize :=
  parse_invariant (I := fun h₁ => h₁.msgSize = h.msgSize)
    (fun _ _ _ _ hh hadd => (addEntry_ok hadd).2.trans hh) rfl hparse

end Mailfilter.Rfc822
