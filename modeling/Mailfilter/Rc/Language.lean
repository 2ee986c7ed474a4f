import Mailfilter.Grammar
import Mailfilter.Rc.Parser

/-!
# The language of the rcfile

The grammar of `rcfile.yy`, and what the parser accepts.

* `rcRules` and `rcGrammar`, with the nonterminals and the tokens of the source;
* `formRule`: all rules of commands follow from the forms of the keywords, which the parser goes by;
* `Follow`, the parser without the semantic values, and `mem_language_iff`: it accepts the sentences of
  the grammar;
* `readRcfile_accepts_iff`: an rcfile is read without an error if the scanner finds none, its tokens are
  a sentence, and the commands in backquotes succeed;
* `readRcfile_executed`: in any case those commands are executed that are complete before the error.
-/

namespace Mailfilter.Rc

open Flex Grammar

/-! ### The grammar -/

/-- The tokens without their values. -/
inductive TokenKind
  | word (w : Word)
  | operator (operat : Operator)
  | quote
  | yesNoId
  | textId
  | numId
  | shellCmd
  | envVar
  | ctrlChar
  deriving DecidableEq

def Token.kind : Token → TokenKind
  | .word w _ => .word w
  | .operator operat => .operator operat
  | .quote => .quote
  | .numId _ => .numId
  | .shellCmd _ => .shellCmd
  | .envVar _ => .envVar
  | .yesNoId _ => .yesNoId
  | .textId _ => .textId
  | .ctrlChar _ => .ctrlChar

/-- The nonterminals. -/
inductive Nonterminal
  | commands
  | command
  | exps
  | exp
  | strArg
  | yesNoArg
  | numArg
  | allowRule
  | delDuplicates
  | denyRule
  | highscore
  | logfile
  | maxlength
  | maxsizeAllow
  | maxsizeDeny
  | maxsizeScore
  | normal
  | server
  | user
  | pass
  | protocol
  | port
  | regCase
  | regType
  | showHeaders
  | score
  | test
  | timeout
  | verbose
  deriving DecidableEq

/-- A rule for commands of the form `KEYWORD operator argument`. -/
def plainRule (n : Nonterminal) (w : Word) (operat : Operator) (arg : Nonterminal) :
    ContextFreeRule TokenKind Nonterminal :=
  ⟨n, [.terminal (.word w), .terminal (.operator operat), .nonterminal arg]⟩

/-- A rule for commands of the form `KEYWORD number operator argument`. -/
def scoredRule (n : Nonterminal) (w : Word) (operat : Operator) (arg : Nonterminal) :
    ContextFreeRule TokenKind Nonterminal :=
  ⟨n, [.terminal (.word w), .nonterminal .numArg, .terminal (.operator operat), .nonterminal arg]⟩

/-- The alternatives of `command`. -/
def commandNames : List Nonterminal :=
  [.allowRule, .delDuplicates, .denyRule, .highscore, .logfile, .maxlength, .maxsizeAllow,
    .maxsizeDeny, .maxsizeScore, .normal, .server, .user, .pass, .protocol, .port, .regCase, .regType,
    .showHeaders, .score, .test, .timeout, .verbose]

/-- The rules of the single commands. -/
def formRules : List (ContextFreeRule TokenKind Nonterminal) :=
  [plainRule .allowRule .allow .equal .strArg,
    plainRule .allowRule .allow .notEqual .strArg,
    plainRule .allowRule .allowCase .equal .strArg,
    plainRule .allowRule .allowCase .notEqual .strArg,
    plainRule .allowRule .allowNocase .equal .strArg,
    plainRule .allowRule .allowNocase .notEqual .strArg,
    plainRule .delDuplicates .delDuplicates .equal .yesNoArg,
    plainRule .denyRule .deny .equal .strArg,
    plainRule .denyRule .deny .notEqual .strArg,
    plainRule .denyRule .denyCase .equal .strArg,
    plainRule .denyRule .denyCase .notEqual .strArg,
    plainRule .denyRule .denyNocase .equal .strArg,
    plainRule .denyRule .denyNocase .notEqual .strArg,
    plainRule .highscore .highscore .equal .numArg,
    plainRule .logfile .logfile .equal .strArg,
    plainRule .maxlength .maxlength .equal .numArg,
    plainRule .maxsizeAllow .maxsizeAllow .equal .numArg,
    plainRule .maxsizeDeny .maxsizeDeny .equal .numArg,
    scoredRule .maxsizeScore .maxsizeScore .equal .numArg,
    plainRule .normal .normal .equal .yesNoArg,
    plainRule .server .server .equal .strArg,
    plainRule .user .user .equal .strArg,
    plainRule .pass .pass .equal .strArg,
    plainRule .protocol .protocol .equal .strArg,
    plainRule .port .port .equal .numArg,
    plainRule .regCase .regCase .equal .yesNoArg,
    plainRule .regType .regType .equal .strArg,
    plainRule .showHeaders .showHeaders .equal .strArg,
    scoredRule .score .score .equal .strArg,
    scoredRule .score .score .notEqual .strArg,
    scoredRule .score .scoreCase .equal .strArg,
    scoredRule .score .scoreCase .notEqual .strArg,
    scoredRule .score .scoreNocase .equal .strArg,
    scoredRule .score .scoreNocase .notEqual .strArg,
    plainRule .test .test .equal .yesNoArg,
    plainRule .timeout .timeout .equal .numArg,
    plainRule .verbose .verbose .equal .numArg]

/-- The rules of `rcfile.yy`. -/
def rcRules : List (ContextFreeRule TokenKind Nonterminal) :=
  [⟨.commands, []⟩,
    ⟨.commands, [.nonterminal .commands, .nonterminal .command]⟩] ++
  commandNames.map (fun n => ⟨.command, [.nonterminal n]⟩) ++
  [⟨.exps, [.nonterminal .exp]⟩,
    ⟨.exps, [.nonterminal .exps, .nonterminal .exp]⟩,
    ⟨.exp, [.terminal .shellCmd]⟩,
    ⟨.exp, [.terminal .envVar]⟩,
    ⟨.exp, [.terminal .textId]⟩,
    ⟨.exp, [.terminal .ctrlChar]⟩,
    ⟨.strArg, [.terminal .quote, .nonterminal .exps, .terminal .quote]⟩,
    ⟨.yesNoArg, [.terminal .quote, .terminal .yesNoId, .terminal .quote]⟩,
    ⟨.numArg, [.terminal .numId]⟩] ++ formRules

def rcGrammar : ContextFreeGrammar TokenKind where
  NT := Nonterminal
  initial := .commands
  rules := rcRules.toFinset

theorem mem_rcRules {r : ContextFreeRule TokenKind Nonterminal} :
    r ∈ rcGrammar.rules ↔ r ∈ rcRules :=
  List.mem_toFinset

/-! ### Rules and forms -/

/-- The command that a keyword belongs to. -/
def Word.nonterminal : Word → Nonterminal
  | .allow => .allowRule
  | .allowCase => .allowRule
  | .allowNocase => .allowRule
  | .delDuplicates => .delDuplicates
  | .deny => .denyRule
  | .denyCase => .denyRule
  | .denyNocase => .denyRule
  | .highscore => .highscore
  | .logfile => .logfile
  | .maxlength => .maxlength
  | .maxsizeAllow => .maxsizeAllow
  | .maxsizeDeny => .maxsizeDeny
  | .maxsizeScore => .maxsizeScore
  | .normal => .normal
  | .server => .server
  | .user => .user
  | .pass => .pass
  | .protocol => .protocol
  | .port => .port
  | .regCase => .regCase
  | .regType => .regType
  | .showHeaders => .showHeaders
  | .score => .score
  | .scoreCase => .score
  | .scoreNocase => .score
  | .test => .test
  | .timeout => .timeout
  | .verbose => .verbose

def ArgumentKind.nonterminal : ArgumentKind → Nonterminal
  | .str => .strArg
  | .yesNo => .yesNoArg
  | .num => .numArg

/-- The operator may stand behind the keyword. -/
def Admits (w : Word) (operat : Operator) : Bool := operat = .equal || w.form.notEqual

/-- The rule for a keyword and an operator. -/
def formRule (w : Word) (operat : Operator) : ContextFreeRule TokenKind Nonterminal :=
  if w.form.scored then scoredRule w.nonterminal w operat w.form.argument.nonterminal
  else plainRule w.nonterminal w operat w.form.argument.nonterminal

/-- The forms of the keywords are those of the rules. -/
theorem mem_formRules {r : ContextFreeRule TokenKind Nonterminal} :
    r ∈ formRules ↔ ∃ w operat, Admits w operat = true ∧ r = formRule w operat := by
  have hforms : formRules =
      (words.flatMap fun w => [.equal, .notEqual].filterMap fun operat =>
        if Admits w operat then some (formRule w operat) else none) := by
    decide +kernel
  rw [hforms]
  simp only [List.mem_flatMap, List.mem_filterMap, mem_words, true_and]
  constructor
  · rintro ⟨w, operat, -, hr⟩
    obtain ⟨hadmits, hr⟩ := Option.ite_none_right_eq_some.mp hr
    exact ⟨w, operat, hadmits, (Option.some.inj hr).symm⟩
  · rintro ⟨w, operat, hadmits, rfl⟩
    exact ⟨w, operat, by cases operat <;> simp, if_pos hadmits⟩

theorem nonterminal_mem (w : Word) : w.nonterminal ∈ commandNames := by
  cases w <;> decide

/-! ### What the parser accepts -/

/-- The states of the parser without the semantic values. -/
inductive Follow
  | commands
  | word (w : Word)
  | scored (w : Word)
  | operator (w : Word)
  | quote (w : Word)
  | exps (w : Word)
  | yesNo (w : Word)
  deriving DecidableEq

/-- The token is an `exp`. -/
def TokenKind.isExp : TokenKind → Bool
  | .shellCmd => true
  | .envVar => true
  | .textId => true
  | .ctrlChar => true
  | _ => false

/-- The state after a token, unless the token is an error. -/
def Follow.step : Follow → TokenKind → Option Follow
  | .commands, .word w => some (.word w)
  | .word w, .numId => if w.form.scored then some (.scored w) else none
  | .word w, .operator operat =>
    if !w.form.scored && Admits w operat then some (.operator w) else none
  | .scored w, .operator operat => if Admits w operat then some (.operator w) else none
  | .operator w, .quote => if w.form.argument = .num then none else some (.quote w)
  | .operator w, .numId => if w.form.argument = .num then some .commands else none
  | .quote w, k =>
    match w.form.argument with
    | .yesNo => if k = .yesNoId then some (.yesNo w) else none
    | .str => if k.isExp then some (.exps w) else none
    | .num => none
  | .exps w, k =>
    if k = .quote then some .commands else if k.isExp then some (.exps w) else none
  | .yesNo _, .quote => some .commands
  | _, _ => none

/-- The state after some tokens. -/
def Follow.run (q : Follow) (ks : List TokenKind) : Option Follow := ks.foldlM Follow.step q

@[simp] theorem Follow.run_nil (q : Follow) : q.run [] = some q := rfl

@[simp] theorem Follow.run_cons (q : Follow) (k : TokenKind) (ks : List TokenKind) :
    q.run (k :: ks) = (q.step k).bind fun q' => q'.run ks := by
  simp [Follow.run, List.foldlM_cons, Option.bind_eq_bind]

theorem Follow.run_append (q : Follow) (ks ks' : List TokenKind) :
    q.run (ks ++ ks') = (q.run ks).bind fun q' => q'.run ks' := by
  simp [Follow.run, List.foldlM_append, Option.bind_eq_bind]

/-- What a command begins with. -/
def opening (w : Word) (operat : Operator) : List TokenKind :=
  if w.form.scored then [.word w, .numId, .operator operat] else [.word w, .operator operat]

theorem run_opening {w : Word} {operat : Operator} (h : Admits w operat = true) :
    Follow.commands.run (opening w operat) = some (.operator w) := by
  unfold opening
  split_ifs with hscored <;> simp [Follow.step, hscored, h]

theorem step_exp {w : Word} (hw : w.form.argument = .str) {k : TokenKind} (hk : k.isExp = true) :
    (Follow.quote w).step k = some (.exps w) ∧ (Follow.exps w).step k = some (.exps w) := by
  constructor
  · simp [Follow.step, hw, hk]
  · cases k <;> first | rfl | cases hk

/-- What the nonterminals stand for: the words that lead the automaton from the states before them
to those behind them. -/
def interp : Nonterminal → Language TokenKind
  | .exps => {x | ∀ w, w.form.argument = .str → (Follow.quote w).run x = some (.exps w)}
  | .exp => {x | ∃ k, k.isExp = true ∧ x = [k]}
  | .strArg => {x | ∀ w, w.form.argument = .str → (Follow.operator w).run x = some .commands}
  | .yesNoArg => {x | ∀ w, w.form.argument = .yesNo → (Follow.operator w).run x = some .commands}
  | .numArg => {x | x = [.numId]}
  | _ => {x | Follow.commands.run x = some .commands}

/-- An argument of the right kind completes a command. -/
theorem run_argument {w : Word} {x : List TokenKind} (hx : x ∈ interp w.form.argument.nonterminal) :
    (Follow.operator w).run x = some .commands := by
  cases hw : w.form.argument with
  | str =>
    rw [hw] at hx
    exact hx w hw
  | yesNo =>
    rw [hw] at hx
    exact hx w hw
  | num =>
    rw [hw] at hx
    obtain rfl : x = [.numId] := hx
    simp [Follow.step, hw]

theorem interp_command {n : Nonterminal} (hn : n ∈ commandNames) :
    interp n = {x | Follow.commands.run x = some .commands} := by
  cases n <;> first | rfl | exact absurd hn (by decide)

theorem interp_nonterminal (w : Word) :
    interp w.nonterminal = {x | Follow.commands.run x = some .commands} :=
  interp_command (nonterminal_mem w)

theorem formRule_input (w : Word) (operat : Operator) : (formRule w operat).input = w.nonterminal := by
  unfold formRule
  split_ifs <;> rfl

/-- What the rule of a command stands for begins with its opening, and an argument is left. -/
theorem exists_argument {w : Word} {operat : Operator} {x : List TokenKind}
    (hx : x ∈ denote interp (formRule w operat).output) :
    ∃ y ∈ interp w.form.argument.nonterminal, x = opening w operat ++ y := by
  unfold formRule at hx
  unfold opening
  split_ifs at hx ⊢ with hscored
  · obtain ⟨_, rfl, _, ⟨_, rfl, _, ⟨_, rfl, _, ⟨y, hy, _, rfl, rfl⟩, rfl⟩, rfl⟩, rfl⟩ := hx
    exact ⟨y, hy, by simp⟩
  · obtain ⟨_, rfl, _, ⟨_, rfl, _, ⟨y, hy, _, rfl, rfl⟩, rfl⟩, rfl⟩ := hx
    exact ⟨y, hy, by simp⟩

/-- The rules of the single commands. -/
theorem formRule_closed {w : Word} {operat : Operator} (h : Admits w operat = true) :
    denote interp (formRule w operat).output ≤ interp (formRule w operat).input := by
  intro x hx
  obtain ⟨y, hy, rfl⟩ := exists_argument hx
  rw [formRule_input, interp_nonterminal]
  show Follow.commands.run (opening w operat ++ y) = some .commands
  rw [Follow.run_append, run_opening h]
  exact run_argument hy

/-- The rules of the lists and of the arguments. -/
theorem interp_closed : ∀ r ∈ rcRules, denote interp r.output ≤ interp r.input := by
  intro r hr x hx
  simp only [rcRules, List.mem_append, List.mem_map, List.mem_cons, List.not_mem_nil, or_false] at hr
  rcases hr with (((rfl | rfl) | ⟨n, hn, rfl⟩) | hr) | hr
  · obtain rfl : x = [] := hx
    rfl
  · obtain ⟨u, hu, _, ⟨v, hv, _, rfl, rfl⟩, rfl⟩ := hx
    have hu' : Follow.commands.run u = some .commands := hu
    have hv' : Follow.commands.run v = some .commands := hv
    show Follow.commands.run (u ++ (v ++ [])) = some .commands
    rw [List.append_nil, Follow.run_append, hu', Option.bind_some, hv']
  · obtain ⟨u, hu, _, rfl, rfl⟩ := hx
    rw [interp_command hn] at hu
    show Follow.commands.run (u ++ []) = some .commands
    rwa [List.append_nil]
  · rcases hr with rfl | rfl | rfl | rfl | rfl | rfl | rfl | rfl | rfl
    · obtain ⟨_, ⟨k, hk, rfl⟩, _, rfl, rfl⟩ := hx
      intro w hw
      simp [(step_exp hw hk).1]
    · obtain ⟨u, hu, _, ⟨_, ⟨k, hk, rfl⟩, _, rfl, rfl⟩, rfl⟩ := hx
      intro w hw
      show (Follow.quote w).run (u ++ ([k] ++ [])) = some (.exps w)
      rw [Follow.run_append, hu w hw]
      simp [(step_exp hw hk).2]
    all_goals try (obtain ⟨_, rfl, _, rfl, rfl⟩ := hx; exact ⟨_, rfl, rfl⟩)
    · obtain ⟨_, rfl, _, ⟨u, hu, _, ⟨_, rfl, _, rfl, rfl⟩, rfl⟩, rfl⟩ := hx
      intro w hw
      show (Follow.operator w).run ([.quote] ++ (u ++ ([.quote] ++ []))) = some .commands
      rw [Follow.run_append, Follow.run_cons]
      simp [Follow.step, hw, Follow.run_append, hu w hw]
    · obtain ⟨_, rfl, _, ⟨_, rfl, _, ⟨_, rfl, _, rfl, rfl⟩, rfl⟩, rfl⟩ := hx
      intro w hw
      show (Follow.operator w).run [.quote, .yesNoId, .quote] = some .commands
      simp [Follow.step, hw]
    · obtain ⟨_, rfl, _, rfl, rfl⟩ := hx
      rfl
  · obtain ⟨w, operat, h, rfl⟩ := mem_formRules.mp hr
    exact formRule_closed h hx

/-! ### Derivations -/

/-- What a nonterminal derives. -/
abbrev Derived (n : Nonterminal) (x : List TokenKind) : Prop :=
  Yields rcGrammar [.nonterminal n] x

theorem derived_of_rule {n : Nonterminal} (out : List (Symbol TokenKind Nonterminal))
    (hr : ⟨n, out⟩ ∈ rcRules) {x : List TokenKind} (h : Yields rcGrammar out x) : Derived n x :=
  Yields.of_rule (g := rcGrammar) (mem_rcRules.2 hr) h

theorem derived_numArg : Derived .numArg [.numId] :=
  derived_of_rule [.terminal .numId] (by decide) (.terminal [_])

theorem derived_exp {k : TokenKind} (hk : k.isExp = true) : Derived .exp [k] := by
  cases k <;> first | exact derived_of_rule [.terminal _] (by decide) (.terminal [_]) | cases hk

theorem derived_command {n : Nonterminal} (hn : n ∈ commandNames) {x : List TokenKind}
    (h : Derived n x) : Derived .command x := by
  refine derived_of_rule [.nonterminal n] ?_ h
  simp only [rcRules, List.mem_append, List.mem_map]
  exact Or.inl (Or.inl (Or.inr ⟨n, hn, rfl⟩))

/-- An opening and an argument are a command. -/
theorem derived_opening {w : Word} {operat : Operator} (h : Admits w operat = true)
    {x : List TokenKind} (hx : Derived w.form.argument.nonterminal x) :
    Derived .command (opening w operat ++ x) := by
  have hr : formRule w operat ∈ rcRules :=
    List.mem_append_right _ (mem_formRules.mpr ⟨w, operat, h, rfl⟩)
  refine derived_command (nonterminal_mem w) ?_
  rw [← formRule_input w operat]
  refine Yields.of_rule (g := rcGrammar) (mem_rcRules.2 hr) ?_
  unfold formRule opening
  split_ifs with hscored
  · exact (Yields.terminal [TokenKind.word w]).append (derived_numArg.append
      ((Yields.terminal [TokenKind.operator operat]).append hx))
  · exact (Yields.terminal [TokenKind.word w, .operator operat]).append hx

/-- What the automaton has read when it is in a state: the derivations that the parser has found. -/
def Viable : Follow → List TokenKind → Prop
  | .commands, x => Derived .commands x
  | .word w, x => ∃ u, x = u ++ [.word w] ∧ Derived .commands u
  | .scored w, x => w.form.scored = true ∧ ∃ u, x = u ++ [.word w, .numId] ∧ Derived .commands u
  | .operator w, x => ∃ u operat, Admits w operat = true ∧ x = u ++ opening w operat ∧
      Derived .commands u
  | .quote w, x => ∃ u operat, Admits w operat = true ∧ x = u ++ opening w operat ++ [.quote] ∧
      Derived .commands u
  | .exps w, x => w.form.argument = .str ∧ ∃ u operat v, Admits w operat = true ∧
      x = u ++ opening w operat ++ .quote :: v ∧ Derived .commands u ∧ Derived .exps v
  | .yesNo w, x => w.form.argument = .yesNo ∧ ∃ u operat, Admits w operat = true ∧
      x = u ++ opening w operat ++ [.quote, .yesNoId] ∧ Derived .commands u

/-- `commands: commands command` -/
theorem derived_commands {w : Word} {operat : Operator} (h : Admits w operat = true)
    {u x : List TokenKind} (hu : Derived .commands u) (hx : Derived w.form.argument.nonterminal x) :
    Derived .commands (u ++ opening w operat ++ x) := by
  rw [List.append_assoc]
  exact derived_of_rule [.nonterminal .commands, .nonterminal .command] (by decide)
    (hu.append (derived_opening h hx))

/-- One token. -/
theorem Viable.step {q q' : Follow} {x : List TokenKind} {k : TokenKind} (h : Viable q x)
    (hk : q.step k = some q') : Viable q' (x ++ [k]) := by
  cases q with
  | commands =>
    cases k with
    | word w =>
      obtain rfl := Option.some.inj hk
      exact ⟨x, rfl, h⟩
    | _ => cases hk
  | word w =>
    obtain ⟨u, rfl, hu⟩ := h
    cases k with
    | numId =>
      obtain ⟨hscored, hq'⟩ := Option.ite_none_right_eq_some.mp hk
      obtain rfl := Option.some.inj hq'
      exact ⟨hscored, u, by simp, hu⟩
    | operator operat =>
      obtain ⟨hcond, hq'⟩ := Option.ite_none_right_eq_some.mp hk
      obtain rfl := Option.some.inj hq'
      obtain ⟨hplain, hadmits⟩ := Bool.and_eq_true_iff.mp hcond
      exact ⟨u, operat, hadmits, by simp [opening, Bool.not_eq_true' _ |>.mp hplain], hu⟩
    | _ => cases hk
  | scored w =>
    obtain ⟨hscored, u, rfl, hu⟩ := h
    cases k with
    | operator operat =>
      obtain ⟨hadmits, hq'⟩ := Option.ite_none_right_eq_some.mp hk
      obtain rfl := Option.some.inj hq'
      exact ⟨u, operat, hadmits, by simp [opening, hscored], hu⟩
    | _ => cases hk
  | operator w =>
    obtain ⟨u, operat, hadmits, rfl, hu⟩ := h
    cases k with
    | quote =>
      obtain ⟨-, hq'⟩ := Option.ite_none_left_eq_some.mp hk
      obtain rfl := Option.some.inj hq'
      exact ⟨u, operat, hadmits, rfl, hu⟩
    | numId =>
      obtain ⟨hnum, hq'⟩ := Option.ite_none_right_eq_some.mp hk
      obtain rfl := Option.some.inj hq'
      exact derived_commands hadmits hu (by rw [hnum]; exact derived_numArg)
    | _ => cases hk
  | quote w =>
    obtain ⟨u, operat, hadmits, rfl, hu⟩ := h
    cases harg : w.form.argument with
    | str =>
      simp only [Follow.step, harg] at hk
      obtain ⟨hexp, hq'⟩ := Option.ite_none_right_eq_some.mp hk
      obtain rfl := Option.some.inj hq'
      refine ⟨harg, u, operat, [k], hadmits, by simp, hu, ?_⟩
      exact derived_of_rule [.nonterminal .exp] (by decide) (derived_exp hexp)
    | yesNo =>
      simp only [Follow.step, harg] at hk
      obtain ⟨rfl, hq'⟩ := Option.ite_none_right_eq_some.mp hk
      obtain rfl := Option.some.inj hq'
      exact ⟨harg, u, operat, hadmits, by simp, hu⟩
    | num =>
      simp only [Follow.step, harg] at hk
      cases hk
  | exps w =>
    obtain ⟨harg, u, operat, v, hadmits, rfl, hu, hv⟩ := h
    simp only [Follow.step] at hk
    split_ifs at hk with hquote hexp
    · obtain rfl := Option.some.inj hk
      have harg' : Derived w.form.argument.nonterminal (.quote :: v ++ [k]) := by
        rw [harg, hquote]
        refine derived_of_rule [.terminal .quote, .nonterminal .exps, .terminal .quote] (by decide) ?_
        exact (Yields.terminal [TokenKind.quote]).append (hv.append (.terminal [TokenKind.quote]))
      show Derived .commands _
      simpa using derived_commands hadmits hu harg'
    · obtain rfl := Option.some.inj hk
      refine ⟨harg, u, operat, v ++ [k], hadmits, by simp, hu, ?_⟩
      exact derived_of_rule [.nonterminal .exps, .nonterminal .exp] (by decide)
        (hv.append (derived_exp hexp))
  | yesNo w =>
    obtain ⟨harg, u, operat, hadmits, rfl, hu⟩ := h
    cases k with
    | quote =>
      obtain rfl := Option.some.inj hk
      have harg' : Derived w.form.argument.nonterminal [.quote, .yesNoId, .quote] := by
        rw [harg]
        exact derived_of_rule [.terminal .quote, .terminal .yesNoId, .terminal .quote] (by decide)
          (.terminal [_, _, _])
      show Derived .commands _
      simpa using derived_commands hadmits hu harg'
    | _ => cases hk

/-- A run. -/
theorem Viable.run {q q' : Follow} {x y : List TokenKind} (h : Viable q x)
    (hy : q.run y = some q') : Viable q' (x ++ y) := by
  induction y generalizing q x with
  | nil =>
    obtain rfl : q = q' := Option.some.inj hy
    rwa [List.append_nil]
  | cons k y ih =>
    rw [Follow.run_cons] at hy
    obtain ⟨q₁, hk, hy⟩ := Option.bind_eq_some_iff.mp hy
    rw [List.append_cons]
    exact ih (h.step hk) hy

/-- **The automaton accepts the sentences of the grammar.** -/
theorem mem_language_iff (x : List TokenKind) :
    x ∈ rcGrammar.language ↔ Follow.commands.run x = some .commands := by
  constructor
  · exact fun h => @language_le _ rcGrammar interp (fun r hr => interp_closed r (mem_rcRules.1 hr)) _ h
  · intro hx
    have hstart : Viable .commands [] := derived_of_rule [] (by decide) (.terminal [])
    exact hstart.run hx

/-! ### The parser -/

/-- The state without the semantic values. -/
def ParserState.follow : ParserState → Follow
  | .commands => .commands
  | .word w _ => .word w
  | .scored w _ _ => .scored w
  | .operator o => .operator o.word
  | .quote o => .quote o.word
  | .exps o _ => .exps o.word
  | .yesNo o _ => .yesNo o.word

section Parser

variable (popen : Bytes → Option Process)

/-- If the token is a command in backquotes, it succeeds. -/
def ShellOk : Token → Prop
  | .shellCmd sval => ∃ t, execShell popen (stripShell sval) = .ok t
  | _ => True

/-- A step of the parser, beside the step of the automaton. -/
def Follows (st : ParserState) (t : Token) : Except Failure (ParserState × Option Command) → Prop
  | .ok (st', command) => st.follow.step t.kind = some st'.follow ∧ ShellOk popen t ∧
      (command ≠ none → st' = .commands)
  | .error _ => st.follow.step t.kind = none ∨ ¬ ShellOk popen t

variable {popen}

/-- An `exp`, where the string of the argument has its place. -/
theorem exp_follows {st : ParserState} {t : Token} {next : Text → ParserState}
    (hexp : t.kind.isExp = true → ∀ u, st.follow.step t.kind = some (next u).follow)
    (hother : t.kind.isExp = false → st.follow.step t.kind = none) :
    Follows popen st t ((exp popen t).map fun u => (next u, none)) := by
  cases t with
  | shellCmd sval =>
    cases hshell : execShell popen (stripShell sval) with
    | ok u =>
      simp only [exp, hshell]
      exact ⟨hexp rfl u, ⟨u, hshell⟩, fun h => absurd rfl h⟩
    | error h =>
      simp only [exp, hshell]
      refine Or.inr fun hok => ?_
      obtain ⟨u, hu⟩ : ∃ u, execShell popen (stripShell sval) = .ok u := hok
      rw [hshell] at hu
      cases hu
  | envVar sval => exact ⟨hexp rfl sval, trivial, fun h => absurd rfl h⟩
  | textId sval => exact ⟨hexp rfl sval, trivial, fun h => absurd rfl h⟩
  | ctrlChar sval => exact ⟨hexp rfl sval, trivial, fun h => absurd rfl h⟩
  | _ => exact Or.inl (hother rfl)

theorem step_follows (popen : Bytes → Option Process) (st : ParserState) (t : Token) :
    Follows popen st t (st.step popen t) := by
  cases st with
  | commands =>
    cases t with
    | word w sval => exact ⟨rfl, trivial, fun h => absurd rfl h⟩
    | _ => exact Or.inl rfl
  | word w sval =>
    cases t with
    | numId n =>
      simp only [ParserState.step]
      split_ifs with hscored
      · exact ⟨if_pos hscored, trivial, fun h => absurd rfl h⟩
      · exact Or.inl (if_neg hscored)
    | operator operat =>
      simp only [ParserState.step]
      split_ifs with hcond
      · exact ⟨if_pos hcond, trivial, fun h => absurd rfl h⟩
      · exact Or.inl (if_neg hcond)
    | _ => exact Or.inl rfl
  | scored w sval score =>
    cases t with
    | operator operat =>
      simp only [ParserState.step]
      split_ifs with hcond
      · exact ⟨if_pos hcond, trivial, fun h => absurd rfl h⟩
      · exact Or.inl (if_neg hcond)
    | _ => exact Or.inl rfl
  | operator o =>
    cases t with
    | quote =>
      simp only [ParserState.step]
      split_ifs with hnum
      · exact Or.inl (if_pos hnum)
      · exact ⟨if_neg hnum, trivial, fun h => absurd rfl h⟩
    | numId n =>
      simp only [ParserState.step]
      split_ifs with hnum
      · exact ⟨if_pos hnum, trivial, fun _ => rfl⟩
      · exact Or.inl (if_neg hnum)
    | _ => exact Or.inl rfl
  | quote o =>
    cases harg : o.word.form.argument with
    | str =>
      have hstep : (ParserState.quote o).step popen t =
          (exp popen t).map fun sval => (.exps o sval, none) := by
        simp only [ParserState.step, harg]
      rw [hstep]
      refine exp_follows (fun hexp _ => (step_exp harg hexp).1) fun hother => ?_
      simp [ParserState.follow, Follow.step, harg, hother]
    | yesNo =>
      have hno (h : t.kind ≠ .yesNoId) : (ParserState.quote o).follow.step t.kind = none := by
        simp [ParserState.follow, Follow.step, harg, h]
      cases t with
      | yesNoId sval =>
        simp only [ParserState.step, harg]
        exact ⟨by simp [ParserState.follow, Follow.step, harg, Token.kind], trivial,
          fun h => absurd rfl h⟩
      | _ =>
        simp only [ParserState.step, harg]
        exact Or.inl (hno nofun)
    | num =>
      have hno : (ParserState.quote o).follow.step t.kind = none := by
        simp [ParserState.follow, Follow.step, harg]
      simp only [ParserState.step, harg]
      exact Or.inl hno
  | exps o sval =>
    by_cases hquote : t = .quote
    · subst hquote
      exact ⟨rfl, trivial, fun _ => rfl⟩
    · have hstep : (ParserState.exps o sval).step popen t =
          (exp popen t).map fun sval' => (.exps o (catText sval sval'), none) := by
        cases t <;> first | rfl | exact absurd rfl hquote
      have hkind : t.kind ≠ .quote := by
        cases t <;> first | exact absurd rfl hquote | exact nofun
      rw [hstep]
      refine exp_follows (fun hexp _ => ?_) fun hother => ?_
      · simp [ParserState.follow, Follow.step, hkind, hexp]
      · simp [ParserState.follow, Follow.step, hkind, hother]
  | yesNo o sval =>
    cases t with
    | quote => exact ⟨rfl, trivial, fun _ => rfl⟩
    | _ => exact Or.inl rfl

/-! ### Events -/

/-- The token of an event. -/
def Event.token? : Event → Option Token
  | .token t => some t
  | _ => none

/-- The scanner ends the program. -/
def Event.isFailed : Event → Bool
  | .failed _ => true
  | _ => false

/-- The tokens that the scanner returns before it ends the program, if it does. -/
def tokens (events : List Event) : List Token :=
  (events.takeWhile fun e => !e.isFailed).filterMap Event.token?

/-- The tokens are a sentence of the grammar, and the commands in backquotes succeed. -/
def Accepted (popen : Bytes → Option Process) (toks : List Token) : Prop :=
  toks.map Token.kind ∈ rcGrammar.language ∧ ∀ t ∈ toks, ShellOk popen t

/-- From a state, the tokens are the rest of a sentence. -/
def Completes (popen : Bytes → Option Process) (st : ParserState) (toks : List Token) : Prop :=
  st.follow.run (toks.map Token.kind) = some .commands ∧ ∀ t ∈ toks, ShellOk popen t

theorem accepted_iff {toks : List Token} : Accepted popen toks ↔ Completes popen .commands toks :=
  and_congr_left' (mem_language_iff _)

theorem completes_nil {st : ParserState} : Completes popen st [] ↔ st = .commands := by
  constructor
  · rintro ⟨hst, -⟩
    cases st <;> first | rfl | cases hst
  · rintro rfl
    exact ⟨rfl, nofun⟩

theorem completes_cons {st st' : ParserState} {t : Token} {command : Option Command}
    (hstep : st.step popen t = .ok (st', command)) {toks : List Token} :
    Completes popen st (t :: toks) ↔ Completes popen st' toks := by
  have h := step_follows popen st t
  rw [hstep] at h
  obtain ⟨hfollow, hshell, -⟩ := h
  unfold Completes
  rw [List.map_cons, Follow.run_cons, hfollow, Option.bind_some, List.forall_mem_cons]
  exact and_congr_right' (and_iff_right hshell)

theorem not_completes_cons {st : ParserState} {t : Token} {f : Failure}
    (hstep : st.step popen t = .error f) (toks : List Token) : ¬ Completes popen st (t :: toks) := by
  have h := step_follows popen st t
  rw [hstep] at h
  rintro ⟨hrun, hshells⟩
  rcases h with hfollow | hshell
  · rw [List.map_cons, Follow.run_cons, hfollow] at hrun
    cases hrun
  · exact hshell (hshells t List.mem_cons_self)

/-- An event without a token. -/
theorem rcparse_quiet {st : ParserState} {g : Globals} {e : Event} (htoken : e.token? = none)
    (hfailed : e.isFailed = false) (events : List Event) :
    rcparse popen st g (e :: events) = rcparse popen st (g.after e) events := by
  cases e with
  | token t => cases htoken
  | failed f => cases hfailed
  | _ => cases st <;> rfl

theorem tokens_cons {e : Event} (hfailed : e.isFailed = false) (events : List Event) :
    tokens (e :: events) = e.token?.toList ++ tokens events := by
  unfold tokens
  rw [List.takeWhile_cons, hfailed]
  cases h : e.token? <;> simp [h]

theorem tokens_map (toks : List Token) : tokens (toks.map .token) = toks := by
  induction toks with
  | nil => rfl
  | cons t toks ih => rw [List.map_cons, tokens_cons rfl, ih]; rfl

/-- An event is a failure, a token, or nothing to the parser. -/
theorem event_cases (e : Event) :
    (∃ f, e = .failed f) ∨ (∃ t, e = .token t) ∨ (e.token? = none ∧ e.isFailed = false) := by
  cases e with
  | failed f => exact Or.inl ⟨f, rfl⟩
  | token t => exact Or.inr (Or.inl ⟨t, rfl⟩)
  | _ => exact Or.inr (Or.inr ⟨rfl, rfl⟩)

theorem rcparse_accepts_iff (st : ParserState) (g : Globals) (events : List Event) :
    (rcparse popen st g events).error = none ↔
      (∀ e ∈ events, e.isFailed = false) ∧ Completes popen st (tokens events) := by
  induction events generalizing st g with
  | nil =>
    rw [show tokens [] = [] from rfl, completes_nil]
    cases st <;> simp [rcparse]
  | cons e events ih =>
    rw [List.forall_mem_cons]
    rcases event_cases e with ⟨f, rfl⟩ | ⟨t, rfl⟩ | ⟨htoken, hfailed⟩
    · simp [rcparse_failed, Event.isFailed]
    · rw [tokens_cons rfl, rcparse_token]
      cases hstep : st.step popen t with
      | error f =>
        simp only [reduceCtorEq, false_iff, not_and]
        exact fun _ => not_completes_cons hstep _
      | ok r =>
        obtain ⟨st', command⟩ := r
        simp only [Event.token?, Option.toList_some, List.singleton_append]
        rw [ih, completes_cons hstep]
        simp [Event.isFailed]
    · rw [rcparse_quiet htoken hfailed, ih, tokens_cons hfailed, htoken]
      simp [hfailed]

/-- **What an rcfile must be**: it is read without an error just when the scanner finds none, its tokens
are a sentence of the grammar, and its commands in backquotes succeed. -/
theorem readRcfile_accepts_iff (popen : Bytes → Option Process)
    (wordexp : Bytes → Option (List Bytes)) (files : Bytes → Option Bytes) (text : Bytes) :
    (readRcfile popen wordexp files text).error = none ↔
      (∀ e ∈ rclex wordexp files text, e.isFailed = false) ∧
        Accepted popen (tokens (rclex wordexp files text)) := by
  rw [accepted_iff]
  exact rcparse_accepts_iff .commands ⟨0, 0, []⟩ _

/-! ### Before an error -/

/-- The longest rest of a sentence among the tokens, if there is one, has been executed. -/
def Executed (popen : Bytes → Option Process) (st : ParserState) (toks : List Token)
    (commands : List Command) : Prop :=
  (∃ pre, pre <+: toks ∧ Completes popen st pre ∧
      (∀ pre', pre' <+: toks → Completes popen st pre' → pre' <+: pre) ∧
      ∀ g, commands = (rcparse popen st g (pre.map .token)).commands) ∨
    ((∀ pre, pre <+: toks → ¬ Completes popen st pre) ∧ commands = [])

/-- Nothing more can be read. -/
theorem executed_stop {st : ParserState} {toks : List Token}
    (h : ∀ pre, pre <+: toks → Completes popen st pre → pre = []) : Executed popen st toks [] := by
  by_cases hst : st = .commands
  · subst hst
    refine Or.inl ⟨[], List.nil_prefix, completes_nil.mpr rfl, fun pre hpre hcompl => ?_, fun g => rfl⟩
    rw [h pre hpre hcompl]
  · refine Or.inr ⟨fun pre hpre hcompl => hst ?_, rfl⟩
    obtain rfl := h pre hpre hcompl
    exact completes_nil.mp hcompl

theorem Executed.token {st st' : ParserState} {t : Token} {command : Option Command}
    (hstep : st.step popen t = .ok (st', command)) {toks : List Token} {commands : List Command}
    (h : Executed popen st' toks commands) :
    Executed popen st (t :: toks) (command.toList ++ commands) := by
  rcases h with ⟨pre, hpre, hcompl, hmax, hcommands⟩ | ⟨hnone, rfl⟩
  · refine Or.inl ⟨t :: pre, List.cons_prefix_cons.mpr ⟨rfl, hpre⟩, (completes_cons hstep).mpr hcompl,
      fun pre' hpre' hcompl' => ?_, fun g => ?_⟩
    · cases pre' with
      | nil => exact List.nil_prefix
      | cons t' pre' =>
        obtain ⟨rfl, hrest⟩ := List.cons_prefix_cons.mp hpre'
        exact List.cons_prefix_cons.mpr ⟨rfl, hmax pre' hrest ((completes_cons hstep).mp hcompl')⟩
    · rw [List.map_cons, rcparse_token, hstep, hcommands g]
  · -- a command is complete only where a sentence may end
    have hopen : st' ≠ .commands := fun hst' => hnone [] List.nil_prefix (completes_nil.mpr hst')
    have hfollows := step_follows popen st t
    rw [hstep] at hfollows
    obtain rfl : command = none := by
      by_contra hcommand
      exact hopen (hfollows.2.2 hcommand)
    refine executed_stop fun pre hpre hcompl => ?_
    cases pre with
    | nil => rfl
    | cons t' pre =>
      obtain ⟨rfl, hrest⟩ := List.cons_prefix_cons.mp hpre
      exact absurd ((completes_cons hstep).mp hcompl) (hnone pre hrest)

theorem rcparse_executed (popen : Bytes → Option Process) (st : ParserState) (g : Globals)
    (events : List Event) :
    Executed popen st (tokens events) (rcparse popen st g events).commands := by
  induction events generalizing st g with
  | nil =>
    have h : Executed popen st [] [] := executed_stop fun pre hpre _ => List.prefix_nil.mp hpre
    cases st <;> exact h
  | cons e events ih =>
    rcases event_cases e with ⟨f, rfl⟩ | ⟨t, rfl⟩ | ⟨htoken, hfailed⟩
    · rw [rcparse_failed]
      exact executed_stop fun pre hpre _ => List.prefix_nil.mp hpre
    · rw [tokens_cons rfl, rcparse_token]
      cases hstep : st.step popen t with
      | error f =>
        refine executed_stop fun pre hpre hcompl => ?_
        cases pre with
        | nil => rfl
        | cons t' pre =>
          obtain ⟨rfl, -⟩ := List.cons_prefix_cons.mp hpre
          exact absurd hcompl (not_completes_cons hstep pre)
      | ok r => exact (ih r.1 g).token hstep
    · rw [rcparse_quiet htoken hfailed, tokens_cons hfailed, htoken]
      exact ih st (g.after e)

/-- **Before an error** those commands are executed that make up the longest accepted beginning of the
rcfile, and no others. -/
theorem readRcfile_executed (popen : Bytes → Option Process)
    (wordexp : Bytes → Option (List Bytes)) (files : Bytes → Option Bytes) (text : Bytes) :
    ∃ pre, pre <+: tokens (rclex wordexp files text) ∧ Accepted popen pre ∧
      (∀ pre', pre' <+: tokens (rclex wordexp files text) → Accepted popen pre' → pre' <+: pre) ∧
      rcparse popen .commands ⟨0, 0, []⟩ (pre.map .token) =
        ⟨(readRcfile popen wordexp files text).commands, none⟩ := by
  simp only [accepted_iff]
  rcases rcparse_executed popen .commands ⟨0, 0, []⟩ (rclex wordexp files text) with
    ⟨pre, hpre, hcompl, hmax, hcommands⟩ | ⟨hnone, -⟩
  · refine ⟨pre, hpre, hcompl, hmax, Rcfile.ext (hcommands _).symm ?_⟩
    rw [rcparse_accepts_iff, tokens_map]
    exact ⟨by simp [Event.isFailed], hcompl⟩
  · exact absurd (completes_nil.mpr rfl) (hnone [] List.nil_prefix)

end Parser

end Mailfilter.Rc
