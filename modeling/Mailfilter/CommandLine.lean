import Mailfilter.Getopt

/-!
# What the command line means

The elements of the command line, read from left to right, and why `getopt_long` finds the same.

* `element`, what an option element stands for, and `decode`, the whole command line: the options, the
  elements that they are made of, and the operands;
* `At`: where the index is, and what has been passed;
* `Calls`: several calls of `getopt_long`, and `At.element`, those for one element;
* `getoptLong_decode`: `getopt_long` returns the options one after the other, and leaves the operands
  behind them, both in the order of the command line;
* `getOptsFrom_eq`: so the loop of `get_opts` applies what the command line stands for.
-/

namespace Mailfilter.Getopt

/-! ### From left to right -/

/-- What a call returns, and the argument. -/
abbrev Returned := ℤ × Option Bytes

/-- The value for an option that is unknown, ambiguous or wrong. -/
def wrong : Returned := (schar (chr '?'), none)

/-- Does the option take an argument? -/
def takesArg (c : UInt8) : Option Bool :=
  if c = chr ':' then none else (myIndex c).map fun temp => temp[1]? = some (chr ':')

/-- An option whose argument is the next element. -/
def withNext (val : ℤ) : List Bytes → Returned × List Bytes
  | [] => (wrong, [])
  | arg :: rest => ((val, some arg), rest)

/-- The option characters of an element: the last one may have an argument, which is the rest of the
element or the next one. -/
def cluster : Bytes → List Bytes → List Returned × List Bytes
  | [], rest => ([], rest)
  | c :: cs, rest =>
    match takesArg c with
    | none => (wrong :: (cluster cs rest).1, (cluster cs rest).2)
    | some false => ((schar c, none) :: (cluster cs rest).1, (cluster cs rest).2)
    | some true =>
      if cs ≠ [] then ([(schar c, some cs)], rest)
      else ([(withNext (schar c) rest).1], (withNext (schar c) rest).2)

/-- A long option, perhaps with an argument behind `=`. -/
def long (text : Bytes) (rest : List Bytes) : Returned × List Bytes :=
  match search (text.takeWhile (!isEquals ·)) longOptions none false with
  | .found p =>
    match text.dropWhile (!isEquals ·) with
    | _ :: value => (if p.hasArg then (p.val, some value) else wrong, rest)
    | [] => if p.hasArg then withNext p.val rest else ((p.val, none), rest)
  | _ => (wrong, rest)

/-- An option element, and the elements that follow it. -/
def element (arg : Bytes) (rest : List Bytes) : List Returned × List Bytes :=
  if arg[1]? = some (chr '-') then ([(long (arg.drop 2) rest).1], (long (arg.drop 2) rest).2)
  else cluster (arg.drop 1) rest

theorem withNext_suffix (val : ℤ) (rest : List Bytes) : (withNext val rest).2 <:+ rest := by
  cases rest with
  | nil => exact List.suffix_refl _
  | cons arg rest => exact List.suffix_cons _ _

theorem cluster_suffix (cs : Bytes) (rest : List Bytes) : (cluster cs rest).2 <:+ rest := by
  induction cs with
  | nil => exact List.suffix_refl _
  | cons c cs ih =>
    unfold cluster
    split
    · exact ih
    · exact ih
    · split_ifs
      · exact List.suffix_refl _
      · exact withNext_suffix _ _

theorem long_suffix (text : Bytes) (rest : List Bytes) : (long text rest).2 <:+ rest := by
  unfold long
  split
  · split
    · exact List.suffix_refl _
    · split_ifs
      · exact withNext_suffix _ _
      · exact List.suffix_refl _
  · exact List.suffix_refl _

/-- An element takes its arguments from the front. -/
theorem element_suffix (arg : Bytes) (rest : List Bytes) : (element arg rest).2 <:+ rest := by
  unfold element
  split_ifs
  · exact long_suffix _ _
  · exact cluster_suffix _ _

/-- What the command line is made of. -/
structure Decoded where
  returned : List Returned
  options : List Bytes
  operands : List Bytes

/-- With `POSIXLY_CORRECT` the first operand ends the options. -/
def decode (posixlyCorrect : Bool) : List Bytes → Decoded
  | [] => ⟨[], [], []⟩
  | arg :: rest =>
    if arg = bytes "--" then ⟨[], [arg], rest⟩
    else if isNonoption arg then
      if posixlyCorrect then ⟨[], [], arg :: rest⟩
      else { decode posixlyCorrect rest with
        operands := arg :: (decode posixlyCorrect rest).operands }
    else
      let d := decode posixlyCorrect (element arg rest).2
      ⟨(element arg rest).1 ++ d.returned,
        arg :: rest.take (rest.length - (element arg rest).2.length) ++ d.options, d.operands⟩
termination_by args => args.length
decreasing_by
  all_goals have := (element_suffix arg rest).length_le
  all_goals simp only [List.length_cons]
  all_goals omega

/-! ### Between two elements -/

section Machine

variable {posixlyCorrect : Bool} {s s' : State} {cs : Bytes} {pre non opts todo : List Bytes}

/-- Operands that were passed stand behind `pre`, and options that were processed since behind them.
The index is there, and `cs` is left of the element that is being scanned. -/
structure At (cs : Bytes) (pre non opts todo : List Bytes) (s : State) : Prop where
  argv : s.argv = pre ++ non ++ opts ++ todo
  firstNonopt : s.firstNonopt = pre.length
  lastNonopt : s.lastNonopt = pre.length + non.length
  optind : s.optind = pre.length + non.length + opts.length
  nextchar : s.nextchar = cs

/-- The options come first. -/
theorem At.exchange (h : At cs pre non opts todo s) :
    At cs (pre ++ opts) non [] todo s.exchange where
  argv := by
    show Exchange.exchange _ _ _ _ = _
    rw [h.argv, h.firstNonopt, h.lastNonopt, h.optind, Exchange.exchange_append, List.append_nil]
  firstNonopt := by
    show s.firstNonopt + (s.optind - s.lastNonopt) = _
    rw [h.firstNonopt, h.lastNonopt, h.optind, List.length_append]
    omega
  lastNonopt := by
    show s.optind = _
    rw [h.optind, List.length_append]
    omega
  optind := by
    show s.optind = _
    rw [h.optind, List.length_append, List.length_nil]
    omega
  nextchar := h.nextchar

/-- Without an operand nothing has to be moved. -/
theorem At.forward (h : At cs pre [] opts todo s) :
    At cs (pre ++ opts) [] [] todo { s with firstNonopt := s.optind, lastNonopt := s.optind } := by
  have hoptind : s.optind = (pre ++ opts).length := by
    rw [h.optind, List.length_append, List.length_nil, Nat.add_zero]
  exact ⟨by simpa using h.argv, hoptind, hoptind, hoptind, h.nextchar⟩

theorem drop_todo (h : At cs pre non opts todo s) : s.argv.drop s.optind = todo := by
  rw [h.argv, h.optind, ← List.length_append, ← List.length_append, List.drop_left]

/-- The operands that follow are passed. -/
theorem At.skip (h : At cs pre non [] todo s) :
    At cs pre (non ++ todo.takeWhile isNonoption) [] (todo.dropWhile isNonoption) s.skip := by
  have hoptind : s.optind + (todo.takeWhile isNonoption).length =
      pre.length + (non ++ todo.takeWhile isNonoption).length := by
    rw [h.optind, List.length_nil, List.length_append]
    omega
  have hskip : s.skip = { s with
      optind := pre.length + (non ++ todo.takeWhile isNonoption).length
      lastNonopt := pre.length + (non ++ todo.takeWhile isNonoption).length } := by
    unfold State.skip
    rw [drop_todo h, hoptind]
  rw [hskip]
  refine ⟨?_, h.firstNonopt, rfl, rfl, h.nextchar⟩
  show s.argv = _
  rw [h.argv, List.append_nil, List.append_nil, List.append_assoc, List.append_assoc, List.append_assoc,
    List.takeWhile_append_dropWhile]

/-- **Permuting** puts the options in front of the operands. -/
theorem At.permute (h : At cs pre non opts todo s) :
    At cs (pre ++ opts) (non ++ todo.takeWhile isNonoption) [] (todo.dropWhile isNonoption)
      s.permute := by
  have hfirst := h.firstNonopt
  have hlast := h.lastNonopt
  have hoptind := h.optind
  unfold State.permute
  by_cases hopts : opts = []
  · -- no option since the last operand
    subst hopts
    rw [List.length_nil] at hoptind
    rw [if_neg (by omega), if_neg (by omega), List.append_nil]
    exact h.skip
  · have hpos := List.length_pos_of_ne_nil hopts
    by_cases hnon : non = []
    · subst hnon
      rw [List.length_nil] at hlast
      rw [if_neg (by omega), if_pos (by omega)]
      exact h.forward.skip
    · have hpos' := List.length_pos_of_ne_nil hnon
      rw [if_pos (by omega)]
      exact h.exchange.skip

/-! ### The end of the options -/

/-- The operands stand behind `done`, and that is where the index is. -/
structure Ended (done operands : List Bytes) (s : State) : Prop where
  argv : s.argv = done ++ operands
  optind : s.optind = done.length

theorem Ended.rewind {done operands : List Bytes} (hargv : s.argv = done ++ operands)
    (hfirst : s.firstNonopt = done.length) (hlast : s.lastNonopt = s.optind) :
    Ended done operands s.rewind := by
  unfold State.rewind
  by_cases heq : s.firstNonopt = s.lastNonopt
  · rw [if_neg (not_not_intro heq)]
    exact ⟨hargv, by omega⟩
  · rw [if_pos heq]
    exact ⟨hargv, hfirst⟩

theorem optind_eq_argc (h : At cs pre non opts todo s) : s.optind = s.argc ↔ todo = [] := by
  unfold State.argc
  rw [h.argv, h.optind, ← List.length_eq_zero_iff]
  simp only [List.length_append]
  omega

theorem arg_cons {arg : Bytes} (h : At cs pre non opts (arg :: todo) s) : s.arg = arg := by
  have hhead := congrArg List.head? (drop_todo h)
  rw [List.head?_drop] at hhead
  unfold State.arg
  rw [List.getD_eq_getElem?_getD, hhead]
  rfl

/-- Everything was looked at. -/
theorem At.next_nil (h : At cs pre non opts [] s) (hshape : non = [] ∨ opts = []) :
    s.next.1 = some (-1) ∧ Ended (pre ++ opts) non s.next.2 := by
  have hargc : s.optind = s.argc := (optind_eq_argc h).mpr rfl
  have hnext : s.next = (some (-1), s.rewind) := by
    unfold State.next
    rw [if_neg (fun hand => hand.1 hargc)]
    exact if_pos hargc
  rw [hnext]
  refine ⟨rfl, ?_⟩
  rcases hshape with rfl | rfl
  · have hrewind : s.rewind = s := by
      unfold State.rewind
      rw [if_neg (by rw [h.firstNonopt, h.lastNonopt]; simp)]
    rw [hrewind]
    exact ⟨by simpa using h.argv, by simpa using h.optind⟩
  · exact Ended.rewind (by simpa using h.argv) (by simpa using h.firstNonopt)
      (by rw [h.lastNonopt, h.optind]; simp)

theorem optind_lt_argc {arg : Bytes} (h : At cs pre non opts (arg :: todo) s) :
    s.optind < s.argc := by
  unfold State.argc
  rw [h.argv, h.optind]
  simp only [List.length_append, List.length_cons]
  omega

/-- The element `--` belongs to the options. -/
theorem At.endOptions (h : At cs pre non opts (bytes "--" :: todo) s) :
    s.endOptions.argv = pre ++ opts ++ [bytes "--"] ++ (non ++ todo) ∧
      s.endOptions.firstNonopt = (pre ++ opts ++ [bytes "--"]).length := by
  have hfirst := h.firstNonopt
  have hlast := h.lastNonopt
  have hoptind := h.optind
  have hbetween : At cs pre non (opts ++ [bytes "--"]) todo { s with optind := s.optind + 1 } :=
    ⟨by rw [h.argv]; simp, hfirst, hlast, by simp [hoptind, Nat.add_assoc], h.nextchar⟩
  unfold State.endOptions
  by_cases hnon : non = []
  · subst hnon
    rw [List.length_nil] at hlast hoptind
    simp only [hfirst, hlast, Nat.add_zero, ne_eq, not_true_eq_false, false_and, if_false, if_true]
    exact ⟨by rw [h.argv]; simp, by simp [hoptind, Nat.add_assoc]⟩
  · have hpos := List.length_pos_of_ne_nil hnon
    have hmoved := hbetween.exchange
    simp only
    rw [if_pos (by omega)]
    exact ⟨by rw [hmoved.argv]; simp, by rw [hmoved.firstNonopt]; simp⟩

/-- The element `--` ends the options. -/
theorem At.next_dashes (h : At cs pre non opts (bytes "--" :: todo) s) :
    s.next.1 = some (-1) ∧ Ended (pre ++ opts ++ [bytes "--"]) (non ++ todo) s.next.2 := by
  have hnext : s.next = (some (-1), s.endOptions.rewind) := by
    unfold State.next
    rw [if_pos ⟨(optind_lt_argc h).ne, arg_cons h⟩]
    exact if_pos rfl
  rw [hnext]
  exact ⟨rfl, Ended.rewind h.endOptions.1 h.endOptions.2 rfl⟩

theorem next_eq_here {arg : Bytes} (h : At cs pre non opts (arg :: todo) s)
    (hdashes : arg ≠ bytes "--") : s.next = s.here := by
  unfold State.next
  rw [if_neg (by rw [arg_cons h]; exact fun hand => hdashes hand.2)]

theorem ne_dashes_of_isNonoption {arg : Bytes} (harg : isNonoption arg) : arg ≠ bytes "--" := by
  rintro rfl
  simp [isNonoption, bytes] at harg

/-- An operand ends the options if nothing is permuted. -/
theorem At.next_operand {arg : Bytes} (h : At cs pre [] opts (arg :: todo) s)
    (harg : isNonoption arg) :
    s.next.1 = some (-1) ∧ Ended (pre ++ opts) (arg :: todo) s.next.2 := by
  have hhere : s.here = (some (-1), s) := by
    unfold State.here
    rw [if_neg (optind_lt_argc h).ne, arg_cons h, if_pos harg]
  rw [next_eq_here h (ne_dashes_of_isNonoption harg), hhere]
  exact ⟨rfl, by simpa using h.argv, by simpa using h.optind⟩

/-- What is left of an option element at first. -/
def text (arg : Bytes) : Bytes := arg.drop (if arg[1]? = some (chr '-') then 2 else 1)

theorem next_option {arg : Bytes} (h : At cs pre non opts (arg :: todo) s)
    (hdashes : arg ≠ bytes "--") (harg : ¬ isNonoption arg) :
    s.next = (none, { s with nextchar := text arg }) := by
  rw [next_eq_here h hdashes]
  unfold State.here
  rw [if_neg (optind_lt_argc h).ne, arg_cons h, if_neg harg]
  rfl

theorem At.setNextchar (h : At cs pre non opts todo s) (nextchar : Bytes) :
    At nextchar pre non opts todo { s with nextchar := nextchar } :=
  ⟨h.argv, h.firstNonopt, h.lastNonopt, h.optind, rfl⟩

/-! ### One call -/

theorem advance_eq (h : At cs pre non opts todo s) :
    advance posixlyCorrect s = (if posixlyCorrect then s else s.permute).next := by
  have hclamp : { s with
      lastNonopt := min s.lastNonopt s.optind
      firstNonopt := min s.firstNonopt s.optind } = s := by
    have hlast : s.lastNonopt ≤ s.optind := by
      rw [h.lastNonopt, h.optind]
      omega
    have hfirst : s.firstNonopt ≤ s.optind := by
      rw [h.firstNonopt, h.optind]
      omega
    rw [min_eq_left hlast, min_eq_left hfirst]
  unfold advance
  rw [hclamp]

theorem argc_pos (h : At cs pre non opts todo s) (hpre : 0 < pre.length) : ¬ s.argc < 1 := by
  unfold State.argc
  rw [h.argv]
  simp only [List.length_append]
  omega

/-- Between two elements, a call goes to the next one, unless there is none. -/
theorem getoptLong_stop (h : At [] pre non opts todo s) (hpre : 0 < pre.length) {ret : ℤ}
    (hret : (advance posixlyCorrect { s with optarg := none }).1 = some ret) :
    getoptLong posixlyCorrect s =
      (ret, (advance posixlyCorrect { s with optarg := none }).2) := by
  unfold getoptLong
  rw [if_neg (argc_pos h hpre)]
  refine (if_pos h.nextchar).trans ?_
  rw [← Prod.mk.eta (p := advance posixlyCorrect { s with optarg := none }), hret]

theorem getoptLong_go (h : At [] pre non opts todo s) (hpre : 0 < pre.length)
    (hret : (advance posixlyCorrect { s with optarg := none }).1 = none) :
    getoptLong posixlyCorrect s =
      option posixlyCorrect (advance posixlyCorrect { s with optarg := none }).2 := by
  unfold getoptLong
  rw [if_neg (argc_pos h hpre)]
  refine (if_pos h.nextchar).trans ?_
  rw [← Prod.mk.eta (p := advance posixlyCorrect { s with optarg := none }), hret]

/-- Within an element, it goes on with what is left. -/
theorem getoptLong_inside (h : At cs pre non opts todo s) (hcs : cs ≠ []) (hpre : 0 < pre.length) :
    getoptLong posixlyCorrect s = option posixlyCorrect { s with optarg := none } := by
  unfold getoptLong
  rw [if_neg (argc_pos h hpre)]
  have hnext : ({ s with optarg := none } : State).nextchar = cs := h.nextchar
  exact if_neg (by rw [hnext]; exact hcs)

/-! ### One element -/

/-- The call that decodes the last option of an element returns it, and takes its argument. -/
def Takes (pre non opts todo : List Bytes) (r : Returned × List Bytes) (out : ℤ × State) : Prop :=
  ∃ used, todo = used ++ r.2 ∧ out.1 = r.1.1 ∧ out.2.optarg = r.1.2 ∧
    At [] pre non (opts ++ used) r.2 out.2

theorem At.takes (h : At [] pre non opts todo s) {r : Returned} (hoptarg : s.optarg = r.2) :
    Takes pre non opts todo (r, todo) (r.1, s) :=
  ⟨[], rfl, rfl, hoptarg, by simpa using h⟩

theorem At.complain (h : At cs pre non opts todo s) (msg : Bytes) :
    At cs pre non opts todo (s.complain msg) :=
  ⟨h.argv, h.firstNonopt, h.lastNonopt, h.optind, h.nextchar⟩

theorem At.setOptarg (h : At cs pre non opts todo s) (optarg : Option Bytes) :
    At cs pre non opts todo { s with optarg := optarg } :=
  ⟨h.argv, h.firstNonopt, h.lastNonopt, h.optind, h.nextchar⟩

/-- The element is behind the index. -/
theorem At.behind {arg : Bytes} (h : At cs pre non opts (arg :: todo) s) :
    At [] pre non (opts ++ [arg]) todo { s with optind := s.optind + 1, nextchar := [] } :=
  ⟨by rw [h.argv]; simp, h.firstNonopt, h.lastNonopt, by simp [h.optind, Nat.add_assoc], rfl⟩

/-- The next element is an argument. -/
theorem At.takes_cons {arg : Bytes} (h : At [] pre non opts (arg :: todo) s) (val : ℤ) :
    Takes pre non opts (arg :: todo) (withNext val (arg :: todo))
      (val, { s with optarg := some s.arg, optind := s.optind + 1 }) := by
  have hbehind := h.behind.setOptarg (some s.arg)
  refine ⟨[arg], rfl, rfl, congrArg some (arg_cons h), ?_⟩
  exact ⟨hbehind.argv, hbehind.firstNonopt, hbehind.lastNonopt, hbehind.optind, h.nextchar⟩

/-- Some argument is missing. -/
theorem At.takes_nil (h : At [] pre non opts [] s) (hoptarg : s.optarg = none) (val : ℤ)
    (msg : Bytes) :
    Takes pre non opts [] (withNext val []) (schar (chr '?'), s.complain msg) :=
  (h.complain msg).takes (r := wrong) hoptarg

/-- A long option. -/
theorem At.long {arg : Bytes} (h : At cs pre non opts (arg :: todo) s) (hoptarg : s.optarg = none) :
    Takes pre non (opts ++ [arg]) todo (Getopt.long cs todo) (longOption s) := by
  have hbehind := h.behind
  unfold longOption Getopt.long
  rw [h.nextchar]
  cases search (cs.takeWhile (!isEquals ·)) longOptions none false with
  | missing => exact (hbehind.complain _).takes (r := wrong) hoptarg
  | ambiguous => exact (hbehind.complain _).takes (r := wrong) hoptarg
  | found p =>
    cases cs.dropWhile (!isEquals ·) with
    | cons _ value =>
      by_cases hhas : p.hasArg
      · simp only [hhas, if_true]
        exact (hbehind.setOptarg (some value)).takes (r := (p.val, some value)) rfl
      · simp only [hhas]
        exact (hbehind.complain _).takes (r := wrong) hoptarg
    | nil =>
      by_cases hhas : p.hasArg
      · simp only [hhas, if_true]
        cases todo with
        | nil =>
          rw [if_neg ((optind_eq_argc hbehind).mpr rfl).not_lt]
          exact hbehind.takes_nil hoptarg _ _
        | cons next rest =>
          rw [if_pos (optind_lt_argc hbehind)]
          exact hbehind.takes_cons _
      · simp only [hhas]
        exact hbehind.takes (r := (p.val, none)) hoptarg

/-- After an option character: still in the element, or behind it. -/
def Inside (pre non opts : List Bytes) (arg : Bytes) (todo : List Bytes) (s : State) : Bytes → Prop
  | [] => At [] pre non (opts ++ [arg]) todo s
  | c :: cs => At (c :: cs) pre non opts (arg :: todo) s

theorem Inside.complain {arg : Bytes} (h : Inside pre non opts arg todo s cs) (msg : Bytes) :
    Inside pre non opts arg todo (s.complain msg) cs := by
  cases cs with
  | nil => exact At.complain h msg
  | cons c cs => exact At.complain h msg

theorem At.consume {arg : Bytes} {c : UInt8} (h : At (c :: cs) pre non opts (arg :: todo) s) :
    Inside pre non opts arg todo s.consume cs := by
  unfold State.consume
  rw [h.nextchar]
  cases cs with
  | nil => exact h.behind
  | cons c' cs => exact ⟨h.argv, h.firstNonopt, h.lastNonopt, h.optind, rfl⟩

theorem shortOption_eq {c : UInt8} (h : s.nextchar = c :: cs) :
    shortOption posixlyCorrect s =
      match takesArg c with
      | none => (schar (chr '?'), s.consume.complain (invalidOption posixlyCorrect c))
      | some false => (schar c, s.consume)
      | some true => shortArgument c s.consume := by
  unfold shortOption takesArg
  simp only [h, List.headD_cons]
  cases myIndex c with
  | none => split_ifs <;> rfl
  | some temp =>
    by_cases hcolon : c = chr ':'
    · simp only [hcolon, if_true]
    · by_cases harg : temp[1]? = some (chr ':')
      · simp [hcolon, harg]
      · simp [hcolon, harg]

/-- The argument of an option character. -/
theorem Inside.shortArgument {arg : Bytes} {c : UInt8} (h : Inside pre non opts arg todo s cs)
    (hoptarg : s.optarg = none) :
    Takes pre non (opts ++ [arg]) todo
      (if cs ≠ [] then ((schar c, some cs), todo) else withNext (schar c) todo)
      (shortArgument c s) := by
  unfold Getopt.shortArgument
  cases cs with
  | cons c' cs =>
    have hnext : s.nextchar = c' :: cs := At.nextchar h
    rw [if_pos (List.cons_ne_nil _ _), if_pos (by rw [hnext]; exact List.cons_ne_nil _ _), hnext]
    exact ((At.behind h).setOptarg (some (c' :: cs))).takes (r := (schar c, some (c' :: cs))) rfl
  | nil =>
    have hnext : s.nextchar = [] := At.nextchar h
    rw [if_neg (not_not_intro rfl), if_neg (not_not_intro hnext)]
    cases todo with
    | nil =>
      rw [if_pos ((optind_eq_argc h).mpr rfl)]
      exact At.takes_nil h hoptarg _ _
    | cons next rest =>
      rw [if_neg (optind_lt_argc h).ne]
      exact At.takes_cons h _

/-! ### Several calls -/

/-- The calls return these options, one after the other. -/
inductive Calls (posixlyCorrect : Bool) : State → List Returned → State → Prop
  | nil {s : State} : Calls posixlyCorrect s [] s
  | cons {s t u : State} {r : Returned} {rs : List Returned}
      (hcall : getoptLong posixlyCorrect s = (r.1, t)) (hoptarg : t.optarg = r.2)
      (hrest : Calls posixlyCorrect t rs u) : Calls posixlyCorrect s (r :: rs) u

theorem Calls.append {u : State} {rs qs : List Returned} (h : Calls posixlyCorrect s rs s')
    (h' : Calls posixlyCorrect s' qs u) : Calls posixlyCorrect s (rs ++ qs) u := by
  induction h with
  | nil => exact h'
  | cons hcall hoptarg _ ih => exact .cons hcall hoptarg (ih h')

/-- What the calls return depends on the first one only. -/
theorem Calls.enter {t : State} {rs : List Returned} (h : Calls posixlyCorrect t rs s')
    (hne : rs ≠ []) (heq : getoptLong posixlyCorrect s = getoptLong posixlyCorrect t) :
    Calls posixlyCorrect s rs s' := by
  cases h with
  | nil => exact absurd rfl hne
  | cons hcall hoptarg hrest => exact .cons (heq.trans hcall) hoptarg hrest

/-- The calls decode the elements from the option element `arg` to the last of its arguments. -/
def Decodes (posixlyCorrect : Bool) (pre non opts : List Bytes) (arg : Bytes) (todo : List Bytes)
    (d : List Returned × List Bytes) (s : State) : Prop :=
  ∃ used s', todo = used ++ d.2 ∧ Calls posixlyCorrect s d.1 s' ∧
    At [] pre non (opts ++ arg :: used) d.2 s'

theorem Takes.decodes {arg : Bytes} {r : Returned × List Bytes} {out : ℤ × State}
    (h : Takes pre non (opts ++ [arg]) todo r out) (hcall : getoptLong posixlyCorrect s = out) :
    Decodes posixlyCorrect pre non opts arg todo ([r.1], r.2) s := by
  obtain ⟨used, hused, hval, hoptarg, hat⟩ := h
  refine ⟨used, out.2, hused, .cons ?_ hoptarg .nil, by simpa using hat⟩
  rw [hcall, ← hval]

theorem Decodes.cons {t : State} {arg : Bytes} {r : Returned} {d : List Returned × List Bytes}
    (h : Decodes posixlyCorrect pre non opts arg todo d t)
    (hcall : getoptLong posixlyCorrect s = (r.1, t)) (hoptarg : t.optarg = r.2) :
    Decodes posixlyCorrect pre non opts arg todo (r :: d.1, d.2) s := by
  obtain ⟨used, s', hused, hcalls, hat⟩ := h
  exact ⟨used, s', hused, .cons hcall hoptarg hcalls, hat⟩

/-- The option characters of an element. -/
theorem Inside.cluster {arg : Bytes} (h : Inside pre non opts arg todo s cs)
    (harg : arg[1]? ≠ some (chr '-')) (hpre : 0 < pre.length) :
    Decodes posixlyCorrect pre non opts arg todo (Getopt.cluster cs todo) s := by
  induction cs generalizing s with
  | nil => exact ⟨[], s, rfl, .nil, h⟩
  | cons c cs ih =>
    have hat := At.setOptarg h none
    have hcall : getoptLong posixlyCorrect s = _ :=
      (getoptLong_inside h (List.cons_ne_nil _ _) hpre).trans
        ((if_neg (by rw [arg_cons hat]; exact harg)).trans (shortOption_eq hat.nextchar))
    unfold Getopt.cluster
    cases htakes : takesArg c with
    | none =>
      rw [htakes] at hcall
      exact (ih (hat.consume.complain _)).cons (r := wrong) hcall rfl
    | some b =>
      rw [htakes] at hcall
      cases b with
      | false => exact (ih hat.consume).cons (r := (schar c, none)) hcall rfl
      | true =>
        have hdecodes := (hat.consume.shortArgument rfl).decodes hcall
        simp only
        split_ifs with hcs
        · rw [if_pos hcs] at hdecodes
          exact hdecodes
        · rw [if_neg hcs] at hdecodes
          exact hdecodes

theorem text_ne_nil {arg : Bytes} (hdashes : arg ≠ bytes "--") (harg : ¬ isNonoption arg) :
    text arg ≠ [] := by
  simp only [isNonoption, Bool.or_eq_true, decide_eq_true_eq, not_or, not_not] at harg
  obtain ⟨hdash, hlength⟩ := harg
  match arg with
  | [] => simp at hdash
  | [_] => simp at hlength
  | [a, b] =>
    by_cases hlong : b = chr '-'
    · have ha : a = chr '-' := by simpa using hdash
      subst hlong ha
      exact absurd rfl hdashes
    · simp [text, hlong]
  | a :: b :: c :: rest =>
    by_cases hlong : b = chr '-'
    · simp [text, hlong]
    · simp [text, hlong]

theorem element_ne_nil {arg : Bytes} (hdashes : arg ≠ bytes "--") (harg : ¬ isNonoption arg) :
    (element arg todo).1 ≠ [] := by
  have htext := text_ne_nil hdashes harg
  unfold text at htext
  unfold element
  split_ifs at htext ⊢ with hlong
  · exact List.cons_ne_nil _ _
  · cases hdrop : arg.drop 1 with
    | nil => exact absurd hdrop htext
    | cons c cs =>
      unfold cluster
      split
      · exact List.cons_ne_nil _ _
      · exact List.cons_ne_nil _ _
      · split_ifs <;> exact List.cons_ne_nil _ _

/-- An option element. -/
theorem At.element {arg : Bytes} (h : At (text arg) pre non opts (arg :: todo) s)
    (hdashes : arg ≠ bytes "--") (harg : ¬ isNonoption arg) (hpre : 0 < pre.length) :
    Decodes posixlyCorrect pre non opts arg todo (Getopt.element arg todo) s := by
  have htext := text_ne_nil hdashes harg
  have hcall : getoptLong posixlyCorrect s = _ := getoptLong_inside h htext hpre
  have hat := h.setOptarg none
  unfold Getopt.element
  split_ifs with hlong
  · have htext' : text arg = arg.drop 2 := by
      unfold text
      rw [if_pos hlong]
    rw [← htext']
    refine (hat.long rfl).decodes (hcall.trans ?_)
    exact if_pos (by rw [arg_cons hat]; exact hlong)
  · have htext' : text arg = arg.drop 1 := by
      unfold text
      rw [if_neg hlong]
    rw [← htext']
    refine Inside.cluster ?_ hlong hpre
    cases htail : text arg with
    | nil => exact absurd htail htext
    | cons c cs =>
      rw [htail] at h
      exact h

/-! ### The whole command line -/

theorem decode_nil : decode posixlyCorrect [] = ⟨[], [], []⟩ := by
  rw [decode]

theorem decode_dashes : decode posixlyCorrect (bytes "--" :: todo) = ⟨[], [bytes "--"], todo⟩ := by
  rw [decode, if_pos rfl]

theorem decode_operand {arg : Bytes} (harg : isNonoption arg) :
    decode true (arg :: todo) = ⟨[], [], arg :: todo⟩ := by
  rw [decode, if_neg (ne_dashes_of_isNonoption harg), if_pos harg, if_pos rfl]

theorem decode_passed {passed : List Bytes} (hpassed : ∀ arg ∈ passed, isNonoption arg) :
    decode false (passed ++ todo) =
      { decode false todo with operands := passed ++ (decode false todo).operands } := by
  induction passed with
  | nil => rfl
  | cons arg passed ih =>
    have harg := hpassed arg List.mem_cons_self
    rw [List.cons_append, decode, if_neg (ne_dashes_of_isNonoption harg), if_pos harg,
      if_neg Bool.false_ne_true, ih (fun a ha => hpassed a (List.mem_cons_of_mem _ ha))]
    rfl

theorem decode_option {arg : Bytes} {used : List Bytes} (hdashes : arg ≠ bytes "--")
    (harg : ¬ isNonoption arg) (hused : todo = used ++ (element arg todo).2) :
    decode posixlyCorrect (arg :: todo) =
      let d := decode posixlyCorrect (element arg todo).2
      ⟨(element arg todo).1 ++ d.returned, arg :: used ++ d.options, d.operands⟩ := by
  have htake : todo.take (todo.length - (element arg todo).2.length) = used := by
    have hlength := congrArg List.length hused
    rw [List.length_append] at hlength
    rw [show todo.length - (element arg todo).2.length = used.length by omega]
    conv_lhs => rw [hused]
    exact List.take_left
  rw [decode, if_neg hdashes, if_neg harg]
  simp only [htake]

/-- A call has gone to the next element that is no operand, or does not go past any operand. -/
structure Advanced (posixlyCorrect : Bool) (pre non opts todo : List Bytes) (s : State)
    (pre' opts' passed todo' : List Bytes) (t : State) : Prop where
  advance : advance posixlyCorrect s = t.next
  place : At [] pre' (non ++ passed) opts' todo' t
  optarg : t.optarg = s.optarg
  shape : non ++ passed = [] ∨ opts' = []
  done : pre' ++ opts' = pre ++ opts
  length : pre.length ≤ pre'.length
  split : todo = passed ++ todo'
  decode : decode posixlyCorrect todo = { Getopt.decode posixlyCorrect todo' with
    operands := passed ++ (Getopt.decode posixlyCorrect todo').operands }
  posix : posixlyCorrect = true → non ++ passed = []
  permuting : posixlyCorrect = false → ∀ arg ∈ todo'.head?, ¬ isNonoption arg

theorem At.advanced_posix (h : At [] pre [] opts todo s) :
    Advanced true pre [] opts todo s pre opts [] todo s where
  advance := advance_eq h
  place := h
  optarg := rfl
  shape := Or.inl rfl
  done := rfl
  length := le_rfl
  split := rfl
  decode := rfl
  posix _ := rfl
  permuting hfalse := absurd hfalse.symm Bool.false_ne_true

theorem At.advanced_permuting (h : At [] pre non opts todo s) :
    Advanced false pre non opts todo s (pre ++ opts) [] (todo.takeWhile isNonoption)
      (todo.dropWhile isNonoption) s.permute where
  advance := advance_eq h
  place := h.permute
  optarg := by
    unfold State.permute State.exchange State.skip
    split_ifs <;> rfl
  shape := Or.inr rfl
  done := List.append_nil _
  length := by simp
  split := List.takeWhile_append_dropWhile.symm
  decode := by
    conv_lhs => rw [← List.takeWhile_append_dropWhile (p := isNonoption) (l := todo)]
    exact decode_passed fun arg harg => List.mem_takeWhile_imp harg
  posix hfalse := absurd hfalse Bool.false_ne_true
  permuting _ arg harg := by
    have hnot := List.head?_dropWhile_not isNonoption todo
    rw [Option.mem_def.mp harg] at hnot
    simpa using hnot

theorem At.advanced (h : At [] pre non opts todo s) (hposix : posixlyCorrect = true → non = []) :
    ∃ pre' opts' passed todo' t,
      Advanced posixlyCorrect pre non opts todo s pre' opts' passed todo' t := by
  cases posixlyCorrect with
  | true =>
    rw [hposix rfl] at h ⊢
    exact ⟨_, _, _, _, _, h.advanced_posix⟩
  | false => exact ⟨_, _, _, _, _, h.advanced_permuting⟩

/-- The calls find what the elements mean, and the last one leaves the operands behind the options. -/
def Finds (posixlyCorrect : Bool) (d : Decoded) (done operands : List Bytes) (s : State) : Prop :=
  ∃ s', Calls posixlyCorrect s d.returned s' ∧ (getoptLong posixlyCorrect s').1 = -1 ∧
    Ended (done ++ d.options) (operands ++ d.operands) (getoptLong posixlyCorrect s').2

/-- The call that finds no option. -/
theorem finds_of_stop (h : At [] pre non opts todo s) (hpre : 0 < pre.length) {t : State}
    (hadvance : advance posixlyCorrect { s with optarg := none } = t.next)
    (hnext : t.next.1 = some (-1)) {d : Decoded} (hreturned : d.returned = []) {done operands : List Bytes}
    (hended : Ended (done ++ d.options) (operands ++ d.operands) t.next.2) :
    Finds posixlyCorrect d done operands s := by
  have hcall : getoptLong posixlyCorrect s = _ :=
    getoptLong_stop h hpre (by rw [hadvance]; exact hnext)
  rw [hadvance] at hcall
  refine ⟨s, ?_, by rw [hcall], by rw [hcall]; exact hended⟩
  rw [hreturned]
  exact .nil

theorem Finds.append {d d' : Decoded} {done operands : List Bytes} {rs : List Returned}
    {used : List Bytes} (h : Finds posixlyCorrect d (done ++ used) operands s')
    (hcalls : Calls posixlyCorrect s rs s')
    (hd : d' = ⟨rs ++ d.returned, used ++ d.options, d.operands⟩) :
    Finds posixlyCorrect d' done operands s := by
  obtain ⟨t, hrest, hret, hended⟩ := h
  subst hd
  refine ⟨t, hcalls.append hrest, hret, ?_⟩
  rw [List.append_assoc] at hended
  exact hended

theorem Finds.passed {d : Decoded} {done operands passed : List Bytes}
    (h : Finds posixlyCorrect d done (operands ++ passed) s) :
    Finds posixlyCorrect { d with operands := passed ++ d.operands } done operands s := by
  obtain ⟨s', hcalls, hret, hended⟩ := h
  rw [List.append_assoc] at hended
  exact ⟨s', hcalls, hret, hended⟩

/-- An option element, and what follows it. -/
theorem At.finds_option {arg : Bytes} {rest : List Bytes} {t : State}
    (h : At [] pre non opts todo s) (hpre : 0 < pre.length) {pre' non' opts' : List Bytes}
    (hat : At [] pre' non' opts' (arg :: rest) t) (hpre' : 0 < pre'.length)
    (hadvance : advance posixlyCorrect { s with optarg := none } = t.next) (hoptarg : t.optarg = none)
    (hdashes : arg ≠ bytes "--") (harg : ¬ isNonoption arg)
    (ih : ∀ {opts s}, At [] pre' non' opts (Getopt.element arg rest).2 s →
      Finds posixlyCorrect (decode posixlyCorrect (Getopt.element arg rest).2) (pre' ++ opts) non' s) :
    Finds posixlyCorrect (decode posixlyCorrect (arg :: rest)) (pre' ++ opts') non' s := by
  have htext := hat.setNextchar (text arg)
  have hnext := next_option hat hdashes harg
  obtain ⟨used, s', hused, hcalls, hat'⟩ :
      Decodes posixlyCorrect pre' non' opts' arg rest (Getopt.element arg rest)
        { t with nextchar := text arg } := htext.element hdashes harg hpre'
  have hcall : getoptLong posixlyCorrect s =
      getoptLong posixlyCorrect { t with nextchar := text arg } := by
    have hgo : getoptLong posixlyCorrect s = _ := getoptLong_go h hpre (by rw [hadvance, hnext])
    rw [hgo, hadvance, hnext, getoptLong_inside htext (text_ne_nil hdashes harg) hpre', ← hoptarg]
  have hrest := ih hat'
  rw [← List.append_assoc] at hrest
  exact hrest.append (hcalls.enter (element_ne_nil hdashes harg) hcall)
    (decode_option hdashes harg hused)

/-- From any place between two elements. -/
theorem At.finds (h : At [] pre non opts todo s) (hpre : 0 < pre.length)
    (hposix : posixlyCorrect = true → non = []) :
    Finds posixlyCorrect (decode posixlyCorrect todo) (pre ++ opts) non s := by
  -- on the elements that are left: an option may take several of them
  induction hn : todo.length using Nat.strongRecOn generalizing pre non opts todo s with
  | ind n ih =>
    obtain ⟨pre', opts', passed, todo', t, ha⟩ := (h.setOptarg none).advanced hposix
    rw [ha.decode, ← ha.done]
    apply Finds.passed
    cases todo' with
    | nil =>
      have hnext := ha.place.next_nil ha.shape
      exact finds_of_stop h hpre ha.advance hnext.1 (by rw [decode_nil])
        (by simpa [decode_nil] using hnext.2)
    | cons arg rest =>
      by_cases hdashes : arg = bytes "--"
      · subst hdashes
        have hnext := ha.place.next_dashes
        exact finds_of_stop h hpre ha.advance hnext.1 (by rw [decode_dashes])
          (by simpa [decode_dashes] using hnext.2)
      · by_cases harg : isNonoption arg
        · cases posixlyCorrect with
          -- all operands have been passed already
          | false => exact absurd harg (ha.permuting rfl arg rfl)
          | true =>
            have hplace := ha.place
            rw [ha.posix rfl] at hplace ⊢
            have hnext := hplace.next_operand harg
            exact finds_of_stop h hpre ha.advance hnext.1 (by rw [decode_operand harg])
              (by simpa [decode_operand harg] using hnext.2)
        · refine h.finds_option hpre ha.place (lt_of_lt_of_le hpre ha.length) ha.advance ha.optarg
            hdashes harg fun hat => ?_
          refine ih _ ?_ hat (lt_of_lt_of_le hpre ha.length) ha.posix rfl
          have hsuffix := (element_suffix arg rest).length_le
          have hsplit := congrArg List.length ha.split
          rw [List.length_append, List.length_cons] at hsplit
          omega

end Machine

/-! ### What is returned -/

theorem mem_of_search {name : Bytes} {ps : List LongOption} {pfound : Option LongOption} {ambig : Bool}
    {p : LongOption} (h : search name ps pfound ambig = .found p) : p ∈ ps ∨ pfound = some p := by
  induction ps generalizing pfound ambig with
  | nil => cases ambig <;> cases pfound <;> simp_all [search]
  | cons q ps ih =>
    rw [search] at h
    split_ifs at h with hprefix hlength
    · cases h
      exact Or.inl List.mem_cons_self
    · rcases ih h with hp | hq
      · exact Or.inl (List.mem_cons_of_mem q hp)
      · cases pfound with
        | none =>
          cases hq
          exact Or.inl List.mem_cons_self
        | some q' => exact Or.inr hq
    · exact (ih h).imp_left (List.mem_cons_of_mem q)

theorem mem_optstring {c : UInt8} {b : Bool} (h : takesArg c = some b) : c ∈ optstring := by
  by_contra hmem
  have hindex : myIndex c = none := by
    unfold myIndex
    rw [List.dropWhile_eq_nil_iff.mpr]
    intro x hx
    simp only [decide_eq_true_eq]
    rintro rfl
    exact hmem hx
  rw [takesArg, hindex] at h
  split_ifs at h
  cases h

/-- A call that finds an option does not return -1. -/
theorem ne_of_takesArg {c : UInt8} {b : Bool} (h : takesArg c = some b) : schar c ≠ -1 := by
  have hall : ∀ c ∈ optstring, schar c ≠ -1 := by decide +kernel
  exact hall c (mem_optstring h)

theorem ne_of_found {name : Bytes} {p : LongOption}
    (h : search name longOptions none false = .found p) : p.val ≠ -1 := by
  have hmem := (mem_of_search h).resolve_right (Option.some_ne_none p ∘ Eq.symm)
  simp only [longOptions, List.mem_cons, List.not_mem_nil, or_false] at hmem
  rcases hmem with rfl | rfl | rfl | rfl | rfl | rfl | rfl | rfl | rfl <;> decide

theorem wrong_ne : wrong.1 ≠ -1 := by decide

theorem withNext_ne {val : ℤ} (h : val ≠ -1) (rest : List Bytes) : (withNext val rest).1.1 ≠ -1 := by
  cases rest with
  | nil => exact wrong_ne
  | cons _ _ => exact h

theorem cluster_ne {cs : Bytes} {rest : List Bytes} {r : Returned} (hr : r ∈ (cluster cs rest).1) :
    r.1 ≠ -1 := by
  induction cs with
  | nil => cases hr
  | cons c cs ih =>
    unfold cluster at hr
    split at hr
    · rcases List.mem_cons.mp hr with rfl | hr
      · exact wrong_ne
      · exact ih hr
    · rename_i hc
      rcases List.mem_cons.mp hr with rfl | hr
      · exact ne_of_takesArg hc
      · exact ih hr
    · rename_i hc
      split_ifs at hr
      · rw [List.mem_singleton.mp hr]
        exact ne_of_takesArg hc
      · rw [List.mem_singleton.mp hr]
        exact withNext_ne (ne_of_takesArg hc) rest

theorem long_ne (text : Bytes) (rest : List Bytes) : (long text rest).1.1 ≠ -1 := by
  unfold long
  split
  · rename_i hfound
    split
    · split_ifs
      · exact ne_of_found hfound
      · exact wrong_ne
    · split_ifs
      · exact withNext_ne (ne_of_found hfound) rest
      · exact ne_of_found hfound
  · exact wrong_ne

theorem decode_ne {posixlyCorrect : Bool} {args : List Bytes} {r : Returned}
    (hr : r ∈ (decode posixlyCorrect args).returned) : r.1 ≠ -1 := by
  fun_induction decode posixlyCorrect args with
  | case1 => cases hr
  | case2 rest => cases hr
  | case3 arg rest => cases hr
  | case4 arg rest _ _ _ _ ih => exact ih hr
  | case5 arg rest _ _ _ ih =>
    rcases List.mem_append.mp hr with hr | hr
    · unfold element at hr
      split_ifs at hr
      · rw [List.mem_singleton.mp hr]
        exact long_ne _ _
      · exact cluster_ne hr
    · exact ih hr

theorem take_append_element (arg : Bytes) (rest : List Bytes) :
    rest.take (rest.length - (element arg rest).2.length) ++ (element arg rest).2 = rest :=
  List.suffix_iff_eq_append.mp (element_suffix arg rest)

/-- Every element belongs to the options or to the operands. -/
theorem decode_perm (posixlyCorrect : Bool) (args : List Bytes) :
    ((decode posixlyCorrect args).options ++ (decode posixlyCorrect args).operands).Perm args := by
  fun_induction decode posixlyCorrect args with
  | case1 => exact List.Perm.refl _
  | case2 rest => exact List.Perm.refl _
  | case3 arg rest => exact List.Perm.refl _
  | case4 arg rest _ _ _ _ ih => exact List.perm_middle.trans (ih.cons arg)
  | case5 arg rest _ _ _ ih =>
    have hall := take_append_element arg rest
    simp only [List.cons_append, List.append_assoc]
    refine List.Perm.cons arg ?_
    conv_rhs => rw [← hall]
    exact ih.append_left _

/-- The options and the operands keep their order. -/
theorem decode_sublist (posixlyCorrect : Bool) (args : List Bytes) :
    (decode posixlyCorrect args).options.Sublist args ∧
      (decode posixlyCorrect args).operands.Sublist args := by
  fun_induction decode posixlyCorrect args with
  | case1 => exact ⟨List.Sublist.refl _, List.Sublist.refl _⟩
  | case2 rest => exact ⟨by simp, List.sublist_cons_self _ _⟩
  | case3 arg rest => exact ⟨List.nil_sublist _, List.Sublist.refl _⟩
  | case4 arg rest _ _ _ _ ih => exact ⟨ih.1.cons arg, ih.2.cons_cons arg⟩
  | case5 arg rest _ _ _ ih =>
    constructor
    · conv_rhs => rw [← take_append_element arg rest]
      exact (ih.1.append_left _).cons_cons arg
    · exact (ih.2.trans (element_suffix arg rest).sublist).cons arg

/-! ### From the first call on -/

theorem At.init (prog : Bytes) (args : List Bytes) :
    At [] [prog] [] [] args (State.init (prog :: args)) :=
  ⟨rfl, rfl, rfl, rfl, rfl⟩

/-- **The command line.**  The calls of `getopt_long` return the options from left to right, and then
-1.  The elements that they are made of stand in front of the operands then, and both are in the
order of the command line. -/
theorem getoptLong_decode (posixlyCorrect : Bool) (prog : Bytes) (args : List Bytes) :
    let d := decode posixlyCorrect args
    (∃ s, Calls posixlyCorrect (State.init (prog :: args)) d.returned s ∧
      (getoptLong posixlyCorrect s).1 = -1 ∧
      (getoptLong posixlyCorrect s).2.argv = prog :: (d.options ++ d.operands) ∧
      (getoptLong posixlyCorrect s).2.argv.drop (getoptLong posixlyCorrect s).2.optind = d.operands) ∧
    (∀ r ∈ d.returned, r.1 ≠ -1) ∧ (d.options ++ d.operands).Perm args ∧
      d.options.Sublist args ∧ d.operands.Sublist args := by
  intro d
  obtain ⟨s, hcalls, hret, hended⟩ : Finds posixlyCorrect d [prog] [] (State.init (prog :: args)) :=
    (At.init prog args).finds (by simp) (fun _ => rfl)
  refine ⟨⟨s, hcalls, hret, hended.argv, ?_⟩, fun r hr => decode_ne hr, decode_perm _ _,
    decode_sublist _ _⟩
  rw [hended.argv, hended.optind, List.drop_left]
  rfl

/-! ### The options of a run -/

/-- The options that the command line asks for. -/
def commandLine (posixlyCorrect : Bool) (args : List Bytes) : List Opt :=
  (decode posixlyCorrect args).returned.map fun r => ofReturn r.1 (r.2.getD [])

/-- The rounds of `get_opts` for several calls. -/
theorem Calls.getOptsFrom (host : Host) {posixlyCorrect : Bool} {s s' : State} {rs : List Returned}
    (h : Calls posixlyCorrect s rs s') (hne : ∀ r ∈ rs, r.1 ≠ -1)
    (hlast : (getoptLong posixlyCorrect s').1 = -1) {fuel : ℕ} (hfuel : rs.length < fuel)
    (p : Preferences) :
    getOptsFrom host posixlyCorrect fuel s p =
      getOpts host (rs.map fun r => ofReturn r.1 (r.2.getD [])) p := by
  induction h generalizing fuel p with
  | nil =>
    cases fuel with
    | zero => omega
    | succ fuel =>
      unfold Getopt.getOptsFrom
      exact if_pos hlast
  | @cons s t _ r rs hcall hoptarg _ ih =>
    cases fuel with
    | zero => omega
    | succ fuel =>
      have hr : r.1 ≠ -1 := hne r List.mem_cons_self
      have hrest := ih (fun q hq => hne q (List.mem_cons_of_mem _ hq)) hlast
        (Nat.lt_of_succ_lt_succ hfuel)
      unfold Getopt.getOptsFrom getOpts
      rw [hcall, List.map_cons, List.foldlM_cons]
      simp only [if_neg hr, hoptarg]
      exact congrArg _ (funext hrest)

/-- **`get_opts`.**  Its loop ends, and what it makes of the preferences is what the options of the
command line make of them, from left to right. -/
theorem getOptsFrom_eq (host : Host) (posixlyCorrect : Bool) (prog : Bytes) (args : List Bytes)
    (p : Preferences) :
    ∃ rounds, ∀ fuel, rounds ≤ fuel →
      getOptsFrom host posixlyCorrect fuel (State.init (prog :: args)) p =
        getOpts host (commandLine posixlyCorrect args) p := by
  obtain ⟨s, hcalls, hret, -⟩ : Finds posixlyCorrect (decode posixlyCorrect args) [prog] []
      (State.init (prog :: args)) := (At.init prog args).finds (by simp) (fun _ => rfl)
  exact ⟨(decode posixlyCorrect args).returned.length + 1, fun fuel hfuel =>
    hcalls.getOptsFrom host (fun r hr => decode_ne hr) hret hfuel p⟩

end Mailfilter.Getopt
