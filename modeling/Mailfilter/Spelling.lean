import Mailfilter.CommandLine

/-!
# How a command line may be written

An option can be given in several ways, and the operands can stand anywhere between the options.

* `search_unique`: a name that only one option of the table begins with stands for that option;
* `Word`, what can be written: an operand, some option characters in one element, an option with its
  argument in the same element or in the next one, a long option that may be abbreviated;
* `decode_words`: each word is decoded as what it stands for, whatever the other words are;
* `Written`, a command line that consists of words, with or without `--`, and `getoptLong_words`: what
  `getopt_long` makes of it.
-/

namespace Mailfilter.Getopt

/-! ### Abbreviations -/

theorem differs_self (p : LongOption) : p.differs p = false := by
  simp [LongOption.differs]

theorem search_of_unique {name : Bytes} {p : LongOption} {ps : List LongOption}
    {pfound : Option LongOption} (hfound : ∀ q ∈ pfound, q = p) (hmem : p ∈ ps ∨ p ∈ pfound)
    (hbegins : name <+: p.name) (hunique : ∀ q ∈ ps, name <+: q.name → q = p) :
    search name ps pfound false = .found p := by
  induction ps generalizing pfound with
  | nil =>
    have hp : p ∈ pfound := hmem.resolve_left (List.not_mem_nil)
    rw [Option.mem_def.mp hp]
    rfl
  | cons q ps ih =>
    have hrest : ∀ r ∈ ps, name <+: r.name → r = p := fun r hr =>
      hunique r (List.mem_cons_of_mem q hr)
    rw [search]
    by_cases hq : name <+: q.name
    · have heq : q = p := hunique q List.mem_cons_self hq
      subst heq
      rw [if_pos (List.isPrefixOf_iff_prefix.mpr hq)]
      by_cases hlength : name.length = q.name.length
      · rw [if_pos hlength]
      · rw [if_neg hlength]
        -- whether it is the first one or was found before, it does not differ from itself
        cases pfound with
        | none => exact ih (by simp) (Or.inr rfl) hrest
        | some r =>
          have hr : r = q := hfound r rfl
          subst hr
          simp only [Option.any_some, differs_self, Bool.or_false]
          exact ih (by simp) (Or.inr rfl) hrest
    · rw [if_neg (fun h => hq (List.isPrefixOf_iff_prefix.mp h))]
      refine ih hfound ?_ hrest
      rcases hmem with hp | hp
      · rcases List.mem_cons.mp hp with rfl | hp
        · exact absurd hbegins hq
        · exact Or.inl hp
      · exact Or.inr hp

/-- A name that one option of the table begins with, and no other one. -/
structure Abbreviation where
  name : Bytes
  option : LongOption
  mem : option ∈ longOptions
  begins : name <+: option.name
  unique : ∀ p ∈ longOptions, name <+: p.name → p = option

theorem whole_unique : ∀ p ∈ longOptions, ∀ q ∈ longOptions, p.name <+: q.name → q = p := by
  decide +kernel

namespace Abbreviation

/-- Every option can be given by its whole name. -/
def whole (p : LongOption) (hp : p ∈ longOptions) : Abbreviation :=
  ⟨p.name, p, hp, List.prefix_rfl, whole_unique p hp⟩

variable (a : Abbreviation)

theorem search_unique : search a.name longOptions none false = .found a.option :=
  search_of_unique (by simp) (Or.inl a.mem) a.begins a.unique

/-- Both `--help` and `--verbose` begin with the empty name. -/
theorem name_ne_nil : a.name ≠ [] := by
  intro hnil
  have hhelp := a.unique _ (List.mem_cons_self : _ ∈ longOptions) (by rw [hnil]; exact List.nil_prefix)
  have hverbose := a.unique _ (List.mem_cons_of_mem _ List.mem_cons_self : _ ∈ longOptions)
    (by rw [hnil]; exact List.nil_prefix)
  have hval := congrArg LongOption.val (hhelp.trans hverbose.symm)
  simp [valueHelp, valueVerbose] at hval

theorem isEquals_of_mem {c : UInt8} (hc : c ∈ a.name) : isEquals c = false := by
  have hall : ∀ p ∈ longOptions, ∀ c ∈ p.name, isEquals c = false := by decide +kernel
  exact hall _ a.mem c (a.begins.subset hc)

theorem takeWhile_name : a.name.takeWhile (!isEquals ·) = a.name :=
  List.takeWhile_eq_self_iff.mpr fun c hc => by simp [a.isEquals_of_mem hc]

theorem dropWhile_name : a.name.dropWhile (!isEquals ·) = [] :=
  List.dropWhile_eq_nil_iff.mpr fun c hc => by simp [a.isEquals_of_mem hc]

theorem takeWhile_equals (value : Bytes) :
    (a.name ++ chr '=' :: value).takeWhile (!isEquals ·) = a.name := by
  rw [List.takeWhile_append_of_pos fun c hc => by simp [a.isEquals_of_mem hc]]
  simp [isEquals]

theorem dropWhile_equals (value : Bytes) :
    (a.name ++ chr '=' :: value).dropWhile (!isEquals ·) = chr '=' :: value := by
  rw [List.dropWhile_append_of_pos fun c hc => by simp [a.isEquals_of_mem hc]]
  simp [isEquals]

end Abbreviation

/-! ### Words -/

/-- An option character without an argument. -/
abbrev Flag := { c : UInt8 // takesArg c = some false }

/-- An option character with an argument. -/
abbrev Letter := { c : UInt8 // takesArg c = some true }

def Flag.returned (c : Flag) : Returned := (schar c, none)

def letters (cs : List Flag) : Bytes := cs.map Subtype.val

/-- What can be written. -/
inductive Word
  | operand (arg : { arg : Bytes // isNonoption arg })
  | flags (c : Flag) (cs : List Flag)
  | joined (cs : List Flag) (c : Letter) (value : { value : Bytes // value ≠ [] })
  | separate (cs : List Flag) (c : Letter) (value : Bytes)
  | long (a : Abbreviation) (h : a.option.hasArg = false)
  | longJoined (a : Abbreviation) (h : a.option.hasArg = true) (value : Bytes)
  | longSeparate (a : Abbreviation) (h : a.option.hasArg = true) (value : Bytes)

namespace Word

/-- The elements of `argv`. -/
def elements : Word → List Bytes
  | operand arg => [arg.val]
  | flags c cs => [chr '-' :: letters (c :: cs)]
  | joined cs c value => [chr '-' :: (letters cs ++ c.val :: value.val)]
  | separate cs c value => [chr '-' :: (letters cs ++ [c.val]), value]
  | long a _ => [bytes "--" ++ a.name]
  | longJoined a _ value => [bytes "--" ++ (a.name ++ chr '=' :: value)]
  | longSeparate a _ value => [bytes "--" ++ a.name, value]

/-- What the word stands for. -/
def returned : Word → List Returned
  | operand _ => []
  | flags c cs => (c :: cs).map Flag.returned
  | joined cs c value => cs.map Flag.returned ++ [(schar c.val, some value.val)]
  | separate cs c value => cs.map Flag.returned ++ [(schar c.val, some value)]
  | long a _ => [(a.option.val, none)]
  | longJoined a _ value => [(a.option.val, some value)]
  | longSeparate a _ value => [(a.option.val, some value)]

def isOperand : Word → Bool
  | operand _ => true
  | _ => false

/-- The elements that belong to an option. -/
def options (w : Word) : List Bytes := if w.isOperand then [] else w.elements

def operands (w : Word) : List Bytes := if w.isOperand then w.elements else []

end Word

/-! ### One word -/

theorem cluster_letters (cs : List Flag) (tail : Bytes) (rest : List Bytes) :
    cluster (letters cs ++ tail) rest =
      (cs.map Flag.returned ++ (cluster tail rest).1, (cluster tail rest).2) := by
  induction cs with
  | nil => rfl
  | cons c cs ih =>
    have hcons : letters (c :: cs) ++ tail = c.val :: (letters cs ++ tail) := rfl
    rw [hcons, cluster, c.property]
    simp only [ih]
    rfl

theorem cluster_joined (c : Letter) {value : Bytes} (hvalue : value ≠ []) (rest : List Bytes) :
    cluster (c.val :: value) rest = ([(schar c.val, some value)], rest) := by
  rw [cluster, c.property]
  exact if_pos hvalue

theorem cluster_separate (c : Letter) (value : Bytes) (rest : List Bytes) :
    cluster [c.val] (value :: rest) = ([(schar c.val, some value)], rest) := by
  rw [cluster, c.property]
  rfl

theorem ne_dash_of_takesArg {c : UInt8} {b : Bool} (h : takesArg c = some b) : c ≠ chr '-' := by
  have hdash : takesArg (chr '-') = none := by decide +kernel
  rintro rfl
  rw [hdash] at h
  cases h

/-- An element that begins with an option character. -/
structure IsShort (arg : Bytes) (c : UInt8) (cs : Bytes) : Prop where
  eq : arg = chr '-' :: c :: cs
  takes : ∃ b, takesArg c = some b

namespace IsShort

variable {arg : Bytes} {c : UInt8} {cs : Bytes} (h : IsShort arg c cs)
include h

theorem ne_dash : c ≠ chr '-' := by
  obtain ⟨b, hb⟩ := h.takes
  exact ne_dash_of_takesArg hb

theorem not_nonoption : ¬ isNonoption arg := by
  rw [h.eq]
  simp [isNonoption]

theorem ne_dashes : arg ≠ bytes "--" := by
  rw [h.eq]
  intro heq
  have hboth : c = chr '-' ∧ cs = [] := by simpa [bytes] using heq
  exact h.ne_dash hboth.1

theorem element_eq (rest : List Bytes) : element arg rest = cluster (c :: cs) rest := by
  unfold element
  rw [h.eq, if_neg (by simpa using h.ne_dash)]
  rfl

end IsShort

theorem isShort_letters (c : Flag) (cs : List Flag) :
    IsShort (chr '-' :: letters (c :: cs)) c.val (letters cs) :=
  ⟨rfl, false, c.property⟩

theorem isShort_letters_append (cs : List Flag) (c : Letter) (tail : Bytes) :
    ∃ c' cs', IsShort (chr '-' :: (letters cs ++ c.val :: tail)) c' cs' ∧
      c' :: cs' = letters cs ++ c.val :: tail := by
  cases cs with
  | nil => exact ⟨c.val, tail, ⟨rfl, true, c.property⟩, rfl⟩
  | cons c₀ cs => exact ⟨c₀.val, letters cs ++ c.val :: tail, ⟨rfl, false, c₀.property⟩, rfl⟩

theorem not_nonoption_dashes (text : Bytes) : ¬ isNonoption (bytes "--" ++ text) := by
  simp [isNonoption, bytes]

theorem element_dashes (text : Bytes) (rest : List Bytes) :
    element (bytes "--" ++ text) rest = ([(long text rest).1], (long text rest).2) := by
  unfold element
  rw [if_pos (by rfl)]
  rfl

theorem dashes_ne {text : Bytes} (htext : text ≠ []) : bytes "--" ++ text ≠ bytes "--" := by
  simpa using htext

namespace Abbreviation

variable (a : Abbreviation)

theorem long_eq (h : a.option.hasArg = false) (rest : List Bytes) :
    Getopt.long a.name rest = ((a.option.val, none), rest) := by
  unfold Getopt.long
  rw [a.takeWhile_name, a.search_unique, a.dropWhile_name]
  simp [h]

theorem long_joined (h : a.option.hasArg = true) (value : Bytes) (rest : List Bytes) :
    Getopt.long (a.name ++ chr '=' :: value) rest = ((a.option.val, some value), rest) := by
  unfold Getopt.long
  rw [a.takeWhile_equals, a.search_unique, a.dropWhile_equals]
  simp [h]

theorem long_separate (h : a.option.hasArg = true) (value : Bytes) (rest : List Bytes) :
    Getopt.long a.name (value :: rest) = ((a.option.val, some value), rest) := by
  unfold Getopt.long
  rw [a.takeWhile_name, a.search_unique, a.dropWhile_name]
  simp [h, withNext]

end Abbreviation

/-! ### All words -/

/-- What a command line stands for, with some words in front of it. -/
def Decoded.behind (returned : List Returned) (options operands : List Bytes) (d : Decoded) : Decoded :=
  ⟨returned ++ d.returned, options ++ d.options, operands ++ d.operands⟩

theorem decode_element {posixlyCorrect : Bool} {arg : Bytes} {used rest : List Bytes}
    {returned : List Returned} (hdashes : arg ≠ bytes "--") (harg : ¬ isNonoption arg)
    (helement : element arg (used ++ rest) = (returned, rest)) :
    decode posixlyCorrect (arg :: used ++ rest) =
      (decode posixlyCorrect rest).behind returned (arg :: used) [] := by
  have hused : used ++ rest = used ++ (element arg (used ++ rest)).2 := by rw [helement]
  rw [List.cons_append, decode_option hdashes harg hused, helement]
  rfl

theorem IsShort.decode {posixlyCorrect : Bool} {arg : Bytes} {c : UInt8} {cs : Bytes}
    (used : List Bytes) {rest : List Bytes} {returned : List Returned} (h : IsShort arg c cs)
    (hcluster : cluster (c :: cs) (used ++ rest) = (returned, rest)) :
    decode posixlyCorrect (arg :: used ++ rest) =
      (Getopt.decode posixlyCorrect rest).behind returned (arg :: used) [] :=
  decode_element h.ne_dashes h.not_nonoption ((h.element_eq _).trans hcluster)

theorem decode_long {posixlyCorrect : Bool} {text : Bytes} (used : List Bytes) {rest : List Bytes}
    {r : Returned} (htext : text ≠ []) (hlong : long text (used ++ rest) = (r, rest)) :
    decode posixlyCorrect ((bytes "--" ++ text) :: used ++ rest) =
      (decode posixlyCorrect rest).behind [r] ((bytes "--" ++ text) :: used) [] :=
  decode_element (dashes_ne htext) (not_nonoption_dashes text) (by rw [element_dashes, hlong])

/-- Each word is decoded as what it stands for, except for an operand that ends the options. -/
theorem decode_word {posixlyCorrect : Bool} {w : Word}
    (hw : posixlyCorrect = true → w.isOperand = false) (rest : List Bytes) :
    decode posixlyCorrect (w.elements ++ rest) =
      (decode posixlyCorrect rest).behind w.returned w.options w.operands := by
  cases w with
  | operand arg =>
    have hpassed : ∀ arg' ∈ [arg.val], isNonoption arg' := by simpa using arg.property
    cases posixlyCorrect with
    | true => exact absurd (hw rfl) Bool.noConfusion
    | false => exact decode_passed hpassed
  | flags c cs =>
    refine (isShort_letters c cs).decode [] ?_
    have hall := cluster_letters (c :: cs) [] rest
    rw [List.append_nil] at hall
    exact hall.trans (by simp [cluster, Word.returned])
  | joined cs c value =>
    obtain ⟨c', cs', hshort, heq⟩ := isShort_letters_append cs c value.val
    refine hshort.decode [] ?_
    rw [heq, cluster_letters, List.nil_append, cluster_joined c value.property]
    rfl
  | separate cs c value =>
    obtain ⟨c', cs', hshort, heq⟩ := isShort_letters_append cs c []
    refine hshort.decode [value] ?_
    rw [heq, cluster_letters, List.singleton_append, cluster_separate c value]
    rfl
  | long a h => exact decode_long [] a.name_ne_nil (a.long_eq h rest)
  | longJoined a h value =>
    exact decode_long [] (by simp) (a.long_joined h value rest)
  | longSeparate a h value =>
    exact decode_long [value] a.name_ne_nil (a.long_separate h value rest)

theorem decode_words {posixlyCorrect : Bool} {ws : List Word}
    (hws : ∀ w ∈ ws, posixlyCorrect = true → w.isOperand = false) (rest : List Bytes) :
    decode posixlyCorrect (ws.flatMap Word.elements ++ rest) =
      (decode posixlyCorrect rest).behind (ws.flatMap Word.returned) (ws.flatMap Word.options)
        (ws.flatMap Word.operands) := by
  induction ws with
  | nil => rfl
  | cons w ws ih =>
    simp only [List.flatMap_cons, List.append_assoc]
    rw [decode_word (hws w List.mem_cons_self), ih fun w hw => hws w (List.mem_cons_of_mem _ hw)]
    simp [Decoded.behind]

/-! ### Command lines -/

/-- Some words, and perhaps the element `--` with operands behind it. -/
structure Written where
  words : List Word
  rest : Option (List Bytes)

namespace Written

variable (posixlyCorrect : Bool) (l : Written)

/-- The element `--`. -/
def dashes : List Bytes := if l.rest.isSome then [bytes "--"] else []

def elements : List Bytes := l.words.flatMap Word.elements ++ (l.dashes ++ l.rest.getD [])

/-- The words before the end of the options. -/
def scanned : List Word := if posixlyCorrect then l.words.takeWhile (!·.isOperand) else l.words

/-- With `POSIXLY_CORRECT` the first operand ends the options. -/
def unscanned : List Word := if posixlyCorrect then l.words.dropWhile (!·.isOperand) else []

def returned : List Returned := (l.scanned posixlyCorrect).flatMap Word.returned

def options : List Bytes :=
  (l.scanned posixlyCorrect).flatMap Word.options ++
    if (l.unscanned posixlyCorrect).isEmpty then l.dashes else []

def operands : List Bytes :=
  (l.scanned posixlyCorrect).flatMap Word.operands ++
    if (l.unscanned posixlyCorrect).isEmpty then l.rest.getD []
    else (l.unscanned posixlyCorrect).flatMap Word.elements ++ (l.dashes ++ l.rest.getD [])

theorem scanned_append_unscanned :
    l.scanned posixlyCorrect ++ l.unscanned posixlyCorrect = l.words := by
  cases posixlyCorrect with
  | true => exact List.takeWhile_append_dropWhile
  | false => exact List.append_nil _

theorem isOperand_of_mem_scanned {w : Word} (hw : w ∈ l.scanned posixlyCorrect)
    (hposix : posixlyCorrect = true) : w.isOperand = false := by
  subst hposix
  simpa using List.mem_takeWhile_imp hw

/-- Behind the words there are the operands, or nothing. -/
theorem decode_closing : decode posixlyCorrect (l.dashes ++ l.rest.getD []) =
    ⟨[], l.dashes, l.rest.getD []⟩ := by
  unfold dashes
  cases l.rest with
  | none => exact decode_nil
  | some rest => exact decode_dashes

/-- What is left at the first operand is not looked at. -/
theorem decode_unscanned (rest : List Bytes) :
    (l.unscanned posixlyCorrect).isEmpty ∨
      decode posixlyCorrect ((l.unscanned posixlyCorrect).flatMap Word.elements ++ rest) =
        ⟨[], [], (l.unscanned posixlyCorrect).flatMap Word.elements ++ rest⟩ := by
  cases posixlyCorrect with
  | false => exact Or.inl rfl
  | true =>
    cases hleft : l.unscanned true with
    | nil => exact Or.inl rfl
    | cons w ws =>
      have hoperand : w.isOperand = true := by
        have hnot := List.head?_dropWhile_not (fun w : Word => !w.isOperand) l.words
        have hhead : (l.words.dropWhile fun w => !w.isOperand).head? = some w :=
          congrArg List.head? hleft
        rw [hhead] at hnot
        simpa using hnot
      cases w with
      | operand arg => exact Or.inr (decode_operand arg.property)
      | _ => exact absurd hoperand Bool.noConfusion

theorem decode_elements : decode posixlyCorrect l.elements =
    ⟨l.returned posixlyCorrect, l.options posixlyCorrect, l.operands posixlyCorrect⟩ := by
  have hwords := decode_words (fun w hw => l.isOperand_of_mem_scanned posixlyCorrect hw)
    ((l.unscanned posixlyCorrect).flatMap Word.elements ++ (l.dashes ++ l.rest.getD []))
  rw [← List.append_assoc, ← List.flatMap_append, scanned_append_unscanned] at hwords
  refine hwords.trans ?_
  unfold Decoded.behind returned options operands
  by_cases hempty : (l.unscanned posixlyCorrect).isEmpty = true
  · rw [if_pos hempty, if_pos hempty, List.isEmpty_iff.mp hempty, List.flatMap_nil, List.nil_append,
      decode_closing, List.append_nil]
  · rw [if_neg hempty, if_neg hempty, (l.decode_unscanned posixlyCorrect _).resolve_left hempty,
      List.append_nil]

end Written

/-- **Spelling.**  However the options are written, and wherever the operands stand between them,
`getopt_long` returns the options that the words stand for, and the loop of `get_opts` applies these.
Everything is an operand behind the element `--`, if there is one, and with `POSIXLY_CORRECT` from the
first operand on. -/
theorem getoptLong_words (host : Host) (posixlyCorrect : Bool) (prog : Bytes) (l : Written)
    (p : Preferences) :
    (∃ s, Calls posixlyCorrect (State.init (prog :: l.elements)) (l.returned posixlyCorrect) s ∧
      (getoptLong posixlyCorrect s).1 = -1 ∧
      (getoptLong posixlyCorrect s).2.argv =
        prog :: (l.options posixlyCorrect ++ l.operands posixlyCorrect) ∧
      (getoptLong posixlyCorrect s).2.argv.drop (getoptLong posixlyCorrect s).2.optind =
        l.operands posixlyCorrect) ∧
    ∃ rounds, ∀ fuel, rounds ≤ fuel →
      getOptsFrom host posixlyCorrect fuel (State.init (prog :: l.elements)) p =
        getOpts host ((l.returned posixlyCorrect).map fun r => ofReturn r.1 (r.2.getD [])) p := by
  have hdecode := l.decode_elements posixlyCorrect
  obtain ⟨s, hcalls, hret, hended⟩ : Finds posixlyCorrect _ [prog] [] (State.init (prog :: l.elements)) :=
    (At.init prog _).finds (by simp) (fun _ => rfl)
  have hne : ∀ r ∈ (decode posixlyCorrect l.elements).returned, r.1 ≠ -1 := fun r hr => decode_ne hr
  rw [hdecode] at hcalls hended hne
  refine ⟨⟨s, hcalls, hret, hended.argv, ?_⟩, (l.returned posixlyCorrect).length + 1,
    fun fuel hfuel => hcalls.getOptsFrom host hne hret hfuel p⟩
  rw [hended.argv, hended.optind, List.drop_left]
  rfl

example (h : ⟨bytes "test", false, valueTest⟩ ∈ longOptions) :
    (Word.long (.whole _ h) rfl).elements = [bytes "--test"] ∧
      (Word.long (.whole _ h) rfl).returned.map (fun r => ofReturn r.1 []) = [.test] :=
  ⟨rfl, rfl⟩

end Mailfilter.Getopt
