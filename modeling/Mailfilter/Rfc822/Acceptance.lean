import Mailfilter.Rfc822.Lines
import Mailfilter.Rfc822.Parser

/-!
# Which headers are sentences

The texts that the scanner turns into sentences of the grammar, and that the parser therefore reads
without ending the program.

* `LineOk`: a line may come next.  It must not start like an mbox line, for which the grammar has no
  rule, and it may start with white space, or be empty, only while a field is open;
* `Orderly`: every line may come where it comes;
* `accepts_lineTokens`: these are the texts whose tokens the parser accepts;
* `rfc822_sentence_iff`: the same for the text that the server sends, and `rfc822_mboxLine`, a text
  that ends the program.
-/

namespace Mailfilter.Rfc822

/-! ### Orderly lines -/

/-- The line may start where a line starts. -/
def StartsWell (field : Bool) (l : Bytes) : Prop :=
  isTopline l = false ∧ (l.head?.any isspace = true → field = true)

/-- The line may come next; `field` says that a field is open. -/
def LineOk (field : Bool) : Place → Bytes → Prop
  | .start, l => StartsWell field l
  | .value, _ => True
  | .pending empty, l => l = dotLine ∨ ((empty = true → field = true) ∧ StartsWell field l)

/-- The text may end here. -/
def EndOk (field : Bool) : Place → Prop
  | .start => True
  | .value => False
  | .pending empty => empty = true → field = true

/-- Is a field open after the line?  A tag opens one, and the end of a message closes it. -/
def fieldAfter (field : Bool) : Place → Bytes → Bool
  | .start, l => field || (splitTag l).isSome
  | .value, _ => true
  | .pending _, l => if l = dotLine then false else field || (splitTag l).isSome

/-- Every line may come where it comes. -/
def Orderly : Bool → Place → List Bytes → Prop
  | field, p, [] => EndOk field p
  | field, p, l :: ls => LineOk field p l ∧ Orderly (fieldAfter field p l) (lineStep p l).2 ls

instance (field : Bool) (l : Bytes) : Decidable (StartsWell field l) :=
  inferInstanceAs (Decidable (_ ∧ _))

instance (field : Bool) : (p : Place) → (l : Bytes) → Decidable (LineOk field p l)
  | .start, l => inferInstanceAs (Decidable (StartsWell field l))
  | .value, _ => inferInstanceAs (Decidable True)
  | .pending _, _ => inferInstanceAs (Decidable (_ ∨ _))

instance (field : Bool) : (p : Place) → Decidable (EndOk field p)
  | .start => inferInstanceAs (Decidable True)
  | .value => inferInstanceAs (Decidable False)
  | .pending _ => inferInstanceAs (Decidable (_ → _))

instance decidableOrderly : (field : Bool) → (p : Place) → (ls : List Bytes) →
    Decidable (Orderly field p ls)
  | field, p, [] => inferInstanceAs (Decidable (EndOk field p))
  | field, p, l :: ls =>
    have := decidableOrderly (fieldAfter field p l) (lineStep p l).2 ls
    inferInstanceAs (Decidable (_ ∧ _))

instance (l : Bytes) : Decidable (Clean l) := inferInstanceAs (Decidable (_ ∧ _))

/-! ### Acceptance -/

/-- The state of the parser between two lines. -/
def followAt : Bool → Place → Follow
  | _, .value => .tag
  | true, _ => .bodies
  | false, _ => .header

theorem startsWell_of_splitTag {l name value : Bytes} (h : splitTag l = some (name, value))
    (field : Bool) : StartsWell field l := by
  refine ⟨isTopline_of_splitTag h, fun hspace => ?_⟩
  obtain ⟨⟨c, s, rfl, hc, -⟩, rfl⟩ := splitTag_eq_some h
  rw [isalpha_of_isspace (by simpa using hspace)] at hc
  cases hc

/-- A line from its start. -/
theorem accepts_startStep {field : Bool} {p : Place} (hp : p ≠ .value) {l : Bytes}
    {ks : List TokenKind} :
    accepts (followAt field p) ((startStep l).1.map (·.kind) ++ ks) = true ↔
      StartsWell field l ∧
        accepts (followAt (field || (splitTag l).isSome) (startStep l).2) ks = true := by
  have htag : (followAt field p).step .tag = some .tag := by
    cases p <;> cases field <;> first | rfl | exact absurd rfl hp
  unfold startStep
  cases hs : splitTag l with
  | some nv =>
    obtain ⟨name, value⟩ := nv
    rw [and_iff_right (startsWell_of_splitTag hs field)]
    simp only [Option.isSome_some, Bool.or_true]
    cases value.dropWhile isspace with
    | nil =>
      show accepts _ (.tag :: ks) = true ↔ accepts .tag ks = true
      rw [accepts, htag]; rfl
    | cons c s =>
      show accepts _ (.tag :: .body :: ks) = true ↔ accepts .bodies ks = true
      rw [accepts, htag]; rfl
  | none =>
    simp only [Option.isSome_none, Bool.or_false, StartsWell]
    by_cases htop : isTopline l = true
    · cases p <;> cases field <;> simp_all [accepts, followAt, Follow.step]
    by_cases hspace : l.head?.any isspace = true
    · cases p <;> cases field <;> simp_all [accepts, followAt, Follow.step]
    · cases p <;> cases field <;> simp_all [followAt]

/-- **One line**: its tokens are accepted when the line may come next. -/
theorem accepts_lineStep {field : Bool} {p : Place} {l : Bytes} {ks : List TokenKind} :
    accepts (followAt field p) ((lineStep p l).1.map (·.kind) ++ ks) = true ↔
      LineOk field p l ∧ accepts (followAt (fieldAfter field p l) (lineStep p l).2) ks = true := by
  cases p with
  | start => exact accepts_startStep (by simp)
  | value =>
    simp only [lineStep, LineOk, fieldAfter, true_and]
    cases l.dropWhile isspace <;> simp [accepts, followAt, Follow.step]
  | pending empty =>
    by_cases hdot : l = dotLine
    · cases field <;> simp [lineStep, LineOk, fieldAfter, hdot, accepts, followAt, Follow.step]
    · simp only [lineStep, LineOk, fieldAfter, hdot, if_false, false_or, List.map_append,
        List.append_assoc]
      have hstart := @accepts_startStep field (.pending empty) (by simp) l ks
      cases empty with
      | false => simpa [flush] using hstart
      | true =>
        cases field with
        | false => simp [flush, accepts, followAt, Follow.step]
        | true => simpa [flush, accepts, followAt, Follow.step] using hstart

/-- A whole text. -/
theorem accepts_lineTokens {field : Bool} {p : Place} {ls : List Bytes} :
    accepts (followAt field p) ((lineTokens p ls).map (·.kind)) = true ↔ Orderly field p ls := by
  induction ls generalizing field p with
  | nil =>
    cases p with
    | start => cases field <;> simp [lineTokens, accepts, followAt, Follow.final, Orderly, EndOk]
    | value => simp [lineTokens, accepts, followAt, Follow.final, Orderly, EndOk]
    | pending empty =>
      cases empty <;> cases field <;>
        simp [lineTokens, flush, accepts, followAt, Follow.step, Follow.final, Orderly, EndOk]
  | cons l ls ih =>
    rw [lineTokens, List.map_append, accepts_lineStep, ih, Orderly]

/-- The text of a message as the server sends it: its lines, an empty line and the line with the
dot. -/
def messageText (ls : List Bytes) : Bytes := unlines (ls ++ [[], dotLine])

theorem rfclex_messageText {ls : List Bytes} (hls : ∀ l ∈ ls, Clean l) :
    rfclex (messageText ls) = lineTokens .start (ls ++ [[], dotLine]) := by
  refine rfclex_unlines fun l hl => ?_
  rcases List.mem_append.1 hl with hl | hl
  · exact hls l hl
  · simp only [List.mem_cons, List.not_mem_nil, or_false] at hl
    rcases hl with rfl | rfl <;> decide

/-- **Sentences**: the tokens of a message are a sentence, and the parser never ends the program over
them, just when its lines are orderly. -/
theorem rfc822_sentence_iff {ls : List Bytes} (hls : ∀ l ∈ ls, Clean l) :
    ((rfclex (messageText ls)).map (·.kind) ∈ rfcGrammar.language ∧
        ∀ (prefs : Preferences) (h : Header) (halt : Halt),
          rfcparse prefs h (rfclex (messageText ls)) ≠ .error (.halt halt)) ↔
      Orderly false .start (ls ++ [[], dotLine]) := by
  rw [rfclex_messageText hls, ← accepts_lineTokens, mem_language_iff_accepts]
  exact ⟨fun h => h.1, fun hacc => ⟨hacc, fun _ _ => parse_ne_halt hacc⟩⟩

/-- A message with an mbox line. -/
theorem rfc822_mboxLine :
    (∀ l ∈ [bytes "From joe", bytes "Subject: x"], Clean l) ∧
      (rfclex (messageText [bytes "From joe", bytes "Subject: x"])).map (·.kind) ∉
        rfcGrammar.language ∧
      rfcparse (Preferences.new ⟨0, 0⟩ 0) (Header.new 0)
        (rfclex (messageText [bytes "From joe", bytes "Subject: x"])) = .error rfcerror := by
  have hclean : ∀ l ∈ [bytes "From joe", bytes "Subject: x"], Clean l := by decide
  rw [rfclex_messageText hclean, mem_language_iff_accepts]
  exact ⟨hclean, by decide, by decide⟩

/-- A message with one field, folded over two lines. -/
theorem rfc822_sentence_iff_folded :
    (rfclex (messageText [bytes "Subject: x", bytes " y"])).map (·.kind) ∈ rfcGrammar.language ∧
      ∀ (prefs : Preferences) (h : Header) (halt : Halt),
        rfcparse prefs h (rfclex (messageText [bytes "Subject: x", bytes " y"])) ≠
          .error (.halt halt) :=
  (rfc822_sentence_iff (by decide)).2 (by decide)

end Mailfilter.Rfc822
