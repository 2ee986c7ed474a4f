import Mailfilter.Rfc822.Acceptance

/-!
# Parsing undoes rendering

The text of a list of fields, one line each, and what the scanner and the parser make of it.

* `IsField`: a name, and a body on one line that starts with no white space;
* `render`: one line `name: body` for every field, and the end of the message;
* `Gives`, what a run of the parser ends with, and `parse_fields`: the fields are parsed as they
  stand if no body is empty;
* `rfcparse_entriesOk`: no entry ever gets an empty body, because the white space behind a colon
  goes on to the next line;
* `roundTrip_iff`: parsing undoes rendering just when no body is empty.
-/

namespace Mailfilter.Rfc822

/-- A field that fits on a line. -/
structure IsField (f : Entry) : Prop where
  name : IsName f.tag
  clean : Clean f.body
  noCr : cr ∉ f.body
  trimmed : ∀ c ∈ f.body.head?, isspace c = false

/-- The text of a list of fields. -/
def render (fields : List Entry) : Bytes :=
  fields.flatMap (fun f => f.line ++ crlf) ++ crlf ++ dotLine ++ crlf

theorem render_eq (fields : List Entry) : render fields = messageText (fields.map Entry.line) := by
  simp [render, messageText, unlines, List.flatMap_map]

theorem IsField.clean_line {f : Entry} (h : IsField f) : Clean f.line := by
  have hlf := h.name.notMem (by decide : isNameChar lf = false)
  have h0 := h.name.notMem (by decide : isNameChar 0 = false)
  have hsep : lf ∉ bytes ": " ∧ 0 ∉ bytes ": " := by decide
  unfold Entry.line
  simp only [Clean, List.mem_append, not_or]
  exact ⟨⟨⟨hlf, hsep.1⟩, h.clean.1⟩, ⟨⟨h0, hsep.2⟩, h.clean.2⟩⟩

/-! ### Fields with a body -/

/-- The tokens of a field. -/
def fieldTokens (f : Entry) : List Token := [⟨.tag, f.tag⟩, ⟨.body, f.body⟩]

theorem lineStep_field {f : Entry} (h : IsField f) (hne : f.body ≠ []) :
    lineStep .start f.line = (fieldTokens f, .start) := by
  have hline : f.line = f.tag ++ chr ':' :: (chr ' ' :: f.body) := by
    simp [Entry.line, bytes]
  obtain ⟨c, s, hbody⟩ := List.exists_cons_of_ne_nil hne
  have hc : isspace c = false := h.trimmed c (by rw [hbody]; rfl)
  have hdrop : (chr ' ' :: c :: s).dropWhile isspace = c :: s := by
    rw [List.dropWhile_cons_of_pos (by decide), List.dropWhile_cons_of_neg (by rw [hc]; decide)]
  simp only [lineStep, startStep, hline, splitTag_append h.name, hbody, hdrop, fieldTokens]

theorem lineTokens_fields {fields : List Entry} (hf : ∀ f ∈ fields, IsField f)
    (hne : ∀ f ∈ fields, f.body ≠ []) :
    lineTokens .start (fields.map Entry.line ++ [[], dotLine]) =
      fields.flatMap fieldTokens ++ [⟨.headerEnd, crlf ++ dotLine ++ crlf⟩] := by
  induction fields with
  | nil => decide
  | cons f fields ih =>
    rw [List.map_cons, List.cons_append, lineTokens,
      lineStep_field (hf f (List.mem_cons_self ..)) (hne f (List.mem_cons_self ..)),
      ih (fun f h => hf f (List.mem_cons_of_mem _ h)) fun f h => hne f (List.mem_cons_of_mem _ h)]
    simp

variable {prefs : Preferences}

/-- The run ends with the entries, or the check of a message-ID ends it, which `-i` turns off. -/
def Gives (prefs : Preferences) (es : List Entry) (r : Except Abort Header) : Prop :=
  (∃ h, r = .ok h ∧ h.msgEntries = es) ∨
    (∃ e, r = .error (.thrown e)) ∧ prefs.ignoreTimeStamp = false

/-- With `-i` there is no other way. -/
theorem Gives.ok {es : List Entry} {r : Except Abort Header} (hg : Gives prefs es r)
    (hts : prefs.ignoreTimeStamp = true) : ∃ h, r = .ok h ∧ h.msgEntries = es := by
  rcases hg with hg | ⟨-, hg⟩
  · exact hg
  · rw [hts] at hg; cases hg

theorem reduce_gives (prefs : Preferences) (h : Header) (t b : Bytes) :
    Gives prefs (h.msgEntries ++ [⟨t, b⟩]) (reduce prefs h t b) := by
  cases hadd : h.addEntry prefs t b with
  | ok h' => exact Or.inl ⟨h', by rw [reduce, hadd], (addEntry_ok hadd).1⟩
  | error e =>
    refine Or.inr ⟨⟨e, by rw [reduce, hadd]⟩, Bool.eq_false_iff.2 fun hts => ?_⟩
    obtain ⟨h', hok⟩ := addEntry_ignoreTimeStamp hts h t b
    rw [hok] at hadd
    cases hadd

/-- The parser goes on behind a reduction. -/
theorem Gives.bind {es es' : List Entry} {r : Except Abort Header}
    {k : Header → Except Abort Header} (hr : Gives prefs es r)
    (hk : ∀ h, h.msgEntries = es → Gives prefs es' (k h)) : Gives prefs es' (r >>= k) := by
  rcases hr with ⟨h, rfl, hh⟩ | ⟨⟨e, rfl⟩, hts⟩
  · exact hk h hh
  · exact Or.inr ⟨⟨e, rfl⟩, hts⟩

/-- Behind the last field the ends of messages change nothing. -/
theorem parse_ends {ends : List Token} (hends : ∀ tok ∈ ends, tok.kind = .headerEnd) (h : Header) :
    parse prefs .header h ends = .ok h := by
  induction ends with
  | nil => rfl
  | cons tok ends ih =>
    rw [List.forall_mem_cons] at hends
    obtain ⟨k, s⟩ := tok
    obtain rfl : k = .headerEnd := hends.1
    exact ih hends.2

/-- A field on the stack and the fields that follow it. -/
theorem parse_bodies_fields (fields : List Entry) {ends : List Token}
    (hends : ∀ tok ∈ ends, tok.kind = .headerEnd) (f : Entry) (h : Header) :
    Gives prefs (h.msgEntries ++ f :: fields)
      (parse prefs (.bodies f.tag f.body) h (fields.flatMap fieldTokens ++ ends)) := by
  have hred := reduce_gives prefs h f.tag f.body
  induction fields generalizing f h with
  | nil =>
    cases ends with
    | nil => exact hred
    | cons tok ends =>
      obtain ⟨k, s⟩ := tok
      obtain rfl : k = .headerEnd := hends _ (List.mem_cons_self ..)
      exact hred.bind fun h₁ hh₁ =>
        Or.inl ⟨h₁, parse_ends (fun tok htok => hends tok (List.mem_cons_of_mem _ htok)) h₁, hh₁⟩
  | cons g fields ih =>
    refine hred.bind fun h₁ hh₁ => ?_
    have hrest := ih g h₁ (reduce_gives prefs h₁ g.tag g.body)
    rw [hh₁, List.append_assoc] at hrest
    exact hrest

theorem parse_fields (fields : List Entry) {ends : List Token}
    (hends : ∀ tok ∈ ends, tok.kind = .headerEnd) (h : Header) :
    Gives prefs (h.msgEntries ++ fields)
      (parse prefs .header h (fields.flatMap fieldTokens ++ ends)) := by
  cases fields with
  | nil => exact Or.inl ⟨h, parse_ends hends h, by simp⟩
  | cons f fields => exact parse_bodies_fields fields hends f h

/-! ### No empty bodies -/

/-- What holds of the tokens of a line from its start, of bodies that are not empty and of the end of
a message holds of all tokens. -/
theorem lineTokens_forall {Q : Token → Prop} (hstart : ∀ l, ∀ tok ∈ (startStep l).1, Q tok)
    (hbody : ∀ c s, Q ⟨.body, c :: s⟩) (hend : Q ⟨.headerEnd, crlf ++ dotLine ++ crlf⟩)
    (p : Place) (ls : List Bytes) : ∀ tok ∈ lineTokens p ls, Q tok := by
  have hflush : ∀ e, ∀ tok ∈ flush e, Q tok := by
    intro e tok htok
    cases e with
    | false => cases htok
    | true => rw [List.mem_singleton.1 htok]; exact hbody _ _
  have hstep : ∀ p l, ∀ tok ∈ (lineStep p l).1, Q tok := by
    intro p l tok htok
    cases p with
    | start => exact hstart l tok htok
    | value =>
      simp only [lineStep] at htok
      split at htok <;> simp only [List.mem_cons, List.not_mem_nil, or_false] at htok
      subst htok; exact hbody _ _
    | pending e =>
      simp only [lineStep] at htok
      split_ifs at htok
      · rw [List.mem_singleton.1 htok]; exact hend
      · exact (List.mem_append.1 htok).elim (hflush e tok) (hstart l tok)
  induction ls generalizing p with
  | nil =>
    cases p with
    | start => intro tok htok; cases htok
    | value => intro tok htok; cases htok
    | pending e => exact hflush e
  | cons l ls ih =>
    intro tok htok
    rw [lineTokens, List.mem_append] at htok
    exact htok.elim (hstep p l tok) (ih _ tok)

/-- The tokens of a line from its start are fit for a field: its name is one, and its bodies are not
empty. -/
theorem startStep_tokenOk (l : Bytes) :
    ∀ tok ∈ (startStep l).1, TokenOk IsName (· ≠ []) tok := by
  intro tok htok
  unfold startStep at htok
  split at htok
  next name value hsplit =>
    have htag : TokenOk IsName (· ≠ []) ⟨.tag, name⟩ :=
      ⟨fun _ => (splitTag_eq_some hsplit).1, fun h => (nomatch h)⟩
    split at htok <;> simp only [List.mem_cons, List.not_mem_nil, or_false] at htok
    · subst htok; exact htag
    · rcases htok with rfl | rfl
      · exact htag
      · exact ⟨fun h => (nomatch h), fun _ => List.cons_ne_nil _ _⟩
  next =>
    split_ifs at htok <;> simp only [List.mem_cons, List.not_mem_nil, or_false] at htok <;>
      subst htok
    · exact ⟨fun h => (nomatch h), fun h => (nomatch h)⟩
    · exact ⟨fun h => (nomatch h), fun _ => by simp [blanks]⟩

/-- No tag is a foreign one, and no body that the scanner reports is empty. -/
theorem lineTokens_tokenOk (p : Place) (ls : List Bytes) :
    ∀ tok ∈ lineTokens p ls, TokenOk IsName (· ≠ []) tok :=
  lineTokens_forall startStep_tokenOk
    (fun c s => ⟨fun h => (nomatch h), fun _ => List.cons_ne_nil c s⟩)
    ⟨fun h => (nomatch h), fun h => (nomatch h)⟩ p ls

/-- Every entry has a name that the scanner recognises, and a body. -/
theorem rfcparse_entriesOk {ls : List Bytes} (hls : ∀ l ∈ ls, Clean l) {size : Int32} {h : Header}
    (hparse : rfcparse prefs (Header.new size) (rfclex (messageText ls)) = .ok h) :
    EntriesOk IsName (· ≠ []) h := by
  rw [rfclex_messageText hls] at hparse
  have hstart : EntriesOk IsName (· ≠ []) (Header.new size) := fun e he => nomatch he
  have hstack : StackOk IsName (· ≠ []) .header := trivial
  exact parse_entriesOk (fun b b' hb _ => List.append_ne_nil_of_left_ne_nil hb b')
    (lineTokens_tokenOk _ _) hstack hstart hparse

/-! ### The law -/

/-- **Parsing undoes rendering**, with `-i`, just when no body is empty. -/
theorem roundTrip_iff (hts : prefs.ignoreTimeStamp = true) {fields : List Entry}
    (hf : ∀ f ∈ fields, IsField f) (size : Int32) :
    (∃ h, rfcparse prefs (Header.new size) (rfclex (render fields)) = .ok h ∧
        h.msgEntries = fields) ↔ ∀ f ∈ fields, f.body ≠ [] := by
  have hclean : ∀ l ∈ fields.map Entry.line, Clean l := by
    intro l hl
    obtain ⟨f, hmem, rfl⟩ := List.mem_map.1 hl
    exact (hf f hmem).clean_line
  rw [render_eq]
  constructor
  · rintro ⟨h, hparse, rfl⟩
    exact fun e he => (rfcparse_entriesOk hclean hparse e he).2
  · intro hne
    rw [rfclex_messageText hclean, lineTokens_fields hf hne]
    exact (parse_fields fields (by simp) (Header.new size)).ok hts

/-- A field with an empty body in front of another field. -/
def emptySubject : List Entry := [⟨bytes "Subject", []⟩, ⟨bytes "To", bytes "joe"⟩]

theorem emptySubject_isField : ∀ f ∈ emptySubject, IsField f := by
  have hname : ∀ f ∈ emptySubject, splitTag (f.tag ++ [chr ':']) = some (f.tag, []) := by decide
  intro f hf
  refine ⟨(splitTag_eq_some (hname f hf)).1, ?_, ?_, ?_⟩ <;> revert f <;> decide +kernel

/-- With `-i`, as the command line sets it. -/
def noTimeStamp : Preferences := (Preferences.new ⟨0, 0⟩ 0).setIgnoreTimeStamp true

/-- The second field becomes the body of the first. -/
theorem emptySubject_merged :
    (∀ f ∈ emptySubject, IsField f) ∧ noTimeStamp.ignoreTimeStamp = true ∧
      (∃ h, rfcparse noTimeStamp (Header.new 0) (rfclex (render emptySubject)) = .ok h ∧
        h.msgEntries = [⟨bytes "Subject", bytes "To: joe"⟩]) ∧
      ¬ ∃ h, rfcparse noTimeStamp (Header.new 0) (rfclex (render emptySubject)) = .ok h ∧
        h.msgEntries = emptySubject := by
  refine ⟨emptySubject_isField, rfl, ?_⟩
  rw [render_eq, rfclex_messageText (by decide)]
  refine ⟨⟨_, rfl, by decide⟩, ?_⟩
  rintro ⟨h, hparse, hentries⟩
  cases hparse
  exact absurd hentries (by decide)

/-- Without the empty body both fields come back. -/
theorem roundTrip_iff_to :
    ∃ h, rfcparse noTimeStamp (Header.new 0) (rfclex (render [⟨bytes "To", bytes "joe"⟩])) = .ok h ∧
      h.msgEntries = [⟨bytes "To", bytes "joe"⟩] :=
  (roundTrip_iff rfl (fun f hf => emptySubject_isField f (List.mem_cons_of_mem _ hf)) 0).2 (by decide)

end Mailfilter.Rfc822
