import Mailfilter.Normal
import Mailfilter.Verdict

/-!
# Normalised subjects and the DENY rules

Which normalised subjects the DENY rules get to see.  `add_entry` knows a subject by its tag, in
either case, and keeps the normalised form of the last one; `check_deny_rules` tries that form at
every entry whose tag is spelled `Subject`.

* `addEntries`, a sequence of calls of `add_entry`, and `addEntries_ok`, the header that it builds;
* `SubjectsTried`: a positive DENY rule that matches the normalised form of some subject denies;
* `Tried`: a line, or the form that is kept, is what the rule would have to see;
* `subjectsTried_iff`: the rules see every normalised subject just when every one is tried.
-/

namespace Mailfilter

open Rules Runs

/-- A sequence of calls of `add_entry`. -/
def Header.addEntries (prefs : Preferences) (h : Header) (calls : List Entry) :
    Except WrongMessageIDException Header :=
  calls.foldlM (fun h e => h.addEntry prefs e.tag e.body) h

/-- The tag equals `Subject` up to letter case. -/
def Entry.isSubject (e : Entry) : Bool := cmpNoCase e.tag (bytes "Subject") = 0

/-- What a rule would have to match: the normalised body behind the tag. -/
def Entry.normalLine (e : Entry) : Bytes := bytes "Subject: " ++ plain e.body

/-- The last subject. -/
def lastSubject (calls : List Entry) : Option Entry := (calls.filter Entry.isSubject).getLast?

/-- With NORMAL on, a positive DENY rule that matches the normalised form of some subject denies a
message that is neither a duplicate nor a friend. -/
def SubjectsTried (calls : List Entry) : Prop :=
  ∀ (prefs : Preferences) (regexec : Option Regex → Bytes → ℤ) (w : Weeder) (size : Int32)
    (hdr : Header), prefs.normal = true → (Header.new size).addEntries prefs calls = .ok hdr →
      ¬ Duplicate prefs hdr w → ¬ Friend prefs regexec hdr →
        ∀ f ∈ prefs.denyFilters, f.isNegative = false → ∀ e ∈ calls, e.isSubject = true →
          f.matched regexec e.normalLine = true → (isWeed prefs regexec hdr w).1 = 1

/-- Some line is already the normalised one; or a tag is spelled `Subject`, and the last subject has
the same normalised form. -/
def Tried (calls : List Entry) (e : Entry) : Prop :=
  (∃ e' ∈ calls, cstr e'.line = e.normalLine) ∨
    (∃ e' ∈ calls, cstr e'.tag = bytes "Subject") ∧
      ∃ e' ∈ lastSubject calls, plain e'.body = plain e.body

/-! ### The header -/

section Entries

variable {prefs : Preferences} {h h' : Header}

/-- Whatever the tag, the normalised subject is that of the last subject. -/
theorem addEntry_msgNormalSubject (hnormal : prefs.normal = true) {e : Entry}
    (hadd : h.addEntry prefs e.tag e.body = .ok h') :
    h'.msgNormalSubject = if e.isSubject then e.normalLine else h.msgNormalSubject := by
  unfold Header.addEntry at hadd
  simp only at hadd
  unfold Entry.isSubject
  by_cases hsubject : cmpNoCase e.tag (bytes "Subject") = 0
  · have hother : ∀ word, (bytes "Subject").map toupper ≠ word.map toupper →
        cmpNoCase e.tag word ≠ 0 := by
      intro word hne heq
      rw [cmpNoCase_eq_zero_iff] at hsubject heq
      exact hne (hsubject.symm.trans heq)
    rw [if_neg (hother _ (by decide)), if_neg (hother _ (by decide)),
      if_neg (hother _ (by decide)), if_pos hsubject, if_pos hnormal, setNormalSubject_eq] at hadd
    cases hadd
    simp [hsubject, Entry.normalLine]
  · rw [if_neg hsubject] at hadd
    split_ifs at hadd <;> cases hadd <;> simp [hsubject]

/-- **The header** that a sequence of calls builds. -/
theorem addEntries_ok (hnormal : prefs.normal = true) {calls : List Entry}
    (hadd : h.addEntries prefs calls = .ok h') :
    h'.msgEntries = h.msgEntries ++ calls ∧
      h'.msgNormalSubject = (lastSubject calls).elim h.msgNormalSubject Entry.normalLine := by
  induction calls generalizing h with
  | nil => cases hadd; simp [lastSubject]
  | cons e calls ih =>
    rw [Header.addEntries, List.foldlM_cons] at hadd
    cases hone : h.addEntry prefs e.tag e.body with
    | error x => rw [hone] at hadd; cases hadd
    | ok h₁ =>
      rw [hone] at hadd
      obtain ⟨hentries, hnormalised⟩ := ih hadd
      refine ⟨by rw [hentries, (addEntry_ok hone).1]; simp, ?_⟩
      rw [hnormalised, addEntry_msgNormalSubject hnormal hone]
      unfold lastSubject
      cases he : e.isSubject <;> cases hrest : (calls.filter Entry.isSubject).getLast? <;>
        simp [List.getLast?_cons, he, hrest]

/-- With `-i` every sequence builds one. -/
theorem addEntries_ignoreTimeStamp (hts : prefs.ignoreTimeStamp = true) (h : Header)
    (calls : List Entry) : ∃ h', h.addEntries prefs calls = .ok h' := by
  induction calls generalizing h with
  | nil => exact ⟨h, rfl⟩
  | cons e calls ih =>
    obtain ⟨h₁, hone⟩ := addEntry_ignoreTimeStamp hts h e.tag e.body
    obtain ⟨h', hrest⟩ := ih h₁
    refine ⟨h', ?_⟩
    rw [Header.addEntries, List.foldlM_cons, hone]
    exact hrest

end Entries

/-! ### The decision -/

theorem cstr_normalLine (e : Entry) : cstr e.normalLine = e.normalLine := by
  refine cstr_of_noNul fun hmem => ?_
  rcases List.mem_append.1 hmem with hmem | hmem
  · exact absurd hmem (by decide)
  · exact absurd (keeps_of_mem_plain 0 hmem) (by decide)

section Decision

variable {prefs : Preferences} {regexec : Option Regex → Bytes → ℤ} {hdr : Header} {w : Weeder}
  {size : Int32} {calls : List Entry}

/-- What is tried is matched. -/
theorem Tried.positiveDenied {e : Entry} (htried : Tried calls e) (hnormal : prefs.normal = true)
    (hbuilt : (Header.new size).addEntries prefs calls = .ok hdr) {f : Filter}
    (hf : f ∈ prefs.denyFilters) (hn : f.isNegative = false)
    (hmatch : f.matched regexec e.normalLine = true) : PositiveDenied prefs regexec hdr := by
  obtain ⟨hentries, hnormalised⟩ := addEntries_ok hnormal hbuilt
  rw [show (Header.new size).msgEntries = [] from rfl, List.nil_append] at hentries
  unfold Filter.matched at hmatch
  rw [cstr_normalLine] at hmatch
  rcases htried with ⟨e', he', hline⟩ | ⟨⟨e', he', htag⟩, last, hlast, hplain⟩
  · refine ⟨f, hf, hn, e', hentries ▸ he', ?_⟩
    simp [subjectHit, Filter.matched, hline, hmatch]
  · have hkept : hdr.msgNormalSubject = e.normalLine := by
      rw [hnormalised, Option.mem_def.1 hlast, Option.elim_some, Entry.normalLine, hplain,
        Entry.normalLine]
    refine ⟨f, hf, hn, e', hentries ▸ he', ?_⟩
    simp [subjectHit, normalMatched, Filter.matched, hnormal, htag, hkept, cstr_normalLine, hmatch]

end Decision

/-- NORMAL is on, and there is one DENY rule. -/
def oneDeny : Preferences :=
  (((Preferences.new ⟨0, 0⟩ 0).addDenyRule (bytes "DENY") (bytes "=")
    (bytes "^Subject: buy$")).setNormal (bytes "yes")).setIgnoreTimeStamp true

/-- The rule matches this string only. -/
def matchesOnly (target : Bytes) : Option Regex → Bytes → ℤ := fun _ s => if s = target then 0 else 1

theorem oneDeny_not_friend (regexec : Option Regex → Bytes → ℤ) (hdr : Header) :
    ¬ Friend oneDeny regexec hdr := by
  rintro ⟨f, hf, -⟩
  cases hf

/-- With one positive DENY rule, a message is deleted just when the rule applies. -/
theorem isWeed_oneDeny (regexec : Option Regex → Bytes → ℤ) (hdr : Header) :
    (isWeed oneDeny regexec hdr Weeder.new).1 = 1 ↔ PositiveDenied oneDeny regexec hdr := by
  have hlong : ¬ Overlong oneDeny hdr := fun h => h.1 rfl
  have hsize : ¬ Exceeds oneDeny.maxSizeDeny hdr.msgSize := fun h => absurd h.1 (by decide)
  have hdeny : ¬ NegativeDenied oneDeny regexec hdr := fun h => absurd h.1 (by decide)
  have htally : ¬ TallyReached oneDeny regexec hdr := by
    have hzero : sizeTally oneDeny hdr = 0 := if_neg fun h => h.1 rfl
    have hrules : ruleScore oneDeny regexec hdr = 0 := by
      have hnone : oneDeny.scoreFilters = [] := rfl
      simp [ruleScore, total, hnone]
    unfold TallyReached
    rw [hzero, hrules]
    decide
  rw [isWeed_of_not_friend not_duplicate_new (oneDeny_not_friend regexec hdr)]
  simp [hlong, hsize, hdeny, htally]

/-- A message in which the normalised form is the only match is deleted just when that is tried. -/
theorem tried_of_isWeed {calls : List Entry} {e : Entry} {hdr : Header} (hmem : e ∈ calls)
    (hsubject : e.isSubject = true) (hbuilt : (Header.new 0).addEntries oneDeny calls = .ok hdr)
    (hweed : (isWeed oneDeny (matchesOnly e.normalLine) hdr Weeder.new).1 = 1) :
    Tried calls e := by
  obtain ⟨hentries, hnormalised⟩ := addEntries_ok rfl hbuilt
  rw [show (Header.new 0).msgEntries = [] from rfl, List.nil_append] at hentries
  have hmatch : ∀ (f : Filter) (line : Bytes),
      f.matched (matchesOnly e.normalLine) line = true ↔ cstr line = e.normalLine := by
    simp [Filter.matched, matchesOnly]
  obtain ⟨f, -, -, e', he', hhit⟩ := (isWeed_oneDeny _ hdr).1 hweed
  rw [hentries] at he'
  rw [subjectHit, Bool.or_eq_true, hmatch, normalMatched, Bool.and_eq_true, Bool.and_eq_true,
    hmatch] at hhit
  rcases hhit with hline | ⟨⟨-, htag⟩, hkept⟩
  · exact Or.inl ⟨e', he', hline⟩
  · have hne : calls.filter Entry.isSubject ≠ [] :=
      List.ne_nil_of_mem (List.mem_filter.2 ⟨hmem, hsubject⟩)
    obtain ⟨last, hlast⟩ : ∃ last, lastSubject calls = some last :=
      ⟨_, List.getLast?_eq_some_getLast hne⟩
    rw [hnormalised, hlast, Option.elim_some, cstr_normalLine] at hkept
    exact Or.inr ⟨⟨e', he', by simpa using htag⟩, last, hlast, List.append_cancel_left hkept⟩

/-- **Normalised subjects** are always tried just when each of them is the line of some entry, or
the one that is kept while some tag is spelled `Subject`. -/
theorem subjectsTried_iff (calls : List Entry) :
    SubjectsTried calls ↔ ∀ e ∈ calls, e.isSubject = true → Tried calls e := by
  constructor
  · intro htried e he hsubject
    have hts : oneDeny.ignoreTimeStamp = true := rfl
    obtain ⟨hdr, hbuilt⟩ := addEntries_ignoreTimeStamp hts (Header.new 0) calls
    refine tried_of_isWeed he hsubject hbuilt ?_
    refine htried oneDeny _ Weeder.new 0 hdr rfl hbuilt not_duplicate_new (oneDeny_not_friend _ hdr)
      _ (List.mem_singleton_self _) rfl e he hsubject ?_
    simp [Filter.matched, matchesOnly, cstr_normalLine]
  · intro htried prefs regexec w size hdr hnormal hbuilt hdup hfriend f hf hn e he hsubject hmatch
    have hdeny : PositiveDenied prefs regexec hdr :=
      (htried e he hsubject).positiveDenied hnormal hbuilt hf hn hmatch
    rw [isWeed_of_not_friend hdup hfriend, if_pos (Or.inr (Or.inl (Or.inr (Or.inl hdeny))))]

/-- A disguised subject under a tag in capital letters. -/
def capitalSubject : List Entry := [⟨bytes "SUBJECT", bytes "b.u.y"⟩]

/-- The rule matches the normalised subject, which is not tried. -/
theorem capitalSubject_passes :
    (∃ hdr, (Header.new 0).addEntries oneDeny capitalSubject = .ok hdr ∧
      hdr.msgNormalSubject = bytes "Subject: buy" ∧
      (isWeed oneDeny (matchesOnly (bytes "Subject: buy")) hdr Weeder.new).1 = 0) ∧
      ¬ SubjectsTried capitalSubject := by
  have hpass : ∃ hdr, (Header.new 0).addEntries oneDeny capitalSubject = .ok hdr ∧
      hdr.msgNormalSubject = bytes "Subject: buy" ∧
      (isWeed oneDeny (matchesOnly (bytes "Subject: buy")) hdr Weeder.new).1 = 0 :=
    ⟨_, rfl, by decide, by decide⟩
  refine ⟨hpass, fun htried => ?_⟩
  obtain ⟨hdr, hbuilt, -, hstatus⟩ := hpass
  have hweed := htried oneDeny (matchesOnly (bytes "Subject: buy")) Weeder.new 0 hdr rfl hbuilt
    not_duplicate_new (oneDeny_not_friend _ hdr) _ (List.mem_singleton_self _) rfl _
    (List.mem_singleton_self _) (by decide) (by decide)
  rw [hstatus] at hweed
  cases hweed

end Mailfilter
