import Mailfilter.Preferences

/-!
# Message headers

The class `Header` (`header.cc`): the entries of a header with the fields that the filters and
the log use.

* `Entry`, `Header` and `Entry.line`, the line `tag: body` that the rules are matched against;
* `rfc822ValidMsgid`, the check taken over against the APOP MD5 attack;
* `setNormalSubject`, the two nested loops that normalise a subject;
* `addEntry`, which the parser calls for every field.
-/

namespace Mailfilter

/-- A header field. -/
structure Entry where
  tag : Bytes
  body : Bytes
  deriving DecidableEq

/-- `cur_entry->tag + ": " + cur_entry->body` -/
def Entry.line (e : Entry) : Bytes := e.tag ++ bytes ": " ++ e.body

/-- The members of the class. -/
structure Header where
  msgEntries : List Entry
  msgID : Bytes
  msgFrom : Bytes
  msgTo : Bytes
  msgSubject : Bytes
  msgNormalSubject : Bytes
  msgDate : Bytes
  msgSize : Int32
  deriving DecidableEq

/-- `new Header`. The constructor does not set the size; `scan` does before anything reads it. -/
def Header.new (size : Int32) : Header := ⟨[], [], [], [], [], [], [], size⟩

/-- `*from + ": " + *subject + ", " + *date`, the part that all messages about a header share. -/
def Header.summary (h : Header) : Bytes :=
  h.msgFrom ++ bytes ": " ++ h.msgSubject ++ bytes ", " ++ h.msgDate

/-- `rfc822_valid_msgid`, for a non-null pointer. -/
def rfc822ValidMsgid (msgid : Bytes) : ℤ :=
  if msgid = [] then -1
  else
    -- the length is kept as an `unsigned int`
    let l := msgid.length % 2 ^ 32
    if l < 5 then -1
    else if msgid[0]? ≠ some (chr '<') || msgid[l - 1]? ≠ some (chr '>') then -1
    else if chr '@' ∉ msgid then -1
    else if (msgid.take l).any fun c => 127 < schar c then -1
    else 0

/-! ### Normalisation -/

/-- The character at `i`; one past the end of a string there is a NUL. -/
def charAt (s : Bytes) (i : ℕ) : UInt8 := s.getD i 0

/-- "Delete multiple spaces": the inner loop, which erases at most one character per round. -/
def eraseSpaces (i : ℕ) : ℕ → Bytes → Bytes
  | 0, s => s
  | fuel + 1, s =>
    if isspace (charAt s i) && isspace (charAt s (i + 1)) && i < s.length then
      eraseSpaces i fuel (s.eraseIdx i)
    else s

/-- The outer loop, which also deletes all characters except letters, digits, spaces and `@`.
Each round lowers twice the length minus the index.  The index is an `unsigned int`, which is exact
as long as fewer than 2^32 characters are kept. -/
def normalise : ℕ → ℕ → Bytes → Bytes
  | 0, _, s => s
  | fuel + 1, i, s =>
    if i < s.length then
      let s := eraseSpaces i s.length s
      if !isalpha (charAt s i) && !isspace (charAt s i) && charAt s i ≠ chr '@'
          && !isdigit (charAt s i) then
        normalise fuel (i - if 0 < i then 1 else 0) (s.eraseIdx i)
      else normalise fuel (i + 1) s
    else s

def Header.setNormalSubject (h : Header) (ssubject : Bytes) : Header :=
  { h with msgNormalSubject :=
      bytes "Subject: " ++ normalise (2 * ssubject.length + 1) 0 ssubject }

/-! ### Entries -/

/-- `WrongMessageIDException`, with what was printed before it was thrown. -/
structure WrongMessageIDException where
  printed : List LogCall
  deriving DecidableEq

/-- `add_entry`: store a field, and keep those that have a name of their own. -/
def Header.addEntry (prefs : Preferences) (h : Header) (tag body : Bytes) :
    Except WrongMessageIDException Header :=
  let h := { h with msgEntries := h.msgEntries ++ [⟨tag, body⟩] }
  if cmpNoCase tag (bytes "Message-Id") = 0 then
    if !prefs.ignoreTimeStamp && rfc822ValidMsgid body < 0 then
      .error ⟨[printErr (bytes "POP timestamp in message-ID invalid.")]⟩
    else .ok { h with msgID := body }
  else if cmpNoCase tag (bytes "From") = 0 then .ok { h with msgFrom := body }
  else if cmpNoCase tag (bytes "To") = 0 then .ok { h with msgTo := body }
  else if cmpNoCase tag (bytes "Subject") = 0 then
    let h := { h with msgSubject := body }
    .ok (if prefs.normal then h.setNormalSubject body else h)
  else if cmpNoCase tag (bytes "Date") = 0 then .ok { h with msgDate := body }
  else .ok h

/-- Whatever the tag, a call that returns has added the entry and left the size alone. -/
theorem addEntry_ok {prefs : Preferences} {h h' : Header} {tag body : Bytes}
    (hadd : h.addEntry prefs tag body = .ok h') :
    h'.msgEntries = h.msgEntries ++ [⟨tag, body⟩] ∧ h'.msgSize = h.msgSize := by
  unfold Header.addEntry at hadd
  simp only at hadd
  split_ifs at hadd <;> cases hadd <;> exact ⟨rfl, rfl⟩

/-- With `-i` every call returns. -/
theorem addEntry_ignoreTimeStamp {prefs : Preferences} (hts : prefs.ignoreTimeStamp = true)
    (h : Header) (tag body : Bytes) : ∃ h', h.addEntry prefs tag body = .ok h' := by
  unfold Header.addEntry
  simp only [hts, Bool.not_true, Bool.false_and, Bool.false_eq_true, if_false]
  split_ifs <;> exact ⟨_, rfl⟩

end Mailfilter
