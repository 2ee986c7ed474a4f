import Mailfilter.Header

/-!
# Message-IDs

What `rfc822_valid_msgid` lets through.  Its loop is to refuse bytes above 127, but compares them as
signed characters, and its length is an `unsigned int`.

* `IsMsgid`, what the check is for, and `Framed`, what it comes to: `rfc822ValidMsgid_eq`;
* `rfc822ValidMsgid_iff`: the check is right just when the string is ASCII or not framed, as long as
  it has less than 2^32 bytes.
-/

namespace Mailfilter

variable {s : Bytes}

/-- The string has only bytes up to 127. -/
def Ascii (s : Bytes) : Prop := ∀ c ∈ s, c < 128

/-- Five bytes or more in angle brackets, with an `@`, all of them ASCII. -/
def IsMsgid (s : Bytes) : Prop :=
  5 ≤ s.length ∧ s.head? = some (chr '<') ∧ s.getLast? = some (chr '>') ∧ chr '@' ∈ s ∧ Ascii s

/-- The string is one of the form `<..@..>`, if it has the length `l`. -/
def Framed (l : ℕ) (s : Bytes) : Prop :=
  5 ≤ l ∧ s[0]? = some (chr '<') ∧ s[l - 1]? = some (chr '>') ∧ chr '@' ∈ s

instance (s : Bytes) : Decidable (Ascii s) := List.decidableBAll _ s

instance (s : Bytes) : Decidable (IsMsgid s) := inferInstanceAs (Decidable (_ ∧ _ ∧ _ ∧ _ ∧ _))

instance (l : ℕ) (s : Bytes) : Decidable (Framed l s) := inferInstanceAs (Decidable (_ ∧ _ ∧ _ ∧ _))

/-- No signed character is above 127. -/
theorem schar_le (c : UInt8) : schar c ≤ 127 := by
  have hc : c.toNat < 256 := c.toNat_lt
  unfold schar
  split
  case isTrue h =>
    have : c.toNat < 128 := UInt8.lt_iff_toNat_lt.1 h
    omega
  case isFalse => omega

theorem isMsgid_iff : IsMsgid s ↔ Framed s.length s ∧ Ascii s := by
  unfold IsMsgid Framed
  rw [List.head?_eq_getElem?, List.getLast?_eq_getElem?]
  simp only [and_assoc]

/-- The check asks for the frame, with the length modulo 2^32, and for nothing else. -/
theorem rfc822ValidMsgid_eq (s : Bytes) :
    rfc822ValidMsgid s = if Framed (s.length % 2 ^ 32) s then 0 else -1 := by
  have hloop : ((s.take (s.length % 2 ^ 32)).any fun c => 127 < schar c) = false := by
    refine List.any_eq_false.2 fun c _ => ?_
    simpa using schar_le c
  unfold rfc822ValidMsgid
  simp only [hloop, Bool.false_eq_true, if_false]
  by_cases h : Framed (s.length % 2 ^ 32) s
  · obtain ⟨hlen, hfirst, hlast, hat⟩ := id h
    have hnil : s ≠ [] := List.ne_nil_of_mem hat
    have hends : ¬ (s[0]? ≠ some (chr '<') || s[s.length % 2 ^ 32 - 1]? ≠ some (chr '>')) = true := by
      rw [hfirst, hlast]
      decide
    rw [if_pos h, if_neg hnil, if_neg (Nat.not_lt.2 hlen), if_neg hends, if_neg (not_not.2 hat)]
  · rw [if_neg h]
    split_ifs with hnil hlen hends hat
    · rfl
    · rfl
    · rfl
    · obtain ⟨hfirst, hlast⟩ : s[0]? = some (chr '<') ∧ s[s.length % 2 ^ 32 - 1]? = some (chr '>') := by
        simpa only [Bool.or_eq_true, decide_eq_true_eq, not_or, not_not] using hends
      exact absurd ⟨Nat.not_lt.1 hlen, hfirst, hlast, hat⟩ h
    · rfl

/-- **The message-ID check** gives 0 for message-IDs and -1 for all other strings just when the string
is ASCII if it is framed; from 2^32 bytes on, just when it has both properties or is not framed by its
length modulo 2^32. -/
theorem rfc822ValidMsgid_iff (s : Bytes) :
    (rfc822ValidMsgid s = if IsMsgid s then 0 else -1) ↔
      (s.length < 2 ^ 32 → Framed s.length s → Ascii s) ∧
        (2 ^ 32 ≤ s.length → (Framed (s.length % 2 ^ 32) s ↔ Framed s.length s ∧ Ascii s)) := by
  have hvalue : (rfc822ValidMsgid s = if IsMsgid s then 0 else -1) ↔
      (Framed (s.length % 2 ^ 32) s ↔ IsMsgid s) := by
    rw [rfc822ValidMsgid_eq]
    split_ifs with h₁ h₂ h₂
    · exact iff_of_true rfl (iff_of_true h₁ h₂)
    · exact iff_of_false (by decide) fun h => h₂ (h.1 h₁)
    · exact iff_of_false (by decide) fun h => h₁ (h.2 h₂)
    · exact iff_of_true rfl (iff_of_false h₁ h₂)
  rw [hvalue, isMsgid_iff]
  rcases lt_or_ge s.length (2 ^ 32) with hlt | hge
  · rw [Nat.mod_eq_of_lt hlt]
    constructor
    · exact fun h => ⟨fun _ hframed => (h.1 hframed).2, fun hge => absurd hlt (Nat.not_lt.2 hge)⟩
    · exact fun h => ⟨fun hframed => ⟨hframed, h.1 hlt hframed⟩, And.left⟩
  · constructor
    · exact fun h => ⟨fun hlt => absurd hge (Nat.not_le.2 hlt), fun _ => h⟩
    · exact fun h => h.2 hge

/-- A byte above 127 is accepted. -/
theorem umlaut_accepted :
    rfc822ValidMsgid (bytes "<a@" ++ [228] ++ bytes ">") = 0 ∧
      ¬ IsMsgid (bytes "<a@" ++ [228] ++ bytes ">") := by
  decide

end Mailfilter
