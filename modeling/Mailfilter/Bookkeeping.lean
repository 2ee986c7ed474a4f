import Mathlib.Data.List.Induction
import Mailfilter.Duplicates

/-!
# The message-IDs that the weeder has seen

One weeder judges the headers of all accounts, and its list of message-IDs grows with them.

* `weederAfter`, the weeder after a sequence of headers, and `keptCount`, how many messages with an
  ID were not to be deleted;
* `firstIDs`, the IDs of a sequence in the order of their first appearance;
* `msgIds_isWeed`: what one header does to the list, whatever the verdict, and `msgIds_weederAfter`;
* `bookkeeping`: the list is the one of first appearances, a header is a duplicate just when its ID
  appeared before, and at most one message of an ID is kept.
-/

namespace Mailfilter

/-! ### First appearances -/

/-- The message-IDs of a sequence of headers, in the order of their first appearance. -/
def firstIDs (hdrs : List Header) : List Bytes :=
  ((hdrs.map Header.msgID).filter (· ≠ [])).eraseDups

section FirstAppearances

variable {α : Type} [BEq α] [LawfulBEq α]

theorem eraseDups_concat (xs : List α) (x : α) :
    (xs ++ [x]).eraseDups = if x ∈ xs then xs.eraseDups else xs.eraseDups ++ [x] := by
  rw [List.eraseDups_append]
  by_cases hx : x ∈ xs <;> simp [List.removeAll, List.eraseDups_cons, hx]

theorem nodup_eraseDups (xs : List α) : xs.eraseDups.Nodup := by
  induction xs using List.reverseRecOn with
  | nil => exact List.nodup_nil
  | append_singleton xs x ih =>
    rw [eraseDups_concat]
    split_ifs with hx
    · exact ih
    · refine List.nodup_append.2 ⟨ih, by simp, fun a ha b hb => ?_⟩
      rw [List.mem_singleton] at hb
      rw [List.mem_eraseDups] at ha
      exact fun hab => hx (hb ▸ hab ▸ ha)

end FirstAppearances

theorem mem_firstIDs {hdrs : List Header} {x : Bytes} :
    x ∈ firstIDs hdrs ↔ x ≠ [] ∧ x ∈ hdrs.map Header.msgID := by
  unfold firstIDs
  rw [List.mem_eraseDups, List.mem_filter, decide_eq_true_iff, and_comm]

/-- One more header adds its ID, unless it has none or appeared before. -/
theorem firstIDs_concat (hdrs : List Header) (hdr : Header) :
    firstIDs (hdrs ++ [hdr]) =
      if hdr.msgID = [] ∨ hdr.msgID ∈ firstIDs hdrs then firstIDs hdrs
      else firstIDs hdrs ++ [hdr.msgID] := by
  unfold firstIDs
  rw [List.map_append, List.filter_append, List.map_singleton]
  by_cases hid : hdr.msgID = []
  · simp [hid]
  · rw [List.filter_singleton]
    simp only [hid, ne_eq, not_false_eq_true, decide_true, cond_true, false_or, List.mem_eraseDups]
    rw [eraseDups_concat]

section Runs

variable (prefs : Preferences) (regexec : Option Regex → Bytes → ℤ)

/-- The weeder after a sequence of headers. -/
def weederAfter (hdrs : List Header) (w : Weeder) : Weeder :=
  hdrs.foldl (fun w hdr => (isWeed prefs regexec hdr w).2.1) w

/-- The number of messages with the ID `x` whose verdict is not to delete them. -/
def keptCount (x : Bytes) (hdrs : List Header) (w : Weeder) : ℕ :=
  (hdrs.zip (weedAll prefs regexec hdrs w)).countP fun p => p.1.msgID = x ∧ p.2 ≠ 1

variable {prefs} {regexec}

/-! ### One header -/

theorem msgIds_isWeed (hdel : prefs.deleteDuplicates = true) (hdr : Header) (w : Weeder) :
    (isWeed prefs regexec hdr w).2.1.msgIds =
      if hdr.msgID = [] ∨ hdr.msgID ∈ w.msgIds then w.msgIds else w.msgIds ++ [hdr.msgID] := by
  rw [weeder_isWeed]
  unfold checkDuplicates
  by_cases hid : hdr.msgID = []
  · simp [hid]
  · by_cases hmem : hdr.msgID ∈ w.msgIds <;> simp [hid, hdel, hmem]

theorem weeder_isWeed_off (hdel : prefs.deleteDuplicates = false) (hdr : Header) (w : Weeder) :
    (isWeed prefs regexec hdr w).2.1 = w := by
  rw [weeder_isWeed]
  unfold checkDuplicates
  simp [hdel]

theorem isWeed_of_duplicate {hdr : Header} {w : Weeder} (hdup : Duplicate prefs hdr w) :
    (isWeed prefs regexec hdr w).1 = 1 := by
  have hone : (checkDuplicates prefs hdr w).1 = 1 := by rw [checkDuplicates_status, if_pos hdup]
  unfold isWeed
  simp [hone]

theorem checkDuplicates_eq_one_iff {hdr : Header} {w : Weeder} :
    (checkDuplicates prefs hdr w).1 = 1 ↔ Duplicate prefs hdr w := by
  rw [checkDuplicates_status]
  split_ifs with h <;> simp [h]

theorem checkDuplicates_eq_zero {hdr : Header} {w : Weeder} (h : ¬ Duplicate prefs hdr w) :
    (checkDuplicates prefs hdr w).1 = 0 := by
  rw [checkDuplicates_status, if_neg h]

/-! ### A sequence of headers -/

/-- The list of the weeder, after any number of headers. -/
theorem msgIds_weederAfter (hdel : prefs.deleteDuplicates = true) (hdrs : List Header) :
    (weederAfter prefs regexec hdrs Weeder.new).msgIds = firstIDs hdrs := by
  induction hdrs using List.reverseRecOn with
  | nil => rfl
  | append_singleton hdrs hdr ih =>
    unfold weederAfter at ih ⊢
    rw [List.foldl_append, List.foldl_cons, List.foldl_nil, msgIds_isWeed hdel, ih, firstIDs_concat]

theorem weederAfter_off (hdel : prefs.deleteDuplicates = false) (hdrs : List Header) (w : Weeder) :
    weederAfter prefs regexec hdrs w = w := by
  unfold weederAfter
  simp only [weeder_isWeed_off hdel, List.foldl_fixed]

theorem keptCount_cons {x : Bytes} {hdr : Header} {hdrs : List Header} {w : Weeder} :
    keptCount prefs regexec x (hdr :: hdrs) w =
      keptCount prefs regexec x hdrs (isWeed prefs regexec hdr w).2.1 +
        if hdr.msgID = x ∧ (isWeed prefs regexec hdr w).1 ≠ 1 then 1 else 0 := by
  unfold keptCount
  rw [weedAll, List.zip_cons_cons, List.countP_cons]
  simp only [decide_eq_true_eq]

/-- Once an ID has been seen, no message with it is kept. -/
theorem keptCount_of_seen (hdel : prefs.deleteDuplicates = true) {x : Bytes} (hx : x ≠ [])
    {hdrs : List Header} {w : Weeder} (hseen : x ∈ w.msgIds) :
    keptCount prefs regexec x hdrs w = 0 := by
  induction hdrs generalizing w with
  | nil => rfl
  | cons hdr hdrs ih =>
    rw [keptCount_cons, ih ((mem_msgIds_isWeed hdel hx).2 (Or.inl hseen)), if_neg]
    rintro ⟨rfl, hkept⟩
    exact hkept (isWeed_of_duplicate ⟨hx, hdel, hseen⟩)

theorem keptCount_le_one (hdel : prefs.deleteDuplicates = true) {x : Bytes} (hx : x ≠ [])
    (hdrs : List Header) (w : Weeder) : keptCount prefs regexec x hdrs w ≤ 1 := by
  induction hdrs generalizing w with
  | nil => exact Nat.zero_le 1
  | cons hdr hdrs ih =>
    rw [keptCount_cons]
    by_cases hid : hdr.msgID = x
    · have hseen : x ∈ (isWeed prefs regexec hdr w).2.1.msgIds :=
        (mem_msgIds_isWeed hdel hx).2 (Or.inr hid)
      rw [keptCount_of_seen hdel hx hseen, zero_add]
      split_ifs <;> decide
    · rw [if_neg fun h => hid h.1, add_zero]
      exact ih _

/-- **The bookkeeping of message-IDs** over a whole run, with DEL_DUPLICATES on and off. -/
theorem bookkeeping (prefs : Preferences) (regexec : Option Regex → Bytes → ℤ)
    (hdrs : List Header) :
    (prefs.deleteDuplicates = true →
      (weederAfter prefs regexec hdrs Weeder.new).msgIds.Nodup ∧
      (weederAfter prefs regexec hdrs Weeder.new).msgIds = firstIDs hdrs ∧
      (∀ hdr, (checkDuplicates prefs hdr (weederAfter prefs regexec hdrs Weeder.new)).1 = 1 ↔
        hdr.msgID ≠ [] ∧ hdr.msgID ∈ hdrs.map Header.msgID) ∧
      ∀ x, x ≠ [] → keptCount prefs regexec x hdrs Weeder.new ≤ 1) ∧
    (prefs.deleteDuplicates = false →
      ∀ w, weederAfter prefs regexec hdrs w = w ∧ ∀ hdr, (checkDuplicates prefs hdr w).1 = 0) ∧
    ∀ hdr w, hdr.msgID = [] → (checkDuplicates prefs hdr w).1 = 0 := by
  refine ⟨fun hdel => ?_, fun hdel w => ?_, fun hdr w hid => ?_⟩
  · have hids : (weederAfter prefs regexec hdrs Weeder.new).msgIds = firstIDs hdrs :=
      msgIds_weederAfter hdel hdrs
    refine ⟨?_, hids, fun hdr => ?_, fun x hx => keptCount_le_one hdel hx hdrs _⟩
    · rw [hids]
      exact nodup_eraseDups _
    · rw [checkDuplicates_eq_one_iff, Duplicate, hids, mem_firstIDs]
      exact ⟨fun h => h.2.2, fun h => ⟨h.1, hdel, h⟩⟩
  · refine ⟨weederAfter_off hdel hdrs w, fun hdr => checkDuplicates_eq_zero fun hdup => ?_⟩
    exact Bool.false_ne_true (hdel.symm.trans hdup.2.1)
  · exact checkDuplicates_eq_zero fun hdup => hdup.1 hid

/-- Two copies of a message leave one ID behind. -/
theorem bookkeeping_copies :
    (weederAfter denySpam plainExec [copyWith "To", copyWith "Cc"]
      Weeder.new).msgIds = [bytes "<a@b>"] :=
  ((bookkeeping denySpam plainExec [copyWith "To", copyWith "Cc"]).1
    (by decide)).2.1.trans (by decide)

end Runs

end Mailfilter
