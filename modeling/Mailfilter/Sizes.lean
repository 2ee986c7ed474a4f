import Mailfilter.Deletion
import Mailfilter.Numbers

/-!
# The number of messages and their sizes

`STAT` and `LIST` are answered by two numbers, and the server may add more text.  `status` takes the
second word of the line for the number of messages, `scan` what follows its last space for a size.

* `numbersReply`, the replies;
* `Counted`, the reply to `STAT` has been read, and `status_counts`, the number that is returned;
* `SizeKept`: the size is still read with the text behind it;
* `numbers_read_iff`: the number of messages is right for all texts, a size just for those.
-/

namespace Mailfilter

open Pop3 Program
open Rfc822 (rfcparse_msgSize)

/-! ### The replies -/

/-- A reply with two numbers, and perhaps more behind them. -/
def numbersReply (m n : ℕ) (more : Option Bytes) : Bytes :=
  bytes "+OK " ++ decimal m ++ bytes " " ++ decimal n ++ more.elim [] (chr ' ' :: ·) ++ crlf

/-- What follows the last space of the line begins with a number that is the size modulo 2^32, once
it is within the range of a `long`. -/
def SizeKept (size : ℕ) (more : Option Bytes) : Prop :=
  ∀ text ∈ more, ∃ v, Begins (substrAfterLast (chr ' ') text) v ∧ long v ≡ size [ZMOD 2 ^ 32]

/-- The size that `scan` reads from the reply to `LIST`. -/
def listedSize (size : ℕ) (more : Option Bytes) : Int32 :=
  atoi (cstr (more.elim (decimal size) (substrAfterLast (chr ' ')) ++ crlf))

section Replies

variable {m n size : ℕ} {more : Option Bytes}

/-- The second word is the first number, whatever follows the space behind it. -/
theorem secondWord_append (m : ℕ) (s : Bytes) :
    secondWord (bytes "+OK " ++ (decimal m ++ chr ' ' :: s)) = decimal m := by
  have hok : extractWord ([] ++ (bytes "+OK" ++ chr ' ' :: (decimal m ++ chr ' ' :: s))) [] =
      (bytes "+OK", chr ' ' :: (decimal m ++ chr ' ' :: s)) :=
    extractWord_append (List.forall_mem_nil _) (by decide) (forall_of_all (by decide))
      (fun c hc => by cases hc; decide) _
  have hnumber : extractWord ([chr ' '] ++ (decimal m ++ chr ' ' :: s)) (bytes "+OK") =
      (decimal m, chr ' ' :: s) :=
    extractWord_append (forall_of_all (by decide)) (decimal_ne_nil m)
      (fun c hc => (isspace_of_isdigit (decimal_isdigit hc)).1) (fun c hc => by cases hc; decide) _
  unfold secondWord
  rw [← List.nil_append (bytes "+OK " ++ _), show bytes "+OK " = bytes "+OK" ++ [chr ' '] by decide,
    List.append_assoc, List.singleton_append, hok]
  exact congrArg Prod.fst hnumber

/-- The number of messages that `status` takes from a reply. -/
theorem atoi_secondWord (hm : m < 2 ^ 31) :
    (atoi (secondWord (cstr (numbersReply m n more)))).toInt = m := by
  have hnul : 0 ∉ bytes "+OK " ++ decimal m ++ bytes " " := by
    simp [not_mem_decimal (c := 0) rfl m, bytes, chr]
  have hcut : numbersReply m n more = (bytes "+OK " ++ decimal m ++ bytes " ") ++
      (decimal n ++ more.elim [] (chr ' ' :: ·) ++ crlf) := by
    simp [numbersReply]
  rw [hcut, cstr_append hnul, show bytes " " = [chr ' '] from rfl, List.append_assoc, List.append_assoc,
    List.singleton_append, secondWord_append, ← List.append_nil (decimal m)]
  exact atoi_decimal hm (by simp)

/-- The text that `scan` takes for the size. -/
theorem substrAfterLast_numbersReply : substrAfterLast (chr ' ') (numbersReply m size more) =
    more.elim (decimal size) (substrAfterLast (chr ' ')) ++ crlf := by
  have hspace : chr ' ' ∉ decimal size := not_mem_decimal rfl size
  unfold numbersReply
  rw [substrAfterLast_append_right _ (by decide : chr ' ' ∉ crlf)]
  refine congrArg (· ++ crlf) ?_
  cases more with
  | none =>
    rw [Option.elim_none, List.append_nil, show bytes " " = [chr ' '] from rfl, List.append_assoc,
      List.singleton_append]
    exact substrAfterLast_append hspace
  | some text => exact substrAfterLast_append_cons ..

/-- The size that it comes to. -/
theorem atoi_size_iff (hsize : size < 2 ^ 31) :
    (atoi (cstr (substrAfterLast (chr ' ') (numbersReply m size more)))).toInt = size ↔
      SizeKept size more := by
  have hcrlf : ∀ c ∈ crlf, isspace c = true := forall_of_all (by decide)
  have hlow : -2 ^ 31 ≤ (size : ℤ) := by omega
  have hhigh : (size : ℤ) < 2 ^ 31 := by omega
  rw [substrAfterLast_numbersReply]
  cases more with
  | none =>
    refine iff_of_true ?_ fun _ h => absurd h (Option.not_mem_none _)
    exact toInt_atoi_of_le ((begins_decimal size).append_white hcrlf) hlow hhigh
  | some text =>
    constructor
    · intro heq text' htext
      cases htext
      obtain ⟨v, hv⟩ := exists_begins (substrAfterLast (chr ' ') text)
      exact ⟨v, hv, (toInt_atoi_eq_iff (hv.append_white hcrlf) hlow hhigh).1 heq⟩
    · intro hkept
      obtain ⟨v, hv, hmod⟩ := hkept text rfl
      exact (toInt_atoi_eq_iff (hv.append_white hcrlf) hlow hhigh).2 hmod

/-- A size without more text is read as it is. -/
theorem listedSize_none (hsize : size < 2 ^ 31) : listedSize size none = Int32.ofNat size := by
  apply Int32.toInt.inj
  rw [Int32.toInt_ofNat_of_lt hsize]
  exact (congrArg (fun s => (atoi (cstr s)).toInt) (substrAfterLast_numbersReply (m := 0)).symm).trans
    ((atoi_size_iff hsize).mpr fun _ h => absurd h (Option.not_mem_none _))

end Replies

/-! ### The number of messages -/

section Status

variable {σ : Type} {conn : Connection σ} {t : List Event} {w : Weeder}

/-- The reply to `STAT` has been read. -/
def Counted (t : List Event) (r : Bytes) (t' : List Event) : Prop :=
  ∃ ret, GoodReply ret (some r) ∧ t' = t ++ [.write statCommand, .read false ret (some r)]

/-- Once that is so, `status` returns the number in it. -/
theorem status_counts : Triple (At t w) (status conn)
    (fun n s => ∀ r, Counted t r s.trace → n = atoi (secondWord (cstr r)))
    (fun _ s => ∀ r, ¬ Counted t r s.trace) := by
  have hsent : ∀ s : World σ, At (t ++ [.write statCommand]) w s → ∀ r, ¬ Counted t r s.trace := by
    rintro s hs r ⟨ret, -, htrace⟩
    rw [hs.1] at htrace
    exact absurd (List.append_cancel_left htrace) (by simp)
  refine status_reads.conseq (fun _ h => h) (fun n s hs r hr => ?_) fun _ => hsent
  obtain ⟨stat, ⟨rfl, -⟩ | ⟨ret, o, rfl, hnumber, -⟩, hs⟩ := hs
  · exact absurd hr (hsent s hs r)
  · -- the event that the trace ends with tells the reply
    obtain ⟨ret', hgood, htrace⟩ := hr
    rw [hs.1] at htrace
    cases List.append_cancel_left htrace
    exact hnumber r rfl hgood

end Status

/-! ### The numbers of a scan -/

/-- **Numbers as they were sent.**  If `STAT` is answered by two numbers, `status` returns the first,
whatever follows.  If `LIST` is, the size of the message is the second one just when the text behind it
leaves it so. -/
theorem numbers_read_iff {σ : Type} (conn : Connection σ) (env : Env) (s : World σ) :
    (∀ n size more, n < 2 ^ 31 →
      Counted s.trace (numbersReply n size more) (exec (status conn) s).2.trace →
      (exec (status conn) s).1.map Int32.toInt = .ok (n : ℤ)) ∧
    ∀ n s₁, exec (status conn) s = (.ok n, s₁) → ∃ exams tail,
      Scanned env 1 n.toInt.toNat s₁.trace s₁.weeder exams tail (exec (scan conn env) s).2.trace
        (exec (scan conn env) s).2.weeder ∧
      ((exec (scan conn env) s).1 = .ok 0 → exams.length = n.toInt.toNat) ∧
      ∀ e ∈ exams, ∀ size more, size < 2 ^ 31 → e.listReply = numbersReply e.number size more →
        (e.header.msgSize.toInt = size ↔ SizeKept size more) := by
  constructor
  · intro n size more hn hcounted
    have h := (@status_counts σ conn s.trace s.weeder).exec ⟨rfl, rfl⟩
    rcases hrun : exec (status conn) s with ⟨e | m, s₁⟩ <;> rw [hrun] at h hcounted
    · exact absurd hcounted (h _)
    · have hm : m.toInt = n := h _ hcounted ▸ atoi_secondWord hn
      exact congrArg Except.ok hm
  · intro n s₁ hstat
    obtain ⟨exams, tail, hscan, hzero⟩ := @scan_scanned σ conn env n s s₁ hstat
    refine ⟨exams, tail, hscan, fun h0 => (hzero h0).1, fun e he size more hsize hreply => ?_⟩
    rw [rfcparse_msgSize (hscan.sound e he).parsed, hreply]
    exact atoi_size_iff hsize

/-- A mailbox with one message of 120 bytes, and a server that adds a text to its size. -/
def oneListed (more : Option Bytes) : World (List Bytes × Option Bytes) :=
  { oneMessage with
    wire := ⟨([numbersReply 1 120 none, numbersReply 1 120 more, bytes "+OK\r\n"], none), []⟩ }

/-- A text that ends with the size again. -/
def again : Option Bytes := some (bytes "octets: 120")

theorem sizeKept_again : SizeKept 120 again := by
  intro text htext
  cases htext
  exact ⟨120, begins_decimal 120, rfl⟩

/-- Both numbers are read from such replies. -/
theorem numbers_read_again :
    (exec (status prepared) (oneListed again)).1.map Int32.toInt = .ok 1 ∧
      ∃ e : Exam, e.events smallMail <:+: (exec (scan prepared smallMail) (oneListed again)).2.trace ∧
        e.listReply = numbersReply 1 120 again ∧ e.header.msgSize.toInt = 120 := by
  obtain ⟨hcount, hscan⟩ := numbers_read_iff prepared smallMail (oneListed again)
  have hstat : exec (status prepared) (oneListed again) =
      (.ok 1, (exec (status prepared) (oneListed again)).2) := rfl
  obtain ⟨exams, tail, hscan, hzero, hsizes⟩ := hscan 1 _ hstat
  obtain ⟨e, rfl⟩ := List.length_eq_one_iff.1 (hzero rfl)
  have hreply : e.listReply = numbersReply 1 120 again := by
    have hread : (exec (scan prepared smallMail) (oneListed again)).2.trace[3]? =
        some (.read false 23 (some (numbersReply 1 120 again))) := rfl
    rw [hscan.trace] at hread
    injection Option.some.inj hread with _ _ hreply
    exact Option.some.inj hreply
  have hnumber : e.number = 1 := by simpa using hscan.numbers
  have hevents : e.events smallMail <:+: (exec (scan prepared smallMail) (oneListed again)).2.trace :=
    ⟨_, tail, by rw [hscan.trace, List.flatMap_singleton]⟩
  refine ⟨hcount 1 120 none (by decide) ⟨11, ⟨by decide, rfl⟩, rfl⟩, e, hevents, hreply, ?_⟩
  exact (hsizes e (List.mem_singleton_self e) 120 again (by decide) (hnumber.symm ▸ hreply)).2
    sizeKept_again

/-- The examination of a message whose size was not found. -/
def unsized : Exam where
  number := 1
  listRet := 18
  listReply := numbersReply 1 120 (some (bytes "octets"))
  topRet := 5
  topReply := bytes "+OK\r\n"
  before := Weeder.new
  header := Header.new 0
  verdict := 0

/-- It has 120 bytes, but is taken for one of none, and passes a limit of one byte. -/
theorem unsized_passes :
    (exec (scan prepared smallMail) (oneListed (some (bytes "octets")))).2.trace =
        (exec (status prepared) (oneListed (some (bytes "octets")))).2.trace ++
          unsized.events smallMail ∧
      unsized.listReply = numbersReply unsized.number 120 (some (bytes "octets")) ∧
      unsized.header.msgSize = 0 ∧ unsized.verdict = 0 ∧ ¬ SizeKept 120 (some (bytes "octets")) := by
  refine ⟨rfl, rfl, rfl, rfl, fun h => ?_⟩
  have hsize := (atoi_size_iff (m := 1) (by decide)).2 h
  exact absurd hsize (by decide)

example : deletions (exec (scan prepared smallMail) (oneListed none)).2.trace = [deleCommand 1] := rfl

end Mailfilter
