import Mailfilter.Link
import Mailfilter.Rfc822.Acceptance
import Mailfilter.Sizes

/-!
# What the program is for

A maildrop as its server keeps it, and what is to become of it: the messages that the weeder condemns
are gone after the session, and the others are still there.

* `Message`, a message with the header that the program reads from it, and `exists_message`;
* `sift`: the messages of a maildrop that are kept;
* `unmarked` and `maildropAfter`, what the commands of a session do to a maildrop;
* `scanCommands`: the commands of a scan, and `maildropAfter_session`: they leave the messages that are
  kept;
* `Serves`: the replies of a server that looks after a maildrop.
-/

namespace Mailfilter

open Pop3 Program Rfc822

/-! ### Messages -/

/-- The line that ends a reply of several lines. -/
def dotLine : Bytes := bytes ".\r\n"

/-- A message that the program can read: its size, what the server puts behind that in the reply to
`LIST`, the lines of its header as the server sends them, and the header that they are parsed to.  Over
a header that cannot be parsed the program ends, or leaves the account. -/
structure Message (prefs : Preferences) where
  size : ℕ
  text : Option Bytes
  lines : Bytes
  header : Header
  text_noNul : 0 ∉ text.getD []
  noNul : 0 ∉ lines
  parsed : rfcparse prefs (Header.new (listedSize size text)) (rfclex (lines ++ dotLine)) = .ok header

/-- With `-i` there is one for all lines that are orderly. -/
theorem exists_message {prefs : Preferences} (hts : prefs.ignoreTimeStamp = true) {ls : List Bytes}
    (hls : ∀ l ∈ ls, Clean l) (horderly : Orderly false .start (ls ++ [[], Rfc822.dotLine]))
    (size : ℕ) : ∃ m : Message prefs, m.size = size ∧ m.lines = unlines (ls ++ [[]]) := by
  have htext : unlines (ls ++ [[]]) ++ dotLine = messageText ls := by
    have hdot : unlines [Rfc822.dotLine] = dotLine := by decide
    rw [← hdot]
    simp [messageText, unlines]
  have hnul : 0 ∉ unlines (ls ++ [[]]) := by
    intro hmem
    obtain ⟨l, hl, h0⟩ := List.mem_flatMap.1 hmem
    rcases List.mem_append.1 h0 with h0 | h0
    · rcases List.mem_append.1 hl with hl | hl
      · exact (hls l hl).2 h0
      · rw [List.mem_singleton.1 hl] at h0
        cases h0
    · exact absurd h0 (by decide)
  have hsentence : ∀ e, rfcparse prefs (Header.new (listedSize size none)) (rfclex (messageText ls)) ≠
      .error (.halt e) := by
    rw [rfclex_messageText hls]
    exact parse_ne_halt (accepts_lineTokens.2 horderly)
  cases hparse : rfcparse prefs (Header.new (listedSize size none)) (rfclex (messageText ls)) with
  | ok h => exact ⟨⟨size, none, _, h, List.not_mem_nil, hnul, htext ▸ hparse⟩, rfl, rfl⟩
  | error e =>
    cases e with
    | thrown e => exact absurd hparse (parse_ne_thrown hts _ _ _ e)
    | halt e => exact absurd hparse (hsentence e)

variable {env : Env}

namespace Message

/-- What the weeder thinks of the message. -/
def verdict (w : Weeder) (m : Message env.prefs) : ℤ := (isWeed env.prefs env.regexec m.header w).1

/-- The weeder afterwards. -/
def after (w : Weeder) (m : Message env.prefs) : Weeder :=
  (isWeed env.prefs env.regexec m.header w).2.1

/-- The commands about message number `i`. -/
def commands (i : ℕ) (w : Weeder) (m : Message env.prefs) : List Bytes :=
  [listCommand (decimal i), topCommand (decimal i)] ++
    if Deleted env (m.verdict w) then [deleCommand i] else []

end Message

/-! ### Sifting -/

/-- The messages that are kept, and the weeder after the last one. -/
def sift : Weeder → List (Message env.prefs) → List (Message env.prefs) × Weeder
  | w, [] => ([], w)
  | w, m :: ms =>
    let rest := sift (m.after w) ms
    (if Deleted env (m.verdict w) then rest.1 else m :: rest.1, rest.2)

/-- The commands of a scan from message `i` on. -/
def scanCommands : ℕ → Weeder → List (Message env.prefs) → List Bytes
  | _, _, [] => []
  | i, w, m :: ms => m.commands i w ++ scanCommands (i + 1) (m.after w) ms

/-! ### Maildrops -/

variable {prefs : Preferences}

/-- The messages, numbered from `i` on, that the commands do not mark as deleted. -/
def unmarked (i : ℕ) (ms : List (Message prefs)) (cmds : List Bytes) : List (Message prefs) :=
  ((ms.zipIdx i).filter fun x => deleCommand x.2 ∉ cmds).map Prod.fst

/-- The maildrop after a session: `QUIT` removes what was marked before it, and without `QUIT` nothing
is removed. -/
def maildropAfter (ms : List (Message prefs)) (cmds : List Bytes) : List (Message prefs) :=
  if quitCommand ∈ cmds then unmarked 1 ms (cmds.takeWhile (· ≠ quitCommand)) else ms

/-- No message from number `i` on is marked. -/
def Untouched (i : ℕ) (cmds : List Bytes) : Prop := ∀ j, i ≤ j → deleCommand j ∉ cmds

theorem deleCommand_inj {i j : ℕ} (h : deleCommand i = deleCommand j) : i = j := by
  have hdecimal : decimal i = decimal j := by
    simpa [deleCommand] using h
  have hvalue (n : ℕ) : digitsValue (decimal n) = n := by
    simpa using digitsValue_decimal n (s := []) (by simp)
  rw [← hvalue i, hdecimal, hvalue]

/-- A command that is no `DELE` marks nothing. -/
theorem untouched_of_not_isDele {i : ℕ} {cmds : List Bytes} (h : ∀ cmd ∈ cmds, isDele cmd = false) :
    Untouched i cmds := fun j _ hmem => by
  have := h _ hmem
  rw [isDele_deleCommand] at this
  cases this

theorem Untouched.append {i : ℕ} {cmds cmds' : List Bytes} (h : Untouched i cmds)
    (h' : Untouched i cmds') : Untouched i (cmds ++ cmds') := fun j hj hmem =>
  (List.mem_append.mp hmem).elim (h j hj) (h' j hj)

theorem Untouched.mono {i j : ℕ} {cmds : List Bytes} (h : Untouched i cmds) (hij : i ≤ j) :
    Untouched j cmds := fun k hk => h k (hij.trans hk)

theorem unmarked_of_untouched {i : ℕ} {cmds : List Bytes} (h : Untouched i cmds)
    (ms : List (Message prefs)) : unmarked i ms cmds = ms := by
  unfold unmarked
  rw [List.filter_eq_self.mpr, List.zipIdx_map_fst]
  rintro ⟨m, j⟩ hx
  exact decide_eq_true (h j (List.le_snd_of_mem_zipIdx hx))

theorem length_unmarked_le (i : ℕ) (ms : List (Message prefs)) (cmds : List Bytes) :
    (unmarked i ms cmds).length ≤ ms.length := by
  unfold unmarked
  rw [List.length_map]
  exact (List.length_filter_le _ _).trans (by rw [List.length_zipIdx])

/-- The commands about a message mark no other. -/
theorem untouched_commands {i j : ℕ} (w : Weeder) (m : Message env.prefs) (h : i ≠ j) :
    deleCommand j ∉ m.commands i w := by
  intro hmem
  have hlookup : deleCommand j ∉ [listCommand (decimal i), topCommand (decimal i)] :=
    untouched_of_not_isDele (i := j) (by simp [isDele_listCommand, isDele_topCommand]) j le_rfl
  rcases List.mem_append.mp hmem with hmem | hmem
  · exact hlookup hmem
  · split_ifs at hmem
    · exact h (deleCommand_inj (List.mem_singleton.mp hmem)).symm
    · cases hmem

/-- A message is marked by its own commands if it is to be deleted. -/
theorem mem_commands {i : ℕ} (w : Weeder) (m : Message env.prefs) :
    deleCommand i ∈ m.commands i w ↔ Deleted env (m.verdict w) := by
  have hlookup : deleCommand i ∉ [listCommand (decimal i), topCommand (decimal i)] :=
    untouched_of_not_isDele (i := i) (by simp [isDele_listCommand, isDele_topCommand]) i le_rfl
  unfold Message.commands
  split_ifs with h <;> simp_all

theorem not_mem_scanCommands {i j : ℕ} (w : Weeder) (ms : List (Message env.prefs)) (h : j < i) :
    deleCommand j ∉ scanCommands i w ms := by
  induction ms generalizing i w with
  | nil => exact List.not_mem_nil
  | cons m ms ih =>
    intro hmem
    rcases List.mem_append.mp hmem with hmem | hmem
    · exact untouched_commands w m h.ne' hmem
    · exact ih (m.after w) (h.trans (Nat.lt_succ_self i)) hmem

/-- **The commands of a scan** mark the messages that are not kept. -/
theorem unmarked_scanCommands (i : ℕ) (w : Weeder) (ms : List (Message env.prefs))
    {pre post : List Bytes} (hpre : Untouched i pre) (hpost : Untouched i post) :
    unmarked i ms (pre ++ scanCommands i w ms ++ post) = (sift w ms).1 := by
  induction ms generalizing i w pre with
  | nil => rfl
  | cons m ms ih =>
    have hassoc : pre ++ scanCommands i w (m :: ms) ++ post =
        pre ++ m.commands i w ++ scanCommands (i + 1) (m.after w) ms ++ post := by
      simp [scanCommands]
    have hdone : Untouched (i + 1) (pre ++ m.commands i w) :=
      (hpre.mono (Nat.le_succ i)).append fun j hj => untouched_commands w m (by omega)
    have hrest := ih (i + 1) (m.after w) hdone (hpost.mono (Nat.le_succ i))
    have hmark : deleCommand i ∈
        pre ++ m.commands i w ++ scanCommands (i + 1) (m.after w) ms ++ post ↔
          Deleted env (m.verdict w) := by
      rw [← mem_commands (i := i)]
      simp [hpre i le_rfl, hpost i le_rfl, not_mem_scanCommands (m.after w) ms (Nat.lt_succ_self i)]
    unfold unmarked at hrest ⊢
    rw [hassoc, List.zipIdx_cons, List.filter_cons, sift]
    by_cases hd : Deleted env (m.verdict w)
    · simp only [hmark, hd, not_true_eq_false, decide_false, Bool.false_eq_true, if_false, if_true,
        hrest]
    · simp only [hmark, hd, not_false_eq_true, decide_true, if_true, if_false, List.map_cons, hrest]

/-! ### Sessions -/

/-- The commands of a session up to `QUIT`. -/
def openCommands (login : List Bytes) (w : Weeder) (ms : List (Message env.prefs)) : List Bytes :=
  login ++ [statCommand, statCommand] ++ scanCommands 1 w ms ++
    if env.prefs.returnStatus then [statCommand] else []

/-- The commands of a session that is not cut short. -/
def sessionCommands (login : List Bytes) (w : Weeder) (ms : List (Message env.prefs)) : List Bytes :=
  openCommands login w ms ++ [quitCommand]

theorem awaited_statCommand : Awaited statCommand := by decide

theorem quitCommand_notMem {cmds : List Bytes} (h : ∀ cmd ∈ cmds, Awaited cmd) :
    quitCommand ∉ cmds := fun hmem => (h _ hmem).2 rfl

theorem untouched_of_awaited {i : ℕ} {cmds : List Bytes} (h : ∀ cmd ∈ cmds, Awaited cmd) :
    Untouched i cmds :=
  untouched_of_not_isDele fun cmd hcmd => (h cmd hcmd).1

theorem quitCommand_notMem_commands (i : ℕ) (w : Weeder) (m : Message env.prefs) :
    quitCommand ∉ m.commands i w := by
  have hlist : quitCommand ≠ listCommand (decimal i) := fun h =>
    absurd (show some (chr 'Q') = some (chr 'L') from congrArg List.head? h) (by decide)
  have htop : quitCommand ≠ topCommand (decimal i) := fun h =>
    absurd (show some (chr 'Q') = some (chr 'T') from congrArg List.head? h) (by decide)
  have hdele : quitCommand ≠ deleCommand i := fun h =>
    absurd (show some (chr 'Q') = some (chr 'D') from congrArg List.head? h) (by decide)
  unfold Message.commands
  split_ifs <;> simp [hlist, htop, hdele]

theorem quitCommand_notMem_scanCommands (i : ℕ) (w : Weeder) (ms : List (Message env.prefs)) :
    quitCommand ∉ scanCommands i w ms := by
  induction ms generalizing i w with
  | nil => exact List.not_mem_nil
  | cons m ms ih =>
    exact fun hmem => (List.mem_append.mp hmem).elim (quitCommand_notMem_commands i w m) (ih _ _)

theorem takeWhile_quit {cmds : List Bytes} (h : quitCommand ∉ cmds) :
    (cmds ++ [quitCommand]).takeWhile (· ≠ quitCommand) = cmds := by
  have hall : ∀ cmd ∈ cmds, decide (cmd ≠ quitCommand) = true := fun cmd hcmd =>
    decide_eq_true fun heq => h (heq ▸ hcmd)
  rw [List.takeWhile_append_of_pos hall]
  simp

/-- **A session** that is not cut short leaves the messages that are kept. -/
theorem maildropAfter_session {login : List Bytes} (hlogin : ∀ cmd ∈ login, Awaited cmd) (w : Weeder)
    (ms : List (Message env.prefs)) :
    maildropAfter ms (sessionCommands login w ms) = (sift w ms).1 := by
  have hpre : ∀ cmd ∈ login ++ [statCommand, statCommand], Awaited cmd := by
    simpa [or_imp, forall_and, awaited_statCommand] using hlogin
  have hpost : ∀ cmd ∈ (if env.prefs.returnStatus then [statCommand] else []), Awaited cmd := by
    split_ifs <;> simp [awaited_statCommand]
  have hopen : quitCommand ∉ openCommands login w ms := by
    intro hmem
    rcases List.mem_append.mp hmem with hmem | hmem
    · exact (List.mem_append.mp hmem).elim (quitCommand_notMem hpre)
        (quitCommand_notMem_scanCommands 1 w ms)
    · exact quitCommand_notMem hpost hmem
  have hquit : quitCommand ∈ sessionCommands login w ms :=
    List.mem_append_right _ (List.mem_singleton_self _)
  rw [maildropAfter, if_pos hquit, sessionCommands, takeWhile_quit hopen]
  exact unmarked_scanCommands 1 w ms (untouched_of_awaited hpre) (untouched_of_awaited hpost)

/-! ### Servers -/

/-- A status line that reports success. -/
def StatusLine (r : Bytes) : Prop :=
  ∃ text, r = bytes "+OK" ++ text ++ Pop3.crlf ∧ chr '\n' ∉ text ∧ 0 ∉ text

/-- The session has begun, and it is not over. -/
structure InSession (login cmds : List Bytes) : Prop where
  prefix_login : login <+: cmds
  noQuit : quitCommand ∉ cmds

/-- The answers of a server that looks after a maildrop, which is not used by others in the meantime. -/
structure Serves (answer : List Bytes → Bytes) (login : List Bytes) (ms : List (Message prefs))
    (bound : ℕ) : Prop where
  short : ∀ cmds, 2 * (answer cmds).length < bound
  length_lt : ms.length + 1 < 2 ^ 31
  welcome : ∀ cmds, cmds <+: login → StatusLine (answer cmds)
  stat : ∀ cmds, InSession login cmds → ∃ octets more, 0 ∉ more.getD [] ∧
    answer (cmds ++ [statCommand]) = numbersReply (unmarked 1 ms cmds).length octets more
  list : ∀ cmds m i, InSession login cmds → (m, i) ∈ ms.zipIdx 1 → deleCommand i ∉ cmds →
    answer (cmds ++ [listCommand (decimal i)]) = numbersReply i m.size m.text
  top : ∀ cmds m i, InSession login cmds → (m, i) ∈ ms.zipIdx 1 → deleCommand i ∉ cmds →
    ∃ status, StatusLine status ∧
      answer (cmds ++ [topCommand (decimal i)]) = status ++ m.lines ++ dotLine
  dele : ∀ cmds m i, InSession login cmds → (m, i) ∈ ms.zipIdx 1 → deleCommand i ∉ cmds →
    StatusLine (answer (cmds ++ [deleCommand i]))

end Mailfilter
