import Mailfilter.Carrying

/-!
# The file of headers

With `SHOW_HEADERS` every header that is fetched is appended to a file, before anything else is done
with it.

* `HeaderFile.show`, what `print_header` makes of the file, and `foldl_show`: of several headers the
  file has those from the first attempt on at which it could be opened, a line end behind each;
* `headers`, the headers that were fetched, `Displayed`, the file is up to date, and `Lagging`, it lacks
  the header that was just read;
* `main_displays`: after a run the file has the headers that were fetched, in their order.
-/

namespace Mailfilter

open Pop3 Program

/-! ### The file -/

/-- `Feedback::print_header`, for the file. -/
def HeaderFile.show (env : Env) (file : HeaderFile) (hdr : Bytes) : HeaderFile :=
  let file := file.reopen env
  if file.isOpen then { file with content := file.content ++ hdr ++ bytes "\n" } else file

/-- What is written for some headers. -/
def shownText (hs : List Bytes) : Bytes := hs.flatMap (· ++ bytes "\n")

theorem shownText_concat (hs : List Bytes) (hdr : Bytes) :
    shownText (hs ++ [hdr]) = shownText hs ++ hdr ++ bytes "\n" := by
  simp [shownText]

/-- The stream at the start of the program. -/
def HeaderFile.new : HeaderFile := ⟨0, false, []⟩

theorem exec_printHeader_show {σ : Type} (env : Env) (msg : Bytes) (w : World σ) :
    ∃ b, exec (printHeader env msg) w = (.ok b, { w with headerFile := w.headerFile.show env msg }) := by
  unfold printHeader HeaderFile.show
  rw [exec_step]
  dsimp only
  split_ifs with hopen
  · exact ⟨true, rfl⟩
  · exact ⟨false, rfl⟩

/-- The file could be opened at the attempt `k`, or not at all in `k` attempts; then it has the headers
from there on. -/
structure HeaderFile.Since (env : Env) (hs : List Bytes) (file : HeaderFile) (k : ℕ) : Prop where
  failed : ∀ j < k, env.openAppend env.prefs.headersFile j = false
  succeeded : file.isOpen = true → k < hs.length ∧ env.openAppend env.prefs.headersFile k = true
  closed : file.isOpen = false → k = hs.length ∧ file.attempts = hs.length
  content : file.content = shownText (hs.drop k)

variable {env : Env}

/-- A further header. -/
theorem HeaderFile.Since.show {hs : List Bytes} {file : HeaderFile} {k : ℕ} (h : file.Since env hs k)
    (hdr : Bytes) : ∃ k, (file.show env hdr).Since env (hs ++ [hdr]) k := by
  obtain ⟨attempts, isOpen, content⟩ := file
  obtain ⟨hfailed, hsucceeded, hclosed, hcontent⟩ := h
  cases isOpen with
  | true =>
    obtain ⟨hk, hopened⟩ := hsucceeded rfl
    refine ⟨k, hfailed, fun _ => ⟨?_, hopened⟩, nofun, ?_⟩
    · rw [List.length_append]
      omega
    · show content ++ hdr ++ bytes "\n" = _
      rw [show content = shownText (hs.drop k) from hcontent, List.drop_append_of_le_length (by omega),
        shownText_concat]
  | false =>
    obtain ⟨rfl, rfl : attempts = hs.length⟩ := hclosed rfl
    obtain rfl : content = [] := hcontent.trans (by rw [List.drop_length]; rfl)
    cases hopen : env.openAppend env.prefs.headersFile hs.length with
    | true =>
      have hshow : HeaderFile.show env ⟨hs.length, false, []⟩ hdr =
          ⟨hs.length + 1, true, hdr ++ bytes "\n"⟩ := by
        simp [HeaderFile.show, HeaderFile.reopen, hopen]
      rw [hshow]
      exact ⟨hs.length, hfailed, fun _ => ⟨by simp, hopen⟩, nofun, by simp [shownText]⟩
    | false =>
      have hshow : HeaderFile.show env ⟨hs.length, false, []⟩ hdr = ⟨hs.length + 1, false, []⟩ := by
        simp [HeaderFile.show, HeaderFile.reopen, hopen]
      rw [hshow]
      refine ⟨hs.length + 1, fun j hj => ?_, nofun, fun _ => by simp, by simp [shownText]⟩
      rcases Nat.lt_succ_iff_lt_or_eq.mp hj with hj | rfl
      · exact hfailed j hj
      · exact hopen

/-- **Several headers.** -/
theorem foldl_show (env : Env) (hs : List Bytes) :
    ∃ k, (hs.foldl (HeaderFile.show env) HeaderFile.new).Since env hs k := by
  induction hs using List.reverseRecOn with
  | nil => exact ⟨0, nofun, nofun, fun _ => ⟨rfl, rfl⟩, rfl⟩
  | append_singleton hs hdr ih =>
    obtain ⟨k, hk⟩ := ih
    rw [List.foldl_append]
    exact hk.show hdr

/-! ### The headers that were fetched -/

/-- The header that was fetched by a call of `c_read`, as a C string: it ends before its first NUL. -/
def headerOf : Event → List Bytes
  | .read true ret (some r) => if 0 < ret ∧ firstByte r = chr '+' then [cstr r] else []
  | _ => []

def headers (trace : List Event) : List Bytes := trace.flatMap headerOf

theorem headers_concat (trace : List Event) (e : Event) :
    headers (trace ++ [e]) = headers trace ++ headerOf e := by
  simp [headers]

/-- All headers that were fetched are in the file. -/
def Displayed {σ : Type} (env : Env) (s : World σ) : Prop :=
  s.headerFile = (headers s.trace).foldl (HeaderFile.show env) HeaderFile.new

/-- All but the last one are, which is this header. -/
def Lacks {σ : Type} (env : Env) (hdr : Bytes) (s : World σ) : Prop :=
  ∃ hs, headers s.trace = hs ++ [hdr] ∧
    s.headerFile = hs.foldl (HeaderFile.show env) HeaderFile.new

/-- The file lacks the header that is the reply. -/
def Lagging {σ : Type} (env : Env) (conn : Connection σ) (s : World σ) : Prop :=
  ∃ r, conn.cReply s.wire.net = some r ∧ Lacks env (cstr r) s

section Sessions

variable {σ : Type} {conn : Connection σ}

theorem Displayed.record {s : World σ} {e : Event} (hs : Displayed env s) (he : headerOf e = []) :
    Displayed env (s.record e) := by
  unfold Displayed World.record
  rwa [headers_concat, he, List.append_nil]

theorem onWire_displayed {α : Type} (p : Program Halt (Wire σ) α) :
    Preserves (Displayed env) (onWire p) :=
  onWire_preserves (fun _ _ hs => hs) p

/-- A call of `c_read` for a header has just returned. -/
def JustRead (env : Env) (conn : Connection σ) (ret : Int32) (s : World σ) : Prop :=
  ∃ s₀, Displayed env s₀ ∧ s = s₀.record (.read true ret (conn.cReply s₀.wire.net))

theorem JustRead.displayed {ret : Int32} {s : World σ} (h : JustRead env conn ret s)
    (hno : ∀ r, conn.cReply s.wire.net = some r → 0 < ret → firstByte r ≠ chr '+') :
    Displayed env s := by
  obtain ⟨s₀, hs₀, rfl⟩ := h
  refine hs₀.record ?_
  cases hr : conn.cReply s₀.wire.net with
  | none => rfl
  | some r => exact if_neg fun hok => hno r hr hok.1 hok.2

theorem JustRead.lagging {ret : Int32} {r : Bytes} {s : World σ} (h : JustRead env conn ret s)
    (hr : conn.cReply s.wire.net = some r) (hret : 0 < ret) (hok : firstByte r = chr '+') :
    Lagging env conn s := by
  obtain ⟨s₀, hs₀, rfl⟩ := h
  have hr₀ : conn.cReply s₀.wire.net = some r := hr
  refine ⟨r, hr, headers s₀.trace, ?_, hs₀⟩
  rw [World.record, headers_concat, hr₀]
  exact congrArg (headers s₀.trace ++ ·) (if_pos ⟨hret, hok⟩)

/-- A header that is read is not in the file yet. -/
theorem replyOk_lagging : Triple (Displayed env) (replyOk conn true)
    (fun ok s => if ok then Lagging env conn s else Displayed env s) fun _ => Displayed env := by
  have hread : Triple (Displayed env) (cRead conn true) (JustRead env conn) fun _ => Displayed env := by
    refine Triple.bind (onWire_displayed _) fun ret => ?_
    refine Triple.bind (R := fun _ => JustRead env conn ret) (Triple.modify fun s hs => ⟨s, hs, rfl⟩) ?_
    exact fun _ => Triple.pure fun _ hs => hs
  refine Triple.bind hread fun ret => Triple.ite (fun hret => ?_) fun hret => ?_
  · refine Triple.bind (R := fun r s => r = conn.cReply s.wire.net ∧ JustRead env conn ret s)
      (Triple.gets fun s hs => ⟨rfl, hs⟩) fun r => ?_
    cases r with
    | none =>
      refine Triple.pure fun s hs => hs.2.displayed fun r hr => ?_
      rw [← hs.1] at hr
      cases hr
    | some r =>
      refine Triple.pure fun s hs => ?_
      by_cases hok : firstByte r = chr '+'
      · simpa [hok] using hs.2.lagging hs.1.symm hret hok
      · simp only [hok, decide_false, Bool.false_eq_true, if_false]
        refine hs.2.displayed fun r' hr' _ => ?_
        rw [← hs.1] at hr'
        cases hr'
        exact hok
  · exact Triple.pure fun s hs => hs.displayed fun _ _ hpos => absurd hpos hret

/-- Then it is shown. -/
theorem showHeader_displayed (hset : env.prefs.headersFile.length ≠ 0) :
    Triple (Lagging env conn) (showHeader conn env) (fun _ => Displayed env) fun _ => Displayed env := by
  have hreply : Triple (Lagging env conn) (reply conn) (fun r => Lacks env (cstr r))
      fun _ => Displayed env := by
    refine Triple.of_exec fun s hs => ?_
    obtain ⟨r, hr, hlacks⟩ := hs
    unfold reply cReply
    rw [exec_bind, exec_gets, hr]
    exact hlacks
  have hprint (r : Bytes) : Triple (Lacks env (cstr r) : World σ → Prop) (printHeader env (cstr r))
      (fun _ => Displayed env) fun _ => Displayed env := by
    refine Triple.of_exec fun s hs => ?_
    obtain ⟨hs, htrace, hfile⟩ := hs
    obtain ⟨b, hrun⟩ := exec_printHeader_show env (cstr r) s
    rw [hrun]
    show s.headerFile.show env (cstr r) = (headers s.trace).foldl _ _
    rw [htrace, List.foldl_append, hfile]
    rfl
  unfold showHeader
  rw [if_pos hset]
  refine Triple.bind hreply fun r => Triple.bind (hprint r) fun _ =>
    Preserves.ite ?_ (Preserves.pure _)
  exact Preserves.modify fun _ hs => hs

/-- The sessions keep the file up to date. -/
theorem carries_displayed (hset : env.prefs.headersFile.length ≠ 0) :
    Carries conn env (Displayed env) (Lagging env conn) where
  log _ _ := Preserves.modify fun _ hs => hs
  read := (onWire_displayed _).bind fun ret => record_preserves (fun _ hs => hs.record rfl) ret
  write _ := Preserves.bind (Preserves.modify fun _ hs => hs.record rfl) fun _ => onWire_displayed _
  header := replyOk_lagging
  shown := showHeader_displayed hset
  weed hdr := Triple.of_exec fun s hs => by
    show s.headerFile = (headers (s.trace ++ [.weed s.weeder hdr _])).foldl _ _
    exact hs.record rfl

theorem sessions_displayed {conns : ℕ → Connection σ} (hset : env.prefs.headersFile.length ≠ 0) :
    SessionCarries conns env (Displayed env) fun psock => Lagging env (conns psock) where
  carried _ := carries_displayed hset
  opened _ _ _ _ _ :=
    (onWire_displayed _).bind fun ret => record_preserves (fun _ hs => hs.record rfl) ret
  closed _ := (onWire_displayed _).bind fun ret => record_preserves (fun _ hs => hs.record rfl) ret
  counted _ _ hs := hs

end Sessions

/-! ### The program -/

section Main

variable {σ : Type} {host : Host} {opts : List Opt} {q : Preferences}

/-- **Headers**: whatever the servers do, the file of `SHOW_HEADERS` has all headers that were fetched,
in their order and with a line end behind each, from the first attempt on at which it could be opened. -/
theorem main_displays (hload : Loads host opts q) (hset : q.headersFile.length ≠ 0)
    (conns : ℕ → Connection σ) (net : σ) :
    ∃ result s k, exec (main host conns opts) (World.new net) = (result, s) ∧
      (∀ j < k, host.openAppend q.headersFile j = false) ∧
      (s.headerFile.isOpen = true ↔ k < (headers s.trace).length) ∧
      (s.headerFile.isOpen = true → host.openAppend q.headersFile k = true) ∧
      s.headerFile.content = shownText ((headers s.trace).drop k) := by
  have hkeeps : Preserves (Displayed (host.env q)) (main host conns opts) :=
    (sessions_displayed hset).main hload
  have hstart : Displayed (host.env q) (World.new net) := rfl
  have hrun := hkeeps.exec hstart
  rcases hexec : exec (main host conns opts) (World.new net) with ⟨result, s⟩
  rw [hexec] at hrun
  obtain ⟨k, hk⟩ := foldl_show (host.env q) (headers s.trace)
  rw [← hrun] at hk
  refine ⟨result, s, k, rfl, hk.failed, ⟨fun hopen => (hk.succeeded hopen).1, fun hlt => ?_⟩,
    fun hopen => (hk.succeeded hopen).2, hk.content⟩
  by_contra hclosed
  exact hlt.ne (hk.closed (Bool.eq_false_iff.mpr hclosed)).1

/-- The small rcfile with a file for the headers. -/
def showingRcfile : Rcfile :=
  { smallRcfile with commands := .showHeaders ⟨bytes "headers", by decide⟩ :: smallRcfile.commands }

/-- The file can be opened at the second attempt. -/
def showingHost : Host :=
  { smallHost with rcfiles := fun _ => some showingRcfile, openAppend := fun _ k => k = 1 }

def showingPrefs : Preferences :=
  ((showingRcfile.commands.foldlM (Command.apply showingHost.wordexp)
    { Preferences.new ⟨0, 0⟩ 0 with
      rcFile := bytes "/home/joe/.mailfilterrc" }).toOption.getD
        (Preferences.new ⟨0, 0⟩ 0)).compiledRules showingHost.regcomp

theorem showingPrefs_loads : Loads showingHost [] showingPrefs :=
  ⟨_, _, _, _, rfl, rfl, rfl, rfl, rfl, rfl, rfl⟩

theorem main_displays_showingHost :
    ∃ result s k, exec (main showingHost (fun _ => prepared) []) (World.new smallServer) = (result, s) ∧
      (∀ j < k, showingHost.openAppend showingPrefs.headersFile j = false) ∧
      (s.headerFile.isOpen = true ↔ k < (headers s.trace).length) ∧
      (s.headerFile.isOpen = true → showingHost.openAppend showingPrefs.headersFile k = true) ∧
      s.headerFile.content = shownText ((headers s.trace).drop k) :=
  main_displays showingPrefs_loads (by decide) (fun _ => prepared) smallServer

end Main

end Mailfilter
