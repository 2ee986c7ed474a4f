import Mailfilter.Keywords

/-!
# Account blocks

`PORT` stores the current account, which the commands before it have put together and which lives on
afterwards.

* `blocksOf`, the commands before each `PORT` of a sequence, back to the previous one;
* `Account.FromBlock`: all parts of an account were assigned by the commands of a block, and
  `Complete`: a block has a command for every part;
* `Assigned`, what a block without `PORT` makes of the current account, whatever that was before, and
  `Assigned.concat`, one command more;
* `load_accounts`: every account that is stored is from its own block just when that is complete.
-/

namespace Mailfilter

/-! ### Commands of a block -/

namespace Command

def serverArg : Command → Option Bytes
  | .server arg => some arg
  | _ => none

def userArg : Command → Option Bytes
  | .user arg => some arg
  | _ => none

def passArg : Command → Option Bytes
  | .pass arg => some arg
  | _ => none

def protocolArg : Command → Option Bytes
  | .protocol arg => some arg
  | _ => none

def isPort : Command → Bool
  | .port _ => true
  | _ => false

end Command

/-- The argument of the last command that is selected. -/
def lastArg (select : Command → Option Bytes) (block : List Command) : Option Bytes :=
  (block.filterMap select).getLast?

/-- The protocols that `set_protocol` knows, by their names. -/
def protocolNamed (prot : Bytes) : Option ℕ :=
  if cmpNoCase prot (bytes "POP3") = 0 then some protocolPop3
  else if cmpNoCase prot (bytes "APOP") = 0 then some protocolApop
  else if cmpNoCase prot (bytes "POP3/SSL") = 0 then some (protocolPop3 ||| sslC)
  else if cmpNoCase prot (bytes "APOP/SSL") = 0 then some (protocolApop ||| sslC)
  else none

/-- The protocol object and the connection come from the last `PROTOCOL` of the block: the object is
of the class that the name asks for, and both have a socket that was made after the first `sockets`
ones. -/
def Account.ProtoFrom (sockets : ℕ) (block : List Command) (a : Account) : Prop :=
  ∃ name prot sock, lastArg Command.protocolArg block = some name ∧
    protocolNamed name = some prot ∧ sockets ≤ sock ∧ a.conn = some sock ∧
    a.proto = ((a.setProtocol prot).setConnection sock).proto

/-- All parts of the account were assigned by the commands of the block, before which there were
`sockets` socket objects. -/
structure Account.FromBlock (sockets : ℕ) (block : List Command) (a : Account) : Prop where
  server : lastArg Command.serverArg block = some a.server
  usr : lastArg Command.userArg block = some a.usr
  passwd : lastArg Command.passArg block = some a.passwd
  proto : a.ProtoFrom sockets block

/-- The block has a command for every part of an account. -/
structure Complete (block : List Command) : Prop where
  server : ∃ arg, .server arg ∈ block
  user : ∃ arg, .user arg ∈ block
  pass : ∃ arg, .pass arg ∈ block
  protocol : ∃ arg, .protocol arg ∈ block

/-- The commands of a block, and the number of socket objects before it: each `PROTOCOL` makes one. -/
structure Block where
  sockets : ℕ
  commands : List Command

/-- The blocks of a sequence, of which the first one has begun already. -/
def blocksOf (b : Block) : List Command → List Block
  | [] => []
  | .port _ :: cs => b :: blocksOf ⟨b.sockets + b.commands.countP (·.protocolArg.isSome), []⟩ cs
  | c :: cs => blocksOf { b with commands := b.commands ++ [c] } cs

/-! ### The last argument -/

theorem lastArg_concat (select : Command → Option Bytes) (block : List Command) (c : Command) :
    lastArg select (block ++ [c]) = (select c).or (lastArg select block) := by
  unfold lastArg
  rw [List.filterMap_append]
  cases h : select c <;> simp [h]

theorem lastArg_isSome_iff {select : Command → Option Bytes} {block : List Command} :
    (lastArg select block).isSome ↔ ∃ c ∈ block, (select c).isSome := by
  unfold lastArg
  rw [List.getLast?_isSome, ne_eq, List.filterMap_eq_nil_iff]
  simp [Option.isSome_iff_ne_none]

/-- A block is complete if all the last arguments are there. -/
theorem complete_iff {block : List Command} : Complete block ↔
    (lastArg Command.serverArg block).isSome ∧ (lastArg Command.userArg block).isSome ∧
      (lastArg Command.passArg block).isSome ∧ (lastArg Command.protocolArg block).isSome := by
  have hserver : ∀ c : Command, c.serverArg.isSome ↔ ∃ arg, c = .server arg := fun c => by
    cases c <;> simp [Command.serverArg]
  have huser : ∀ c : Command, c.userArg.isSome ↔ ∃ arg, c = .user arg := fun c => by
    cases c <;> simp [Command.userArg]
  have hpass : ∀ c : Command, c.passArg.isSome ↔ ∃ arg, c = .pass arg := fun c => by
    cases c <;> simp [Command.passArg]
  have hprotocol : ∀ c : Command, c.protocolArg.isSome ↔ ∃ arg, c = .protocol arg := fun c => by
    cases c <;> simp [Command.protocolArg]
  simp only [lastArg_isSome_iff, hserver, huser, hpass, hprotocol]
  constructor
  · rintro ⟨⟨s, hs⟩, ⟨u, hu⟩, ⟨w, hw⟩, ⟨r, hr⟩⟩
    exact ⟨⟨_, hs, s, rfl⟩, ⟨_, hu, u, rfl⟩, ⟨_, hw, w, rfl⟩, ⟨_, hr, r, rfl⟩⟩
  · rintro ⟨⟨_, hs, s, rfl⟩, ⟨_, hu, u, rfl⟩, ⟨_, hw, w, rfl⟩, ⟨_, hr, r, rfl⟩⟩
    exact ⟨⟨s, hs⟩, ⟨u, hu⟩, ⟨w, hw⟩, ⟨r, hr⟩⟩

/-! ### The current account -/

/-- The current account, as far as the block has assigned its parts. -/
structure Assigned (b : Block) (p : Preferences) : Prop where
  server : ∀ arg, lastArg Command.serverArg b.commands = some arg → p.curAccount.server = arg
  usr : ∀ arg, lastArg Command.userArg b.commands = some arg → p.curAccount.usr = arg
  passwd : ∀ arg, lastArg Command.passArg b.commands = some arg → p.curAccount.passwd = arg
  proto : (lastArg Command.protocolArg b.commands).isSome →
    p.curAccount.ProtoFrom b.sockets b.commands
  sockets : p.sockets = b.sockets + b.commands.countP (·.protocolArg.isSome)

section Accounts

variable {wordexp : Bytes → Option (List Bytes)} {b : Block} {p q : Preferences}

/-- At the start of a block. -/
theorem Assigned.nil (p : Preferences) : Assigned ⟨p.sockets, []⟩ p :=
  { server := fun _ h => by cases h
    usr := fun _ h => by cases h
    passwd := fun _ h => by cases h
    proto := fun h => by cases h
    sockets := rfl }

/-- `PROTOCOL` makes an object of the class that its argument names, and a socket. -/
theorem apply_protocol {arg : Text} (hq : (Command.protocol arg).apply wordexp p = .ok q) :
    ∃ prot, protocolNamed arg = some prot ∧ q = { p with
      curAccount := (p.curAccount.setProtocol prot).setConnection p.sockets
      sockets := p.sockets + 1 } := by
  have happly : (Command.protocol arg).apply wordexp p =
      (p.setProtocol arg >>= fun p => pure p.setConnection) := rfl
  rw [happly] at hq
  unfold Preferences.setProtocol at hq
  unfold protocolNamed
  split_ifs at hq ⊢
  · cases hq
    exact ⟨_, rfl, rfl⟩
  · cases hq
    exact ⟨_, rfl, rfl⟩
  · cases hq
    exact ⟨_, rfl, rfl⟩
  · cases hq
    exact ⟨_, rfl, rfl⟩
  · cases hq

/-- A protocol object stays the block's own as long as neither it nor the last `PROTOCOL` changes. -/
theorem Account.ProtoFrom.congr {sockets : ℕ} {block block' : List Command} {a a' : Account}
    (h : a.ProtoFrom sockets block)
    (hlast : lastArg Command.protocolArg block' = lastArg Command.protocolArg block)
    (hconn : a'.conn = a.conn) (hproto : a'.proto = a.proto) : a'.ProtoFrom sockets block' := by
  obtain ⟨name, prot, sock, hname, hprot, hle, hsock, hobject⟩ := h
  exact ⟨name, prot, sock, hlast.trans hname, hprot, hle, hconn.trans hsock, hproto.trans hobject⟩

/-- A command that is none of the account's leaves the current account alone. -/
theorem curAccount_apply {c : Command} (hc : .account ≠ c.keyword)
    (hq : c.apply wordexp p = .ok q) :
    q.curAccount = p.curAccount ∧ q.accounts = p.accounts ∧ q.sockets = p.sockets := by
  have hpart := Command.getPart_apply hc hq
  exact ⟨congrArg (·.1) hpart, congrArg (·.2.1) hpart, congrArg (·.2.2) hpart⟩

/-- A command without a protocol at the end of the block, which assigns its own argument or nothing. -/
theorem Assigned.concat_part {c : Command} (h : Assigned b p) (hprotocol : c.protocolArg = none)
    (hsockets : q.sockets = p.sockets) (hconn : q.curAccount.conn = p.curAccount.conn)
    (hproto : q.curAccount.proto = p.curAccount.proto)
    (hserver : ∀ arg, c.serverArg.or (lastArg Command.serverArg b.commands) = some arg →
      q.curAccount.server = arg)
    (huser : ∀ arg, c.userArg.or (lastArg Command.userArg b.commands) = some arg →
      q.curAccount.usr = arg)
    (hpass : ∀ arg, c.passArg.or (lastArg Command.passArg b.commands) = some arg →
      q.curAccount.passwd = arg) :
    Assigned { b with commands := b.commands ++ [c] } q := by
  have hlast : lastArg Command.protocolArg (b.commands ++ [c]) =
      lastArg Command.protocolArg b.commands := by
    rw [lastArg_concat, hprotocol, Option.none_or]
  constructor
  · rwa [lastArg_concat]
  · rwa [lastArg_concat]
  · rwa [lastArg_concat]
  · rw [hlast]
    exact fun hsome => (h.proto hsome).congr hlast hconn hproto
  · rw [hsockets, h.sockets]
    simp [hprotocol]

/-- One command more in the block. -/
theorem Assigned.concat {c : Command} (h : Assigned b p) (hc : c.isPort = false)
    (hq : c.apply wordexp p = .ok q) :
    Assigned { b with commands := b.commands ++ [c] } q ∧ q.accounts = p.accounts := by
  have hsockets : b.sockets ≤ p.sockets := h.sockets ▸ Nat.le_add_right ..
  by_cases hkey : .account = c.keyword
  · cases c with
    | server arg =>
      cases hq
      exact ⟨h.concat_part rfl rfl rfl rfl (fun _ => Option.some.inj) h.usr h.passwd, rfl⟩
    | user arg =>
      cases hq
      exact ⟨h.concat_part rfl rfl rfl rfl h.server (fun _ => Option.some.inj) h.passwd, rfl⟩
    | pass arg =>
      cases hq
      exact ⟨h.concat_part rfl rfl rfl rfl h.server h.usr (fun _ => Option.some.inj), rfl⟩
    | protocol arg =>
      obtain ⟨prot, hprot, rfl⟩ := apply_protocol hq
      refine ⟨?_, rfl⟩
      constructor
      · rw [lastArg_concat]
        exact h.server
      · rw [lastArg_concat]
        exact h.usr
      · rw [lastArg_concat]
        exact h.passwd
      · exact fun _ => ⟨arg, prot, p.sockets, lastArg_concat .., hprot, hsockets, rfl, rfl⟩
      · simp [Command.protocolArg, h.sockets, Nat.add_assoc]
    | port arg => exact absurd hc (by simp [Command.isPort])
    | _ => exact absurd hkey (by simp [Command.keyword])
  · obtain ⟨hcur, haccounts, hsock⟩ := curAccount_apply hkey hq
    obtain ⟨hserver, huser, hpass, hprotocol⟩ : c.serverArg = none ∧ c.userArg = none ∧
        c.passArg = none ∧ c.protocolArg = none := by
      cases c <;> first | exact absurd rfl hkey | exact ⟨rfl, rfl, rfl, rfl⟩
    refine ⟨h.concat_part hprotocol hsock (by rw [hcur]) (by rw [hcur]) ?_ ?_ ?_, haccounts⟩
    · rw [hserver, hcur]
      exact h.server
    · rw [huser, hcur]
      exact h.usr
    · rw [hpass, hcur]
      exact h.passwd

/-- The account that `PORT` stores at the end of a block. -/
theorem Assigned.fromBlock_iff (h : Assigned b p) (port : ℤ) :
    Account.FromBlock b.sockets b.commands { p.curAccount with port := port } ↔
      Complete b.commands := by
  rw [complete_iff]
  constructor
  · intro hfrom
    obtain ⟨name, -, -, hname, -⟩ := hfrom.proto
    rw [hfrom.server, hfrom.usr, hfrom.passwd, hname]
    exact ⟨rfl, rfl, rfl, rfl⟩
  · rintro ⟨hserver, husr, hpasswd, hproto⟩
    obtain ⟨server, hserver⟩ := Option.isSome_iff_exists.1 hserver
    obtain ⟨usr, husr⟩ := Option.isSome_iff_exists.1 husr
    obtain ⟨passwd, hpasswd⟩ := Option.isSome_iff_exists.1 hpasswd
    constructor
    · rw [hserver, h.server server hserver]
    · rw [husr, h.usr usr husr]
    · rw [hpasswd, h.passwd passwd hpasswd]
    · exact (h.proto hproto).congr rfl rfl rfl

/-! ### Whole sequences -/

theorem accounts_of_assigned (cs : List Command) (h : Assigned b p)
    (hq : cs.foldlM (Command.apply wordexp) p = .ok q) :
    ∃ stored, q.accounts = p.accounts ++ stored ∧
      List.Forall₂ (fun b a => Account.FromBlock b.sockets b.commands a ↔ Complete b.commands)
        (blocksOf b cs) stored := by
  induction cs generalizing b p with
  | nil =>
    cases hq
    exact ⟨[], (List.append_nil _).symm, .nil⟩
  | cons c cs ih =>
    rw [List.foldlM_cons] at hq
    rcases hp' : c.apply wordexp p with e | p'
    · rw [hp'] at hq
      cases hq
    · rw [hp'] at hq
      cases hc : c.isPort with
      | false =>
        obtain ⟨h', haccounts⟩ := h.concat hc hp'
        obtain ⟨stored, hstored, hblocks⟩ := ih h' hq
        refine ⟨stored, hstored.trans (by rw [haccounts]), ?_⟩
        cases c with
        | port arg => exact absurd hc (by simp [Command.isPort])
        | _ => exact hblocks
      | true =>
        cases c with
        | port arg =>
          cases hp'
          have hnew := Assigned.nil (p.setPort arg.toUInt32.toNat)
          have hsockets : (p.setPort arg.toUInt32.toNat).sockets =
              b.sockets + b.commands.countP (·.protocolArg.isSome) := h.sockets
          rw [hsockets] at hnew
          obtain ⟨stored, hstored, hblocks⟩ := ih hnew hq
          refine ⟨{ p.curAccount with port := arg.toUInt32.toNat } :: stored, ?_,
            .cons (h.fromBlock_iff _) hblocks⟩
          rw [hstored]
          exact List.append_assoc ..
        | _ => exact absurd hc (by simp [Command.isPort])

/-- **Account blocks.** A sequence of commands that is accepted stores one account for each of its
`PORT`s, and all parts of an account were assigned in its own block just when the block has a command
for every part. -/
theorem load_accounts (wordexp : Bytes → Option (List Bytes)) (cs : List Command)
    (p q : Preferences) (hq : Rcfile.load wordexp ⟨cs, none⟩ p = .ok q) :
    ∃ stored, q.accounts = p.accounts ++ stored ∧
      List.Forall₂ (fun b a => Account.FromBlock b.sockets b.commands a ↔ Complete b.commands)
        (blocksOf ⟨p.sockets, []⟩ cs) stored :=
  accounts_of_assigned cs (Assigned.nil p) (by rwa [load_none] at hq)

/-- The second account of an rcfile without a second `PASS` gets the first one's password. -/
theorem second_password : ¬∀ (cs : List Command) (q : Preferences),
    Rcfile.load (fun _ => none) ⟨cs, none⟩ (Preferences.new ⟨0, 0⟩ 0) = .ok q →
    List.Forall₂ (fun b a => Account.FromBlock b.sockets b.commands a) (blocksOf ⟨0, []⟩ cs)
      q.accounts := by
  intro h
  have hstored := h [.server ⟨bytes "one", by decide⟩, .user ⟨bytes "u", by decide⟩,
    .pass ⟨bytes "secret", by decide⟩, .protocol ⟨bytes "pop3", by decide⟩, .port 110,
    .server ⟨bytes "two", by decide⟩, .user ⟨bytes "u", by decide⟩,
    .protocol ⟨bytes "pop3", by decide⟩, .port 110] _ rfl
  obtain - | ⟨-, hstored⟩ := hstored
  obtain - | ⟨hsecond, -⟩ := hstored
  cases hsecond.passwd

/-- An rcfile with one complete block. -/
theorem load_accounts_complete : ∃ a : Account,
    Account.FromBlock 0 [.server ⟨bytes "one", by decide⟩, .user ⟨bytes "u", by decide⟩,
      .pass ⟨bytes "secret", by decide⟩, .protocol ⟨bytes "pop3", by decide⟩] a := by
  obtain ⟨stored, -, hblocks⟩ := load_accounts (fun _ => none)
    [.server ⟨bytes "one", by decide⟩, .user ⟨bytes "u", by decide⟩,
      .pass ⟨bytes "secret", by decide⟩, .protocol ⟨bytes "pop3", by decide⟩, .port 110]
    (Preferences.new ⟨0, 0⟩ 0) _ rfl
  obtain - | ⟨hfirst, -⟩ := hblocks
  exact ⟨_, hfirst.2 ⟨⟨_, .head _⟩, ⟨_, .tail _ (.head _)⟩, ⟨_, .tail _ (.tail _ (.head _))⟩,
    ⟨_, .tail _ (.tail _ (.tail _ (.head _)))⟩⟩⟩

end Accounts

end Mailfilter
