import AxiomCarriers.Fatmama.Routes
import AxiomCarriers.Lib.Utf8

/-!
# The SMTP connections of FATMAMA

`_handle_client` reads commands and messages from the bytes that a client sends until it closes its
side; the connection can be lost before.  Other connections change the routes and files of the
server in between.

`answered_stored` shows what the 250 after a message says when one recipient was accepted: the whole
message is in its mailbox, unless it has none.
-/

namespace Fatmama

open Bytes Runs

/-! ## Reading -/

inductive Until
  | found (before rest : Bytes)
  /-- The client has closed its side before. -/
  | incomplete (bytes : Bytes)
  /-- More bytes than the limit. -/
  | overrun

def streamLimit : ℕ := 8 * 1024 * 1024

/-- `StreamReader.readuntil`. -/
def readuntil (sep input : Bytes) : Until :=
  match cut sep input with
  | some (before, rest) => if before.length ≤ streamLimit then .found before rest else .overrun
  | none => if input.length + 1 ≤ streamLimit + sep.length then .incomplete input else .overrun

/-- `StreamReader.readline`, with what is left to read; `none` when the line is too long. -/
def readline (input : Bytes) : Option (Bytes × Bytes) :=
  match readuntil [LF] input with
  | .found before rest => some (before ++ [LF], rest)
  | .incomplete bytes => some (bytes, [])
  | .overrun => none

def terminator : Bytes := ascii "\r\n.\r\n"

/-- The fallback for a message above the limit: chunks until one brings the terminator.  What the
last chunk has behind it is lost. -/
def readChunks (overread : ℕ) (input : Bytes) : Bytes × Bytes :=
  match cut terminator input with
  | some (before, rest) => (before, rest.drop overread)
  | none => (input, [])

/-- The message data, and what is left to read. -/
def readData (overread : ℕ) (input : Bytes) : Bytes × Bytes :=
  match readuntil terminator input with
  | .found before rest => (before, rest)
  | .incomplete bytes => (bytes, [])
  | .overrun => readChunks overread input

def unstuff (data : Bytes) : Bytes :=
  crlf.intercalate ((splitCrlf data).map fun l => if ascii ".." <+: l then l.tail else l)

/-- The message that the client sends: it ends at a line that is a single dot. -/
def sentMessage (input : Bytes) : Option Bytes :=
  if ascii ".\r\n" <+: input then some []
  else (cut terminator input).map fun p => unstuff p.1

/-! ## Commands -/

/-- What the server is started with: the modes, and `my_domains` for the routes. -/
structure SmtpConfig extends Config where
  hostname : Bytes
  production : Bool
  auto : Bool
  mine : List (Address × Path) → List Bytes

/-- What becomes of a new mailbox: its directory and the routes file are written, or not. -/
inductive Disk
  | ok
  | noMkdir
  | noPersist
  deriving DecidableEq

/-- What the surroundings decide during a command: whether the connection is lost while message data
is read, how far the fallback reads behind it, what becomes of files, the name of the message and
the text of an error. -/
structure Env where
  lost : Bool
  overread : ℕ
  disk : Disk
  written : Bool
  name : Bytes
  error : Bytes
  deriving DecidableEq

/-- The end of a DATA that is answered 250: the message sent, the mailbox of every recipient that
was answered 250 since the last MAIL or RSET, and what was stored in which mailbox. -/
structure Receipt where
  sent : Option Bytes
  accepted : List (Option Path)
  stored : List (Path × Bytes)
  deriving DecidableEq

/-- A connection: what the client has sent and is not read yet, `rcpt_to` and `mail_from`, empty for
none, and the answers; the recipients answered 250 since the last MAIL or RSET, and the receipts. -/
structure Connection where
  server : State
  alive : Bool
  input : Bytes
  rcptTo : Address
  mailFrom : Address
  out : List Bytes
  accepted : List Address
  log : List Receipt
  deriving DecidableEq

/-- A connection that has been greeted. -/
def connected (c : SmtpConfig) (server : State) (input : Bytes) : Connection :=
  ⟨server, true, input, [], [], [ascii "220 " ++ c.hostname ++ ascii " FATMAMA\r\n"], [], []⟩

/-- The text between the first angle brackets. -/
def angled (cmd : Bytes) : Option Bytes :=
  match cmd.idxOf? 60, cmd.idxOf? 62 with
  | some i, some j => if i < j then some ((cmd.take j).drop (i + 1)) else none
  | _, _ => none

/-- The address of RCPT, without `unwrap_delivery_address`. -/
def rcptAddress (py : Str) (rcptTo : Address) (cmd : Bytes) : Address :=
  match angled cmd with
  | some a => py.norm a
  | none =>
    if 58 ∈ cmd then
      py.lower (stripChars (ascii "<>") (py.strip (cmd.dropWhile (· ≠ 58)).tail))
    else rcptTo

/-- `_register_route` where the disk can fail: whether it returns, and the state. -/
def registerRouteOn (c : Config) (disk : Disk) (s : State) (email : Address) : Bool × State :=
  match registerRoute c s email with
  | none => (false, s)
  | some s' =>
    if s' = s then (true, s)
    else match disk with
      | .ok => (true, s')
      | .noMkdir => (false, s)
      | .noPersist => (false, s')

def Connection.reply (s : Connection) (answer : Bytes) : Connection :=
  { s with out := s.out ++ [answer] }

/-- The answer after a registration that has returned: an address that was added is logged with its
route, which is not found under a name with blanks around it. -/
def registerAnswer (env : Env) (before added : State) (raw : Bytes) : Bytes :=
  if added ≠ before ∧ Table.get added.routes raw = none then
    ascii "451 register failed: " ++ env.error ++ crlf
  else ascii "250 OK " ++ raw ++ ascii " registered\r\n"

def handleRegister (c : SmtpConfig) (env : Env) (s : Connection) (arg : Bytes) : Connection :=
  let raw := registerAddress c.toConfig arg
  if c.production then
    s.reply (ascii "502 5.5.1 XAXIOM-REGISTER not enabled in production mode\r\n")
  else if 64 ∉ raw ∨ raw.head? = some 64 ∨ raw.getLast? = some 64 then
    s.reply (ascii "501 syntax error: XAXIOM-REGISTER <email>\r\n")
  else if ¬ isClusterRecipient c.py c.domains raw then
    s.reply (ascii "550 5.7.1 cluster domain only (@axiom / @axiom.internal)\r\n")
  else match registerRouteOn c.toConfig env.disk s.server raw with
    | (true, server) =>
      { s with server := markRegistered c.toConfig server raw }.reply
        (registerAnswer env s.server server raw)
    | (false, server) =>
      { s with server := server }.reply (ascii "451 register failed: " ++ env.error ++ crlf)

def handleRcpt (c : SmtpConfig) (s : Connection) (cmd : Bytes) : Connection :=
  let addr := rcptAddress c.py s.rcptTo cmd
  let unwrapped :=
    if addr ≠ [] ∧ ¬ isClusterRecipient c.py c.domains addr then
      unwrapDeliveryAddress c.py c.domains (c.mine s.server.routes) addr
    else []
  let rcptTo := if unwrapped ≠ [] then unwrapped else addr
  if rcptTo ≠ [] ∧ ¬ isClusterRecipient c.py c.domains rcptTo then
    { s with rcptTo := [] }.reply
      (ascii "550 5.7.1 recipient not in cluster domain (@axiom / @axiom.internal only)\r\n")
  else
    Connection.reply { s with
      rcptTo := rcptTo
      accepted := if rcptTo = [] then s.accepted else s.accepted ++ [rcptTo] } (ascii "250 OK\r\n")

/-- The server after the auto-creation that precedes a delivery. -/
def prepare (c : SmtpConfig) (env : Env) (s : Connection) : State :=
  if c.auto ∧ s.rcptTo ≠ [] ∧ Table.get s.server.routes s.rcptTo = none then
    match registerRouteOn c.toConfig env.disk s.server s.rcptTo with
    | (true, server) => markAuto c.toConfig server s.rcptTo
    | (false, server) => server
  else s.server

def mailboxOf (server : State) (rcptTo : Address) : Option Path :=
  if rcptTo = [] then none else Table.get server.routes rcptTo

/-- A message is put into the maildirs under its name. -/
def addMail (name : Bytes) (stored : List (Path × Bytes)) (files : List (Path × Bytes)) :
    List (Path × Bytes) :=
  stored.foldl (fun files x => Table.put files (x.1 ++ [ascii "new", name]) x.2) files

/-- What `deliver_to_maildir` stores for the recipient. -/
def deliver (env : Env) (server : State) (rcptTo : Address) (message : Bytes) :
    List (Path × Bytes) :=
  match mailboxOf server rcptTo with
  | some maildir => if env.written then [(maildir, message)] else []
  | none => []

def handleData (c : SmtpConfig) (env : Env) (s : Connection) : Connection :=
  let s := s.reply (ascii "354 Go\r\n")
  if env.lost then { s with alive := false }
  else
    let (data, rest) := readData env.overread s.input
    let server := prepare c env s
    let stored := deliver env server s.rcptTo (unstuff data)
    let receipt := ⟨sentMessage s.input, s.accepted.map (mailboxOf server), stored⟩
    Connection.reply { s with
      server := { server with files := addMail env.name stored server.files }
      input := rest
      rcptTo := []
      log := s.log ++ [receipt] } (ascii "250 OK\r\n")

def verb (py : Str) (cmd : Bytes) : Bytes := (py.split cmd).headD []

/-- One command of the client. -/
def handle (c : SmtpConfig) (env : Env) (s : Connection) (cmd : Bytes) : Connection :=
  let upper := c.py.upper (verb c.py cmd)
  if upper = ascii "EHLO" then
    (s.reply (ascii "250-" ++ c.hostname ++ crlf)).reply (ascii "250 XAXIOM-FATMAMA\r\n")
  else if upper = ascii "HELO" then s.reply (ascii "250 " ++ c.hostname ++ crlf)
  else if upper = ascii "XAXIOM-REGISTER" then
    handleRegister c env s (cmd.drop (verb c.py cmd).length)
  else if upper = ascii "MAIL" then
    { s with mailFrom := (angled cmd).elim [] c.py.norm, accepted := [] }.reply
      (ascii "250 OK\r\n")
  else if upper = ascii "RCPT" then handleRcpt c s cmd
  else if upper = ascii "DATA" then handleData c env s
  else if upper = ascii "QUIT" then { s with alive := false }.reply (ascii "221 Bye\r\n")
  else if upper = ascii "NOOP" then s.reply (ascii "250 OK\r\n")
  else if upper = ascii "RSET" then { s with accepted := [] }.reply (ascii "250 OK\r\n")
  else s.reply (ascii "250 OK\r\n")

inductive SmtpEvent
  /-- The next command is read and answered. -/
  | command (env : Env)
  /-- The connection is lost: a reset, a timeout. -/
  | lose
  /-- Others have changed the routes and files. -/
  | others (server : State)
  deriving DecidableEq

/-- The next command, and what is left to read; `none` at the end of the stream or for a line that
is too long. -/
def nextCommand (py : Str) (input : Bytes) : Option (Bytes × Bytes) :=
  match readline input with
  | some (line, rest) => if line = [] then none else some (py.strip (Utf8.lossy line), rest)
  | none => none

def smtpStep (c : SmtpConfig) (s : Connection) : SmtpEvent → Option Connection
  | .command env =>
    if ¬ s.alive then none
    else match nextCommand c.py s.input with
      | none => some { s with alive := false }
      | some (cmd, rest) =>
        let s := { s with input := rest }
        if cmd = [] then some s else some (handle c env s cmd)
  | .lose => some { s with alive := false }
  | .others server => some { s with server := server }

/-! ## What 250 means -/

/-- The whole message was stored once in every mailbox of the recipients and in no other. -/
def Receipt.Kept (r : Receipt) : Prop :=
  ∃ m, r.sent = some m ∧ r.stored.Nodup ∧ ∀ x, x ∈ r.stored ↔ x.2 = m ∧ some x.1 ∈ r.accepted

/-- Moreover every recipient has a mailbox. -/
def Receipt.KeptForAll (r : Receipt) : Prop := none ∉ r.accepted ∧ r.Kept

/-- A message whose end the server sees, for the one recipient accepted since the last MAIL or RSET,
or for none, whose delivery does not fail. -/
def RegularData (c : SmtpConfig) (env : Env) (s : Connection) : Prop :=
  (cut terminator s.input).isSome ∧ ¬ ascii ".\r\n" <+: s.input ∧
    (∀ a ∈ s.accepted, a = s.rcptTo) ∧ (s.rcptTo ≠ [] → s.rcptTo ∈ s.accepted) ∧
    (mailboxOf (prepare c env s) s.rcptTo ≠ none → env.written)

/-- Message data that is read to its end is regular. -/
def Regular (c : SmtpConfig) (s : Connection) : SmtpEvent → Prop
  | .command env => ∀ x ∈ nextCommand c.py s.input,
      c.py.upper (verb c.py x.1) = ascii "DATA" → ¬ env.lost →
        RegularData c env { s with input := x.2 }
  | _ => True

instance (c : SmtpConfig) (env : Env) (s : Connection) : Decidable (RegularData c env s) := by
  unfold RegularData
  infer_instance

instance (c : SmtpConfig) (s : Connection) (e : SmtpEvent) : Decidable (Regular c s e) := by
  unfold Regular
  split <;> infer_instance

/-- The data before the end of the message, on whichever path it is read. -/
theorem readData_of_cut {input before rest : Bytes} (h : cut terminator input = some (before, rest))
    (overread : ℕ) : (readData overread input).1 = before := by
  simp only [readData, readuntil, h]
  by_cases hl : before.length ≤ streamLimit
  · rw [if_pos hl]
  · rw [if_neg hl, readChunks, h]

/-- What the server stores for a DATA. -/
def dataStored (c : SmtpConfig) (env : Env) (s : Connection) : List (Path × Bytes) :=
  deliver env (prepare c env s) s.rcptTo (unstuff (readData env.overread s.input).1)

def dataReceipt (c : SmtpConfig) (env : Env) (s : Connection) : Receipt :=
  ⟨sentMessage s.input, s.accepted.map (mailboxOf (prepare c env s)), dataStored c env s⟩

theorem kept_of_regular {c : SmtpConfig} {env : Env} {s : Connection} (h : RegularData c env s) :
    (dataReceipt c env s).Kept := by
  obtain ⟨hcut, hdot, hall, hmem, hwritten⟩ := h
  obtain ⟨⟨before, rest⟩, hcut⟩ := Option.isSome_iff_exists.1 hcut
  refine ⟨unstuff before, by rw [dataReceipt, sentMessage, if_neg hdot, hcut, Option.map_some], ?_⟩
  rw [dataReceipt, dataStored, readData_of_cut hcut]
  cases hbox : mailboxOf (prepare c env s) s.rcptTo with
  | none =>
    have hnone : ∀ p, some p ∉ s.accepted.map (mailboxOf (prepare c env s)) := fun p hp => by
      obtain ⟨a, ha, hp⟩ := List.mem_map.1 hp
      rw [hall a ha, hbox] at hp
      exact Option.some_ne_none p hp.symm
    simp [deliver, hbox, hnone]
  | some p =>
    have hne : s.rcptTo ≠ [] := fun h => by simp [mailboxOf, h] at hbox
    have hacc : ∀ q, some q ∈ s.accepted.map (mailboxOf (prepare c env s)) ↔ q = p := fun q => by
      refine ⟨fun hq => ?_, fun hq => List.mem_map.2 ⟨s.rcptTo, hmem hne, by rw [hbox, hq]⟩⟩
      obtain ⟨a, ha, hq⟩ := List.mem_map.1 hq
      rw [hall a ha, hbox] at hq
      exact (Option.some.inj hq).symm
    have hw : env.written := hwritten (by rw [hbox]; exact Option.some_ne_none p)
    simp [deliver, hbox, hw, hacc, Prod.ext_iff, and_comm]

/-! ## What the commands store -/

theorem registerRouteOn_files (c : Config) (disk : Disk) (s : State) (email : Address) :
    (registerRouteOn c disk s email).2.files = s.files := by
  unfold registerRouteOn
  cases h : registerRoute c s email with
  | none => rfl
  | some s' =>
    have hfiles : s'.files = s.files := by
      rcases registerRoute_cases h with rfl | ⟨-, -, rfl⟩ <;> rfl
    by_cases he : s' = s
    · simp [he]
    · cases disk <;> simp [he, hfiles]

theorem sameMail_prepare (c : SmtpConfig) (env : Env) (s : Connection) :
    SameMail s.server.files (prepare c env s).files := by
  unfold prepare
  split_ifs
  · have hfiles := registerRouteOn_files c.toConfig env.disk s.server s.rcptTo
    rcases hr : registerRouteOn c.toConfig env.disk s.server s.rcptTo with ⟨ok, server⟩
    rw [hr] at hfiles
    cases ok with
    | true => exact hfiles ▸ sameMail_markAuto c.toConfig server s.rcptTo
    | false => exact hfiles ▸ SameMail.refl server.files
  · exact SameMail.refl s.server.files

/-- Where the disk does not fail, the commands do to the server what its operations do. -/
theorem registerRouteOn_ok (c : Config) (s : State) (email : Address) :
    registerRouteOn c .ok s email =
      ((registerRoute c s email).isSome, (registerRoute c s email).getD s) := by
  unfold registerRouteOn
  cases registerRoute c s email with
  | none => rfl
  | some s' => by_cases h : s' = s <;> simp [h]

theorem handleRegister_server {c : SmtpConfig} (hc : ¬ c.production) {env : Env}
    (henv : env.disk = .ok) (s : Connection) (arg : Bytes) :
    (handleRegister c env s arg).server = register c.toConfig s.server arg := by
  simp only [handleRegister, register, if_neg hc, henv, registerRouteOn_ok]
  split_ifs
  · rfl
  · cases registerRoute c.toConfig s.server (registerAddress c.toConfig arg) <;> rfl
  · rfl

theorem prepare_server {c : SmtpConfig} {env : Env} (henv : env.disk = .ok) (s : Connection) :
    prepare c env s =
      if c.auto ∧ s.rcptTo ≠ [] ∧ Table.get s.server.routes s.rcptTo = none then
        autoCreate c.toConfig s.server s.rcptTo
      else s.server := by
  simp only [prepare, autoCreate, henv, registerRouteOn_ok]
  cases registerRoute c.toConfig s.server s.rcptTo <;> rfl

/-- Nothing is stored, and no message is answered. -/
def Quiet (s t : Connection) : Prop := t.log = s.log ∧ SameMail s.server.files t.server.files

theorem Quiet.refl (s : Connection) : Quiet s s := ⟨rfl, SameMail.refl s.server.files⟩

theorem quiet_handleRegister (c : SmtpConfig) (env : Env) (s : Connection) (arg : Bytes) :
    Quiet s (handleRegister c env s arg) := by
  have hrefl := SameMail.refl s.server.files
  have hfiles := registerRouteOn_files c.toConfig env.disk s.server
    (registerAddress c.toConfig arg)
  unfold handleRegister
  refine iteInduction (fun _ => ⟨rfl, hrefl⟩) fun _ => ?_
  refine iteInduction (fun _ => ⟨rfl, hrefl⟩) fun _ => ?_
  refine iteInduction (fun _ => ⟨rfl, hrefl⟩) fun _ => ?_
  rcases hr : registerRouteOn c.toConfig env.disk s.server (registerAddress c.toConfig arg)
    with ⟨ok, server⟩
  rw [hr] at hfiles
  cases ok with
  | true => exact ⟨rfl, hfiles ▸ sameMail_markRegistered c.toConfig server _⟩
  | false => exact ⟨rfl, hfiles ▸ SameMail.refl server.files⟩

theorem quiet_handleRcpt (c : SmtpConfig) (s : Connection) (cmd : Bytes) :
    Quiet s (handleRcpt c s cmd) := by
  have hrefl := SameMail.refl s.server.files
  unfold handleRcpt
  exact iteInduction (fun _ => ⟨rfl, hrefl⟩) fun _ => ⟨rfl, hrefl⟩

theorem SameMail.addMail {files files' : List (Path × Bytes)} (h : SameMail files files')
    (name : Bytes) (stored : List (Path × Bytes)) :
    SameMail (addMail name stored files) (addMail name stored files') := by
  induction stored generalizing files files' with
  | nil => exact h
  | cons x stored ih =>
    refine ih fun q f hf => ?_
    beta_reduce
    by_cases hx : x.1 ++ [ascii "new", name] = f
    · rw [hx, Table.get_put_self, Table.get_put_self]
    · rw [Table.get_put_of_ne hx, Table.get_put_of_ne hx, h q f hf]

theorem handleData_read (c : SmtpConfig) {env : Env} (s : Connection) (hlost : ¬ env.lost) :
    (handleData c env s).log = s.log ++ [dataReceipt c env s] ∧
      (handleData c env s).server.files =
        addMail env.name (dataStored c env s) (prepare c env s).files := by
  simp only [handleData, if_neg hlost]
  exact ⟨rfl, rfl⟩

/-- Only DATA stores and answers messages. -/
theorem quiet_handle {c : SmtpConfig} {cmd : Bytes}
    (hcmd : c.py.upper (verb c.py cmd) ≠ ascii "DATA") (env : Env) (s : Connection) :
    Quiet s (handle c env s cmd) := by
  have hrefl := SameMail.refl s.server.files
  unfold handle
  refine iteInduction (fun _ => ⟨rfl, hrefl⟩) fun _ => ?_
  refine iteInduction (fun _ => ⟨rfl, hrefl⟩) fun _ => ?_
  refine iteInduction (fun _ => quiet_handleRegister c env s _) fun _ => ?_
  refine iteInduction (fun _ => ⟨rfl, hrefl⟩) fun _ => ?_
  refine iteInduction (fun _ => quiet_handleRcpt c s cmd) fun _ => ?_
  refine iteInduction (fun h => absurd h hcmd) fun _ => ?_
  refine iteInduction (fun _ => ⟨rfl, hrefl⟩) fun _ => ?_
  refine iteInduction (fun _ => ⟨rfl, hrefl⟩) fun _ => ?_
  exact iteInduction (fun _ => ⟨rfl, hrefl⟩) fun _ => ⟨rfl, hrefl⟩

theorem handle_data {c : SmtpConfig} {cmd : Bytes}
    (hcmd : c.py.upper (verb c.py cmd) = ascii "DATA") (env : Env) (s : Connection) :
    handle c env s cmd = handleData c env s := by
  have h : ∀ w ∈ [ascii "EHLO", ascii "HELO", ascii "XAXIOM-REGISTER", ascii "MAIL",
      ascii "RCPT"], ascii "DATA" ≠ w := by decide +kernel
  simp only [List.forall_mem_cons] at h
  obtain ⟨h₁, h₂, h₃, h₄, h₅, -⟩ := h
  simp only [handle, hcmd, if_neg h₁, if_neg h₂, if_neg h₃, if_neg h₄, if_neg h₅, if_true]

/-! ## Runs -/

/-- What a step adds to the receipts, a command adds to the mail. -/
def Adds (s t : Connection) (e : SmtpEvent) (new : List Receipt) : Prop :=
  t.log = s.log ++ new ∧ ∀ env, e = .command env →
    SameMail (addMail env.name (new.flatMap (·.stored)) s.server.files) t.server.files

theorem Quiet.adds {s t : Connection} (h : Quiet s t) (e : SmtpEvent) : Adds s t e [] :=
  ⟨by rw [h.1, List.append_nil], fun _ _ => h.2⟩

theorem smtpStep_adds {c : SmtpConfig} {s t : Connection} {e : SmtpEvent}
    (h : smtpStep c s e = some t) :
    ∃ new, Adds s t e new ∧ (Regular c s e → ∀ r ∈ new, r.Kept) := by
  have quiet : ∀ t, Quiet s t → ∃ new, Adds s t e new ∧ (Regular c s e → ∀ r ∈ new, r.Kept) :=
    fun t ht => ⟨[], ht.adds e, fun _ r hr => absurd hr List.not_mem_nil⟩
  cases e with
  | command env =>
    simp only [smtpStep] at h
    split_ifs at h
    cases hc : nextCommand c.py s.input with
    | none =>
      simp only [hc] at h
      obtain rfl := Option.some.inj h
      exact quiet _ (Quiet.refl s)
    | some p =>
      obtain ⟨cmd, rest⟩ := p
      simp only [hc] at h
      split_ifs at h <;> obtain rfl := Option.some.inj h
      · exact quiet _ (Quiet.refl s)
      · by_cases hcmd : c.py.upper (verb c.py cmd) = ascii "DATA"
        · rw [handle_data hcmd]
          by_cases hlost : env.lost
          · rw [handleData, if_pos hlost]
            exact quiet _ (Quiet.refl s)
          · obtain ⟨hlog, hfiles⟩ := handleData_read c { s with input := rest } hlost
            refine ⟨[dataReceipt c env { s with input := rest }], ⟨hlog, fun env' he => ?_⟩,
              fun hreg r hr => ?_⟩
            · obtain rfl := SmtpEvent.command.inj he
              rw [hfiles, List.flatMap_singleton]
              exact (sameMail_prepare c env { s with input := rest }).addMail env.name _
            · rw [List.mem_singleton.1 hr]
              exact kept_of_regular (hreg (cmd, rest) hc hcmd hlost)
        · exact quiet _ (quiet_handle hcmd env { s with input := rest })
  | lose =>
    obtain rfl := Option.some.inj h
    exact quiet _ (Quiet.refl s)
  | others server =>
    obtain rfl := Option.some.inj h
    exact ⟨[], ⟨(List.append_nil _).symm, fun env he => by simp at he⟩,
      fun _ r hr => absurd hr List.not_mem_nil⟩

/-- In every run of a connection in which message data that is read to its end is regular, every
message answered 250 is stored once in the mailbox of every recipient that has one, and in no other;
and a command stores nothing but what it answers so. -/
theorem answered_stored {c : SmtpConfig} {server : State} {input : Bytes} {es : List SmtpEvent}
    {t : Connection} (hC : Along (smtpStep c) (Regular c) (connected c server input) es)
    (h : run (smtpStep c) (connected c server input) es = some t) :
    (∀ r ∈ t.log, r.Kept) ∧ ∀ e u, smtpStep c t e = some u → ∃ new, Adds t u e new := by
  have hstep : ∀ s e t, (∀ r ∈ s.log, r.Kept) → Regular c s e → smtpStep c s e = some t →
      ∀ r ∈ t.log, r.Kept := by
    intro s e t hi hC h r hr
    obtain ⟨new, hadds, hkept⟩ := smtpStep_adds h
    rcases List.mem_append.1 (hadds.1 ▸ hr) with hr | hr
    · exact hi r hr
    · exact hkept hC r hr
  have hstart : ∀ r ∈ (connected c server input).log, r.Kept := fun r hr =>
    absurd hr List.not_mem_nil
  exact ⟨run_invariant hstep hstart hC h, fun e u hu => (smtpStep_adds hu).imp fun _ h => h.1⟩

/-- A server for `@axiom` that drops mail for unknown recipients. -/
def smtpConfig : SmtpConfig where
  toConfig := ⟨asciiStr, [ascii "env"], [ascii "axiom"]⟩
  hostname := ascii "host"
  production := false
  auto := false
  mine _ := []

def goodEnv : Env := ⟨false, 0, .ok, true, ascii "1", []⟩

/-- A message for a recipient with a mailbox. -/
theorem answered_stored_one :
    ∃ t, run (smtpStep smtpConfig) (connected smtpConfig
      ⟨[(ascii "a@axiom", [ascii "m"])], [], []⟩
      (ascii "MAIL FROM:<b@axiom>\r\nRCPT TO:<A@axiom>\r\nDATA\r\nhi\r\n.\r\n"))
      [.command goodEnv, .command goodEnv, .command goodEnv] = some t ∧ ∀ r ∈ t.log, r.Kept := by
  have hr : (run (smtpStep smtpConfig) (connected smtpConfig
      ⟨[(ascii "a@axiom", [ascii "m"])], [], []⟩
      (ascii "MAIL FROM:<b@axiom>\r\nRCPT TO:<A@axiom>\r\nDATA\r\nhi\r\n.\r\n"))
      [.command goodEnv, .command goodEnv, .command goodEnv]).isSome := by decide +kernel
  obtain ⟨t, ht⟩ := Option.isSome_iff_exists.1 hr
  exact ⟨t, ht, (answered_stored (by decide +kernel) ht).1⟩

/-- A message for a recipient without a mailbox is answered 250 and dropped. -/
theorem answered_dropped :
    ∃ t, run (smtpStep smtpConfig) (connected smtpConfig
      ⟨[(ascii "a@axiom", [ascii "m"])], [], []⟩
      (ascii "MAIL FROM:<b@axiom>\r\nRCPT TO:<c@axiom>\r\nDATA\r\nhi\r\n.\r\n"))
      [.command goodEnv, .command goodEnv, .command goodEnv] = some t ∧
      ¬ ∀ r ∈ t.log, r.KeptForAll := by
  have hr : (run (smtpStep smtpConfig) (connected smtpConfig
      ⟨[(ascii "a@axiom", [ascii "m"])], [], []⟩
      (ascii "MAIL FROM:<b@axiom>\r\nRCPT TO:<c@axiom>\r\nDATA\r\nhi\r\n.\r\n"))
      [.command goodEnv, .command goodEnv, .command goodEnv]).map (fun t => t.log) =
      some [⟨some (ascii "hi"), [none], []⟩] := by decide +kernel
  obtain ⟨t, ht, hlog⟩ := Option.map_eq_some_iff.1 hr
  exact ⟨t, ht, fun h => (h _ (hlog ▸ List.mem_singleton.2 rfl)).1 (List.mem_singleton.2 rfl)⟩

end Fatmama
