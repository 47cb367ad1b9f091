import AxiomCarriers.Fatmama.Smtp
import AxiomCarriers.Lib.Separator

/-!
# Who is admitted over SMTP

Recipients come in by RCPT, by a delivery address that RCPT unwraps, and by XAXIOM-REGISTER; they
are held over commands, mint routes, and get mail.  The test domains are read from a list at every
check, so that the list can change between two commands and between two checks of one command
(`Reads`).  Several connections share the server.

Every route and every mail stored passes the door (`cluster_admission`).  A RCPT that names no
address takes up the recipient that is held, and so can unwrap a second time what was unwrapped
before, when a test domain that is a name of this site has left the list in between.
-/

namespace Fatmama.Admission

open Bytes Runs

/-! ## Checks -/

/-- `CLUSTER_DOMAINS`. -/
def clusterDomains : List Bytes := [ascii "axiom", ascii "axiom.internal"]

/-- The domains that `is_cluster_recipient` takes while these are listed. -/
def admitting (listed : List Bytes) : List Bytes := clusterDomains ++ listed

/-- The test domains listed at the checks of a command: at the first one of RCPT and of
XAXIOM-REGISTER, in `parse_delivery_address`, at the last one of RCPT, and in `_register_route`; and
what `my_domains` gives. -/
structure Reads where
  first : List Bytes
  inner : List Bytes
  last : List Bytes
  register : List Bytes
  mine : List Bytes
  deriving DecidableEq

/-- The server while these test domains are listed. -/
def listing (c : SmtpConfig) (listed : List Bytes) : SmtpConfig :=
  { c with toConfig := { c.toConfig with domains := admitting listed } }

/-! ## Commands -/

def handleRegister (c : SmtpConfig) (r : Reads) (env : Env) (s : Connection) (arg : Bytes) :
    Connection :=
  let raw := registerAddress c.toConfig arg
  if c.production then
    s.reply (ascii "502 5.5.1 XAXIOM-REGISTER not enabled in production mode\r\n")
  else if 64 ∉ raw ∨ raw.head? = some 64 ∨ raw.getLast? = some 64 then
    s.reply (ascii "501 syntax error: XAXIOM-REGISTER <email>\r\n")
  else if ¬ isClusterRecipient c.py (admitting r.first) raw then
    s.reply (ascii "550 5.7.1 cluster domain only (@axiom / @axiom.internal)\r\n")
  else match registerRouteOn (listing c r.register).toConfig env.disk s.server raw with
    | (true, server) =>
      { s with server := markRegistered c.toConfig server raw }.reply
        (registerAnswer env s.server server raw)
    | (false, server) =>
      { s with server := server }.reply (ascii "451 register failed: " ++ env.error ++ crlf)

/-- What RCPT finds inside the address, if it unwraps it. -/
def unwrapped (c : SmtpConfig) (r : Reads) (addr : Address) : Address :=
  if addr ≠ [] ∧ ¬ isClusterRecipient c.py (admitting r.first) addr then
    unwrapDeliveryAddress c.py (admitting r.inner) r.mine addr
  else []

def handleRcpt (c : SmtpConfig) (r : Reads) (s : Connection) (cmd : Bytes) : Connection :=
  let addr := rcptAddress c.py s.rcptTo cmd
  let rcptTo := if unwrapped c r addr ≠ [] then unwrapped c r addr else addr
  if rcptTo ≠ [] ∧ ¬ isClusterRecipient c.py (admitting r.last) rcptTo then
    { s with rcptTo := [] }.reply
      (ascii "550 5.7.1 recipient not in cluster domain (@axiom / @axiom.internal only)\r\n")
  else
    Connection.reply { s with
      rcptTo := rcptTo
      accepted := if rcptTo = [] then s.accepted else s.accepted ++ [rcptTo] } (ascii "250 OK\r\n")

/-- A command; those that check no recipient are as they are. -/
def handle (c : SmtpConfig) (r : Reads) (env : Env) (s : Connection) (cmd : Bytes) : Connection :=
  let upper := c.py.upper (verb c.py cmd)
  if upper = ascii "XAXIOM-REGISTER" then
    handleRegister c r env s (cmd.drop (verb c.py cmd).length)
  else if upper = ascii "RCPT" then handleRcpt c r s cmd
  else if upper = ascii "DATA" then handleData (listing c r.register) env s
  else Fatmama.handle c env s cmd

/-- The next command is read and answered. -/
def clientStep (c : SmtpConfig) (r : Reads) (env : Env) (s : Connection) : Option Connection :=
  if ¬ s.alive then none
  else match nextCommand c.py s.input with
    | none => some { s with alive := false }
    | some (cmd, rest) =>
      let s := { s with input := rest }
      if cmd = [] then some s else some (handle c r env s cmd)

/-- While the list stays, this is the step of a connection. -/
theorem clientStep_same (c : SmtpConfig) (listed : List Bytes) (env : Env) (s : Connection) :
    clientStep c ⟨listed, listed, listed, listed, c.mine s.server.routes⟩ env s =
      smtpStep (listing c listed) s (.command env) := by
  have hhandle : ∀ input cmd,
      handle c ⟨listed, listed, listed, listed, c.mine s.server.routes⟩ env
          { s with input := input } cmd =
        Fatmama.handle (listing c listed) env { s with input := input } cmd := by
    intro input cmd
    unfold handle
    dsimp only
    generalize hupper : c.py.upper (verb c.py cmd) = upper
    have hupper' : (listing c listed).py.upper (verb (listing c listed).py cmd) = upper := hupper
    unfold Fatmama.handle
    simp only [hupper, hupper']
    by_cases hregister : upper = ascii "XAXIOM-REGISTER"
    · subst hregister
      rfl
    by_cases hrcpt : upper = ascii "RCPT"
    · subst hrcpt
      rfl
    by_cases hdata : upper = ascii "DATA"
    · subst hdata
      rfl
    simp only [if_neg hregister, if_neg hrcpt, if_neg hdata]
    rfl
  unfold clientStep smtpStep
  simp only [hhandle]
  rfl

/-! ## The site -/

/-- The command that comes next, if it is RCPT. -/
def rcptCommand (c : SmtpConfig) (s : Connection) : Option Bytes :=
  (nextCommand c.py s.input).bind fun x =>
    if x.1 ≠ [] ∧ c.py.upper (verb c.py x.1) = ascii "RCPT" then some x.1 else none

/-- A RCPT that names an address; another one takes up the recipient that is held. -/
def names (cmd : Bytes) : Bool := (angled cmd).isSome || 58 ∈ cmd

/-- A connection, with the test domains that were listed when its recipient passed the door, and how
often something was unwrapped since the client has named an address. -/
structure Client where
  connection : Connection
  door : List Bytes
  unwraps : ℕ
  deriving DecidableEq

/-- What the next command unwraps, with the names of this site. -/
def opening (c : SmtpConfig) (r : Reads) (s : Connection) : List (Address × List Bytes) :=
  match rcptCommand c s with
  | some cmd =>
    let addr := rcptAddress c.py s.rcptTo cmd
    if unwrapped c r addr ≠ [] then [(addr, r.mine)] else []
  | none => []

/-- The client after a command. -/
def Client.answered (c : SmtpConfig) (r : Reads) (x : Client) (t : Connection) : Client :=
  match rcptCommand c x.connection with
  | some cmd =>
    ⟨t, r.last, (if names cmd then 0 else x.unwraps) + (opening c r x.connection).length⟩
  | none => { x with connection := t }

/-- The server and its clients.  `operator` are the addresses of the initial table and of the edits,
`past` those that have had a route, `granted` those that a command gave one, with the test domains
listed then, and `opened` what was unwrapped, with the names of this site. -/
structure Site where
  server : State
  clients : List (ℕ × Client)
  operator : List Address
  past : List Address
  granted : List (Address × List Bytes)
  opened : List (Address × List Bytes)
  deriving DecidableEq

inductive Event
  | connect (i : ℕ) (input : Bytes)
  | command (i : ℕ) (env : Env) (r : Reads)
  /-- The connection is lost or closed. -/
  | lose (i : ℕ)
  /-- The operator edits the routes. -/
  | edit (routes : List (Address × Path))
  /-- Others change the files, delete routes or bring earlier ones back. -/
  | others (server : State)
  deriving DecidableEq

/-- A command of a client has been answered. -/
def answer (c : SmtpConfig) (s : Site) (i : ℕ) (r : Reads) (x : Client) (t : Connection) : Site :=
  let fresh := (Table.keys t.server.routes).filter (· ∉ Table.keys s.server.routes)
  { s with
    server := t.server
    clients := Table.put s.clients i (x.answered c r t)
    past := s.past ++ fresh
    granted := s.granted ++ fresh.map fun addr => (addr, r.register)
    opened := s.opened ++ opening c r x.connection }

/-- The connection of a client, at the server as it is now. -/
def Client.on (x : Client) (server : State) : Connection := { x.connection with server := server }

def step (c : SmtpConfig) (s : Site) : Event → Option Site
  | .connect i input =>
    if Table.get s.clients i ≠ none then none
    else some { s with clients := Table.put s.clients i ⟨connected c s.server input, [], 0⟩ }
  | .command i env r =>
    match Table.get s.clients i with
    | some x => (clientStep c r env (x.on s.server)).map (answer c s i r x)
    | none => none
  | .lose i => some { s with clients := Table.del s.clients i }
  | .edit routes => some { s with
      server := { s.server with routes := routes }
      operator := s.operator ++ Table.keys routes
      past := s.past ++ Table.keys routes }
  | .others server =>
    if ∀ a ∈ Table.keys server.routes, a ∈ s.past then some { s with server := server } else none

def start (server : State) : Site :=
  ⟨server, [], Table.keys server.routes, Table.keys server.routes, [], []⟩

/-! ## What admission means -/

/-- With a local part, and behind the last @ one of the domains taken while these are listed, apart
from case and white space around it. -/
def InCluster (py : Str) (listed : List Bytes) (addr : Address) : Prop :=
  ∃ user domain, addr = user ++ 64 :: domain ∧ 64 ∉ domain ∧ user ≠ [] ∧
    (py.norm domain = ascii "axiom" ∨ py.norm domain = ascii "axiom.internal" ∨
      py.norm domain ∈ listed)

/-- A delivery address of a host with these names: an address of the cluster before the last @, and
one of the names behind it. -/
def IsFor (py : Str) (listed mine : List Bytes) (addr : Address) : Prop :=
  64 ∈ addr ∧ 64 ∈ py.strip (rpartition addr).1 ∧
    isClusterRecipient py (admitting listed) (py.norm (rpartition addr).1) ∧
    canonicalHost py (rpartition addr).2 ∈ mine

instance (py : Str) (listed mine : List Bytes) (addr : Address) :
    Decidable (IsFor py listed mine addr) := by
  unfold IsFor
  infer_instance

/-- A command stores mail only for the recipient that its client holds, which has passed the
door. -/
def StoresFor (c : SmtpConfig) (env : Env) (x : Client) (s t : State) : Prop :=
  ∃ stored, SameMail (addMail env.name stored s.files) t.files ∧ ∀ mail ∈ stored,
    InCluster c.py x.door x.connection.rcptTo ∧
      Table.get t.routes x.connection.rcptTo = some mail.1

structure Admitted (c : SmtpConfig) (s : Site) : Prop where
  routes : ∀ a ∈ Table.keys s.server.routes, a ∈ s.operator ∨
    ∃ listed, (a, listed) ∈ s.granted ∧ InCluster c.py listed a
  stores : ∀ i env r t, step c s (.command i env r) = some t →
    ∃ x, Table.get s.clients i = some x ∧ StoresFor c env x s.server t.server
  opened : ∀ x ∈ s.opened, ∃ user host, x.1 = user ++ 64 :: host ∧ 64 ∉ host ∧
    canonicalHost c.py host ∈ x.2
  once : ∀ i x, Table.get s.clients i = some x → x.unwraps ≤ 1

/-- A RCPT that names no address finds what was unwrapped before still in the cluster, or no
delivery address of this site. -/
def Settled (c : SmtpConfig) (s : Site) : Event → Prop
  | .command i _ r => ∀ x ∈ Table.get s.clients i, ∀ cmd ∈ rcptCommand c x.connection,
      ¬ names cmd → x.unwraps ≠ 0 →
        isClusterRecipient c.py (admitting r.first) x.connection.rcptTo ∨
          ¬ IsFor c.py r.inner r.mine x.connection.rcptTo
  | _ => True

instance (c : SmtpConfig) (s : Site) (e : Event) : Decidable (Settled c s e) := by
  unfold Settled
  split <;> infer_instance

/-! ## Checks and commands -/

theorem isClusterRecipient_iff {py : Str} {listed : List Bytes} {addr : Address} :
    isClusterRecipient py (admitting listed) addr ↔ InCluster py listed addr := by
  constructor
  · intro h
    rcases Separator.last_cases 64 addr with hno | ⟨user, domain, hdomain, rfl⟩
    · simp [isClusterRecipient, hno] at h
    · obtain ⟨huser, hmem⟩ := (isClusterRecipient_append hdomain).1 h
      refine ⟨user, domain, rfl, hdomain, huser, ?_⟩
      simpa [admitting, clusterDomains, or_assoc] using hmem
  · rintro ⟨user, domain, rfl, hdomain, huser, hmem⟩
    rw [isClusterRecipient_append hdomain]
    refine ⟨huser, ?_⟩
    simpa [admitting, clusterDomains, or_assoc] using hmem

theorem unwrapDeliveryAddress_ne_nil_iff {py : Str} {listed mine : List Bytes} {addr : Address} :
    unwrapDeliveryAddress py (admitting listed) mine addr ≠ [] ↔ IsFor py listed mine addr := by
  constructor
  · intro h
    simp only [unwrapDeliveryAddress, parseDeliveryAddress] at h
    by_cases hat : 64 ∉ addr
    · rw [if_pos hat, if_pos (Or.inl rfl)] at h
      exact absurd rfl h
    by_cases hin : 64 ∉ py.strip (rpartition addr).1
    · rw [if_neg hat, if_pos hin, if_pos (Or.inl rfl)] at h
      exact absurd rfl h
    by_cases hdoor : isClusterRecipient py (admitting listed) (py.norm (rpartition addr).1)
    · rw [if_neg hat, if_neg hin, if_neg (not_not.2 hdoor)] at h
      by_cases hmine : canonicalHost py (rpartition addr).2 ∈ mine
      · exact ⟨not_not.1 hat, not_not.1 hin, hdoor, hmine⟩
      · rw [if_pos (Or.inr hmine)] at h
        exact absurd rfl h
    · rw [if_neg hat, if_neg hin, if_pos hdoor, if_pos (Or.inl rfl)] at h
      exact absurd rfl h
  · rintro ⟨hat, hin, hdoor, hmine⟩
    have hne : py.norm (rpartition addr).1 ≠ [] := fun hnil => by
      rw [hnil] at hdoor
      simp [isClusterRecipient] at hdoor
    simp only [unwrapDeliveryAddress, parseDeliveryAddress, if_neg (not_not.2 hat),
      if_neg (not_not.2 hin), if_neg (not_not.2 hdoor)]
    rwa [if_neg (not_or.2 ⟨hne, not_not.2 hmine⟩)]

theorem unwrapped_ne_nil_iff {c : SmtpConfig} {r : Reads} {addr : Address} :
    unwrapped c r addr ≠ [] ↔
      ¬ isClusterRecipient c.py (admitting r.first) addr ∧ IsFor c.py r.inner r.mine addr := by
  unfold unwrapped
  by_cases hdoor : addr ≠ [] ∧ ¬ isClusterRecipient c.py (admitting r.first) addr
  · rw [if_pos hdoor, unwrapDeliveryAddress_ne_nil_iff]
    exact (and_iff_right hdoor.2).symm
  · rw [if_neg hdoor]
    refine iff_of_false (not_not.2 rfl) fun h => hdoor ⟨fun hnil => ?_, h.1⟩
    exact List.not_mem_nil (hnil ▸ h.2.1)

theorem IsFor.host {py : Str} {listed mine : List Bytes} {addr : Address}
    (h : IsFor py listed mine addr) :
    ∃ user host, addr = user ++ 64 :: host ∧ 64 ∉ host ∧ canonicalHost py host ∈ mine := by
  obtain ⟨hat, -, -, hmine⟩ := h
  obtain ⟨user, host, hhost, rfl⟩ := (Separator.last_cases 64 addr).resolve_left (not_not.2 hat)
  rw [rpartition_append hhost] at hmine
  exact ⟨user, host, rfl, hhost, hmine⟩

theorem registerRouteOn_cases (c : Config) (disk : Disk) (s : State) (email : Address) :
    (registerRouteOn c disk s email).2 = s ∨
      registerRoute c s email = some (registerRouteOn c disk s email).2 := by
  unfold registerRouteOn
  cases registerRoute c s email with
  | none => exact Or.inl rfl
  | some s' =>
    by_cases hs : s' = s
    · simp [hs]
    · cases disk <;> simp [hs]

theorem registerRouteOn_keys {c : Config} {disk : Disk} {s : State} {email a : Address}
    (h : a ∈ Table.keys (registerRouteOn c disk s email).2.routes) :
    a ∈ Table.keys s.routes ∨ isRegistrable c a := by
  rcases registerRouteOn_cases c disk s email with hsame | hnew
  · exact Or.inl (hsame ▸ h)
  · rcases registerRoute_cases hnew with hsame | ⟨-, hreg, hput⟩
    · exact Or.inl (hsame ▸ h)
    · rw [hput] at h
      rcases Table.mem_keys_of_put h with rfl | h
      · exact Or.inr hreg
      · exact Or.inl h

theorem inCluster_of_isRegistrable {c : SmtpConfig} {listed : List Bytes} {a : Address}
    (h : isRegistrable (listing c listed).toConfig a) : InCluster c.py listed a := by
  simp only [isRegistrable, Bool.and_eq_true] at h
  exact isClusterRecipient_iff.1 h.2

/-! ## What a command does -/

/-- What a command does to the server: it gives routes to addresses of the cluster only, and stores
for the recipient held only. -/
structure Serves (c : SmtpConfig) (r : Reads) (env : Env) (s t : Connection) : Prop where
  routes : ∀ a ∈ Table.keys t.server.routes,
    a ∈ Table.keys s.server.routes ∨ InCluster c.py r.register a
  mail : ∃ stored, SameMail (addMail env.name stored s.server.files) t.server.files ∧
    ∀ mail ∈ stored, s.rcptTo ≠ [] ∧ Table.get t.server.routes s.rcptTo = some mail.1

theorem Serves.of_server {c : SmtpConfig} {r : Reads} {env : Env} {s t : Connection}
    (h : t.server = s.server) : Serves c r env s t where
  routes _ ha := Or.inl (h ▸ ha)
  mail := ⟨[], h ▸ SameMail.refl s.server.files, fun _ hmail => absurd hmail List.not_mem_nil⟩

/-- What is not read yet does not matter. -/
theorem Serves.unread {c : SmtpConfig} {r : Reads} {env : Env} {s t : Connection} {rest : Bytes}
    (h : Serves c r env { s with input := rest } t) : Serves c r env s t := ⟨h.routes, h.mail⟩

theorem serves_handleRegister (c : SmtpConfig) (r : Reads) (env : Env) (s : Connection)
    (arg : Bytes) : Serves c r env s (handleRegister c r env s arg) := by
  have hfiles := registerRouteOn_files (listing c r.register).toConfig env.disk s.server
    (registerAddress c.toConfig arg)
  have hkeys := @registerRouteOn_keys (listing c r.register).toConfig env.disk s.server
    (registerAddress c.toConfig arg)
  unfold handleRegister
  refine iteInduction (fun _ => Serves.of_server rfl) fun _ => ?_
  refine iteInduction (fun _ => Serves.of_server rfl) fun _ => ?_
  refine iteInduction (fun _ => Serves.of_server rfl) fun _ => ?_
  rcases hr : registerRouteOn (listing c r.register).toConfig env.disk s.server
    (registerAddress c.toConfig arg) with ⟨ok, server⟩
  rw [hr] at hfiles hkeys
  have hroutes : ∀ a ∈ Table.keys server.routes,
      a ∈ Table.keys s.server.routes ∨ InCluster c.py r.register a := fun a ha =>
    (hkeys ha).imp_right inCluster_of_isRegistrable
  cases ok with
  | true =>
    refine ⟨fun a ha => hroutes a ?_, [], ?_, fun _ hmail => absurd hmail List.not_mem_nil⟩
    · rwa [← markRegistered_routes c.toConfig server (registerAddress c.toConfig arg)]
    · exact hfiles ▸ sameMail_markRegistered c.toConfig server _
  | false =>
    exact ⟨hroutes, [], hfiles ▸ SameMail.refl server.files,
      fun _ hmail => absurd hmail List.not_mem_nil⟩

theorem prepare_keys {c : SmtpConfig} {env : Env} {s : Connection} {a : Address}
    (h : a ∈ Table.keys (prepare c env s).routes) :
    a ∈ Table.keys s.server.routes ∨ isRegistrable c.toConfig a := by
  have hkeys := @registerRouteOn_keys c.toConfig env.disk s.server s.rcptTo a
  unfold prepare at h
  split_ifs at h
  · rcases hr : registerRouteOn c.toConfig env.disk s.server s.rcptTo with ⟨ok, server⟩
    rw [hr] at h hkeys
    cases ok with
    | true =>
      apply hkeys
      rwa [← markAuto_routes c.toConfig server s.rcptTo]
    | false => exact hkeys h
  · exact Or.inl h

theorem serves_handleData (c : SmtpConfig) (r : Reads) (env : Env) (s : Connection) :
    Serves c r env s (handleData (listing c r.register) env s) := by
  by_cases hlost : env.lost
  · rw [handleData, if_pos hlost]
    exact Serves.of_server rfl
  have hserver : (handleData (listing c r.register) env s).server.routes =
      (prepare (listing c r.register) env s).routes := by
    simp only [handleData, if_neg hlost]
    rfl
  have hfiles := (handleData_read (listing c r.register) s hlost).2
  refine ⟨fun a ha => ?_, dataStored (listing c r.register) env s, ?_, fun mail hmail => ?_⟩
  · rw [hserver] at ha
    exact (prepare_keys ha).imp_right inCluster_of_isRegistrable
  · rw [hfiles]
    exact (sameMail_prepare (listing c r.register) env s).addMail env.name _
  · rw [hserver]
    unfold dataStored deliver at hmail
    cases hbox : mailboxOf (prepare (listing c r.register) env s) s.rcptTo with
    | none => simp [hbox] at hmail
    | some maildir =>
      simp only [hbox] at hmail
      have hpath : mail.1 = maildir := by
        split_ifs at hmail
        · rw [List.mem_singleton.1 hmail]
        · exact absurd hmail List.not_mem_nil
      unfold mailboxOf at hbox
      split_ifs at hbox with hnil
      exact ⟨hnil, hpath ▸ hbox⟩

/-- A recipient is taken up at the door. -/
theorem handleRcpt_spec (c : SmtpConfig) (r : Reads) (s : Connection) (cmd : Bytes) :
    (handleRcpt c r s cmd).server = s.server ∧ ((handleRcpt c r s cmd).rcptTo ≠ [] →
      InCluster c.py r.last (handleRcpt c r s cmd).rcptTo) := by
  unfold handleRcpt
  dsimp only
  generalize (if unwrapped c r (rcptAddress c.py s.rcptTo cmd) ≠ [] then
    unwrapped c r (rcptAddress c.py s.rcptTo cmd) else rcptAddress c.py s.rcptTo cmd) = rcptTo
  by_cases hdoor : rcptTo ≠ [] ∧ ¬ isClusterRecipient c.py (admitting r.last) rcptTo
  · rw [if_pos hdoor]
    exact ⟨rfl, fun hne => absurd rfl hne⟩
  · rw [if_neg hdoor]
    refine ⟨rfl, fun hne => isClusterRecipient_iff.1 ?_⟩
    by_contra hno
    exact hdoor ⟨hne, hno⟩

/-- The server and the recipient that is held are as before. -/
def Keeps (s t : Connection) : Prop := t.server = s.server ∧ t.rcptTo = s.rcptTo

/-- The commands that do not check a recipient, and do not store. -/
theorem handle_other {c : SmtpConfig} {cmd : Bytes}
    (hregister : c.py.upper (verb c.py cmd) ≠ ascii "XAXIOM-REGISTER")
    (hrcpt : c.py.upper (verb c.py cmd) ≠ ascii "RCPT")
    (hdata : c.py.upper (verb c.py cmd) ≠ ascii "DATA") (env : Env) (s : Connection) :
    Keeps s (Fatmama.handle c env s cmd) := by
  unfold Fatmama.handle
  refine iteInduction (fun _ => ⟨rfl, rfl⟩) fun _ => ?_
  refine iteInduction (fun _ => ⟨rfl, rfl⟩) fun _ => ?_
  refine iteInduction (fun h => absurd h hregister) fun _ => ?_
  refine iteInduction (fun _ => ⟨rfl, rfl⟩) fun _ => ?_
  refine iteInduction (fun h => absurd h hrcpt) fun _ => ?_
  refine iteInduction (fun h => absurd h hdata) fun _ => ?_
  refine iteInduction (fun _ => ⟨rfl, rfl⟩) fun _ => ?_
  refine iteInduction (fun _ => ⟨rfl, rfl⟩) fun _ => ?_
  exact iteInduction (fun _ => ⟨rfl, rfl⟩) fun _ => ⟨rfl, rfl⟩

theorem handleRegister_rcptTo (c : SmtpConfig) (r : Reads) (env : Env) (s : Connection)
    (arg : Bytes) : (handleRegister c r env s arg).rcptTo = s.rcptTo := by
  simp only [handleRegister]
  split_ifs
  · rfl
  · rfl
  · rcases registerRouteOn (listing c r.register).toConfig env.disk s.server
      (registerAddress c.toConfig arg) with ⟨ok, server⟩
    cases ok <;> rfl
  · rfl

theorem handleData_rcptTo {c : SmtpConfig} {env : Env} {s : Connection}
    (h : (handleData c env s).rcptTo ≠ []) : (handleData c env s).rcptTo = s.rcptTo := by
  unfold handleData at h ⊢
  by_cases hlost : env.lost
  · simp only [if_pos hlost]
    rfl
  · simp only [if_neg hlost] at h
    exact absurd rfl h

/-- A recipient that is held was held before, or comes from a RCPT. -/
def Holds (c : SmtpConfig) (r : Reads) (s t : Connection) : Prop :=
  t.rcptTo ≠ [] → match rcptCommand c s with
    | some _ => InCluster c.py r.last t.rcptTo
    | none => t.rcptTo = s.rcptTo

theorem clientStep_spec {c : SmtpConfig} {r : Reads} {env : Env} {s t : Connection}
    (h : clientStep c r env s = some t) : Serves c r env s t ∧ Holds c r s t := by
  simp only [clientStep] at h
  split_ifs at h
  cases hnext : nextCommand c.py s.input with
  | none =>
    rw [hnext] at h
    obtain rfl := Option.some.inj h
    have hrcpt : rcptCommand c s = none := by rw [rcptCommand, hnext, Option.bind_none]
    exact ⟨Serves.of_server rfl, fun _ => by rw [hrcpt]⟩
  | some x =>
    obtain ⟨cmd, rest⟩ := x
    rw [hnext] at h
    dsimp only at h
    by_cases hcmd : cmd = []
    · rw [if_pos hcmd] at h
      obtain rfl := Option.some.inj h
      have hrcpt : rcptCommand c s = none := by simp [rcptCommand, hnext, hcmd]
      exact ⟨Serves.of_server rfl, fun _ => by rw [hrcpt]⟩
    rw [if_neg hcmd] at h
    obtain rfl := Option.some.inj h
    unfold handle
    by_cases hupper : c.py.upper (verb c.py cmd) = ascii "RCPT"
    · have hrcpt : rcptCommand c s = some cmd := by simp [rcptCommand, hnext, hcmd, hupper]
      have hne : ascii "RCPT" ≠ ascii "XAXIOM-REGISTER" := by decide +kernel
      simp only [hupper, if_neg hne, if_true]
      obtain ⟨hserver, hheld⟩ := handleRcpt_spec c r { s with input := rest } cmd
      refine ⟨Serves.of_server hserver, fun hne => ?_⟩
      rw [hrcpt]
      exact hheld hne
    have hrcpt : rcptCommand c s = none := by simp [rcptCommand, hnext, hupper]
    unfold Holds
    simp only [hrcpt]
    by_cases hregister : c.py.upper (verb c.py cmd) = ascii "XAXIOM-REGISTER"
    · simp only [if_pos hregister]
      exact ⟨(serves_handleRegister c r env { s with input := rest } _).unread,
        fun _ => handleRegister_rcptTo c r env { s with input := rest } _⟩
    by_cases hdata : c.py.upper (verb c.py cmd) = ascii "DATA"
    · simp only [if_neg hregister, if_neg hupper, if_pos hdata]
      exact ⟨(serves_handleData c r env { s with input := rest }).unread, handleData_rcptTo⟩
    · simp only [if_neg hregister, if_neg hupper, if_neg hdata]
      obtain ⟨hserver, hheld⟩ := handle_other hregister hupper hdata env { s with input := rest }
      exact ⟨Serves.of_server hserver, fun _ => hheld⟩

/-! ## Runs -/

/-- A command unwraps at most one address, which is for this site. -/
theorem mem_opening {c : SmtpConfig} {r : Reads} {s : Connection} {x : Address × List Bytes}
    (h : x ∈ opening c r s) : x.2 = r.mine ∧ IsFor c.py r.inner r.mine x.1 := by
  unfold opening at h
  split at h
  · dsimp only at h
    split_ifs at h with hopen
    · obtain rfl := List.mem_singleton.1 h
      exact ⟨rfl, (unwrapped_ne_nil_iff.1 hopen).2⟩
    · exact absurd h List.not_mem_nil
  · exact absurd h List.not_mem_nil

theorem length_opening_le (c : SmtpConfig) (r : Reads) (s : Connection) :
    (opening c r s).length ≤ 1 := by
  unfold opening
  split
  · dsimp only
    split_ifs
    · exact le_rfl
    · exact Nat.zero_le 1
  · exact Nat.zero_le 1

theorem rcptAddress_of_not_names {py : Str} {cmd : Bytes} (h : ¬ names cmd) (rcptTo : Address) :
    rcptAddress py rcptTo cmd = rcptTo := by
  rw [names, Bool.or_eq_true, not_or] at h
  have hangled : angled cmd = none := by simpa using h.1
  have hcolon : 58 ∉ cmd := by simpa using h.2
  simp only [rcptAddress, hangled, if_neg hcolon]

/-- A RCPT that names no address unwraps what is held, when that has lost its domain and is for this
site. -/
theorem Client.answered_unwraps {c : SmtpConfig} {r : Reads} {x : Client} {cmd : Bytes}
    (hcmd : rcptCommand c x.connection = some cmd) (hnames : ¬ names cmd) (t : Connection) :
    (x.answered c r t).unwraps = x.unwraps +
      if ¬ isClusterRecipient c.py (admitting r.first) x.connection.rcptTo ∧
        IsFor c.py r.inner r.mine x.connection.rcptTo then 1 else 0 := by
  simp only [Client.answered, opening, hcmd, if_neg hnames, rcptAddress_of_not_names hnames,
    ← unwrapped_ne_nil_iff (c := c)]
  split_ifs <;> rfl

theorem Client.answered_unwraps_le {c : SmtpConfig} {r : Reads} {x : Client} (t : Connection)
    (hx : x.unwraps ≤ 1)
    (h : ∀ cmd ∈ rcptCommand c x.connection, ¬ names cmd → x.unwraps ≠ 0 →
      isClusterRecipient c.py (admitting r.first) x.connection.rcptTo ∨
        ¬ IsFor c.py r.inner r.mine x.connection.rcptTo) :
    (x.answered c r t).unwraps ≤ 1 := by
  cases hcmd : rcptCommand c x.connection with
  | none =>
    simp only [Client.answered, hcmd]
    exact hx
  | some cmd =>
    by_cases hnames : names cmd
    · have hlen := length_opening_le c r x.connection
      simp only [Client.answered, hcmd, if_pos hnames]
      omega
    rw [Client.answered_unwraps hcmd hnames]
    by_cases hzero : x.unwraps = 0
    · split_ifs <;> omega
    · have hno : ¬ (¬ isClusterRecipient c.py (admitting r.first) x.connection.rcptTo ∧
          IsFor c.py r.inner r.mine x.connection.rcptTo) := fun hboth =>
        (h cmd hcmd hnames hzero).elim hboth.1 fun hfor => hfor hboth.2
      rw [if_neg hno]
      omega

theorem Client.answered_held {c : SmtpConfig} {r : Reads} {x : Client} {server : State}
    {t : Connection} (hx : x.connection.rcptTo ≠ [] → InCluster c.py x.door x.connection.rcptTo)
    (h : Holds c r (x.on server) t) (hne : (x.answered c r t).connection.rcptTo ≠ []) :
    InCluster c.py (x.answered c r t).door (x.answered c r t).connection.rcptTo := by
  unfold Holds at h
  change _ → match rcptCommand c x.connection with
    | some _ => InCluster c.py r.last t.rcptTo
    | none => t.rcptTo = x.connection.rcptTo at h
  unfold Client.answered at hne ⊢
  cases hcmd : rcptCommand c x.connection with
  | none =>
    simp only [hcmd] at h hne ⊢
    have hkept : t.rcptTo = x.connection.rcptTo := h hne
    rw [hkept] at hne ⊢
    exact hx hne
  | some cmd =>
    simp only [hcmd] at h hne ⊢
    exact h hne

/-- What holds in every state of a run: every address with a route has been let in, and so has every
recipient that a client holds. -/
structure Inv (c : SmtpConfig) (s : Site) : Prop where
  routes : ∀ a ∈ Table.keys s.server.routes, a ∈ s.past
  past : ∀ a ∈ s.past, a ∈ s.operator ∨ ∃ listed, (a, listed) ∈ s.granted ∧ InCluster c.py listed a
  held : ∀ i x, Table.get s.clients i = some x → x.connection.rcptTo ≠ [] →
    InCluster c.py x.door x.connection.rcptTo
  opened : ∀ x ∈ s.opened, ∃ user host, x.1 = user ++ 64 :: host ∧ 64 ∉ host ∧
    canonicalHost c.py host ∈ x.2
  once : ∀ i x, Table.get s.clients i = some x → x.unwraps ≤ 1

theorem inv_start (c : SmtpConfig) (server : State) : Inv c (start server) where
  routes _ ha := ha
  past _ ha := Or.inl ha
  held _ _ hx := by simp [start] at hx
  opened _ hx := absurd hx List.not_mem_nil
  once _ _ hx := by simp [start] at hx

theorem Inv.answer {c : SmtpConfig} {s : Site} {i : ℕ} {env : Env} {r : Reads} {x : Client}
    {t : Connection} (h : Inv c s) (hC : Settled c s (.command i env r))
    (hx : Table.get s.clients i = some x) (ht : clientStep c r env (x.on s.server) = some t) :
    Inv c (answer c s i r x t) := by
  obtain ⟨hserves, hholds⟩ := clientStep_spec ht
  have hfresh : ∀ a ∈ Table.keys t.server.routes, a ∉ Table.keys s.server.routes →
      InCluster c.py r.register a := fun a ha hold => (hserves.routes a ha).resolve_left hold
  refine ⟨fun a ha => ?_, fun a ha => ?_, fun j y hy hne => ?_, fun y hy => ?_, fun j y hy => ?_⟩
  · by_cases hold : a ∈ Table.keys s.server.routes
    · exact List.mem_append_left _ (h.routes a hold)
    · exact List.mem_append_right _ (List.mem_filter.2 ⟨ha, decide_eq_true hold⟩)
  · rcases List.mem_append.1 ha with ha | ha
    · refine (h.past a ha).imp_right fun ⟨listed, hmem, hin⟩ => ?_
      exact ⟨listed, List.mem_append_left _ hmem, hin⟩
    · have hmem := List.mem_filter.1 ha
      refine Or.inr ⟨r.register, List.mem_append_right _ ?_,
        hfresh a hmem.1 (of_decide_eq_true hmem.2)⟩
      exact List.mem_map_of_mem (f := fun addr => (addr, r.register)) ha
  · rcases Table.get_of_get_put hy with ⟨rfl, rfl⟩ | ⟨-, hy⟩
    · exact Client.answered_held (h.held i x hx) hholds hne
    · exact h.held j y hy hne
  · rcases List.mem_append.1 hy with hy | hy
    · exact h.opened y hy
    · obtain ⟨hmine, hfor⟩ := mem_opening hy
      rw [hmine]
      exact hfor.host
  · rcases Table.get_of_get_put hy with ⟨rfl, rfl⟩ | ⟨-, hy⟩
    · exact Client.answered_unwraps_le t (h.once i x hx) (hC x hx)
    · exact h.once j y hy

theorem step_command {c : SmtpConfig} {s t : Site} {i : ℕ} {env : Env} {r : Reads}
    (h : step c s (.command i env r) = some t) :
    ∃ x u, Table.get s.clients i = some x ∧ clientStep c r env (x.on s.server) = some u ∧
      t = answer c s i r x u := by
  cases hx : Table.get s.clients i with
  | none => simp [step, hx] at h
  | some x =>
    simp only [step, hx, Option.map_eq_some_iff] at h
    obtain ⟨u, hu, rfl⟩ := h
    exact ⟨x, u, rfl, hu, rfl⟩

theorem inv_step {c : SmtpConfig} {s t : Site} {e : Event} (h : Inv c s) (hC : Settled c s e)
    (ht : step c s e = some t) : Inv c t := by
  cases e with
  | connect i input =>
    simp only [step] at ht
    split_ifs at ht
    obtain rfl := Option.some.inj ht
    refine ⟨h.routes, h.past, fun j x hx hne => ?_, h.opened, fun j x hx => ?_⟩
    · rcases Table.get_of_get_put hx with ⟨rfl, rfl⟩ | ⟨-, hx⟩
      · exact absurd rfl hne
      · exact h.held j x hx hne
    · rcases Table.get_of_get_put hx with ⟨rfl, rfl⟩ | ⟨-, hx⟩
      · exact Nat.zero_le 1
      · exact h.once j x hx
  | command i env r =>
    obtain ⟨x, u, hx, hu, rfl⟩ := step_command ht
    exact h.answer hC hx hu
  | lose i =>
    obtain rfl := Option.some.inj ht
    exact ⟨h.routes, h.past, fun j x hx => h.held j x (Table.get_of_get_del hx).2, h.opened,
      fun j x hx => h.once j x (Table.get_of_get_del hx).2⟩
  | edit routes =>
    obtain rfl := Option.some.inj ht
    refine ⟨fun a ha => List.mem_append_right _ ha, fun a ha => ?_, h.held, h.opened, h.once⟩
    rcases List.mem_append.1 ha with ha | ha
    · exact (h.past a ha).imp_left (List.mem_append_left _)
    · exact Or.inl (List.mem_append_right _ ha)
  | others server =>
    simp only [step] at ht
    split_ifs at ht with hpast
    obtain rfl := Option.some.inj ht
    exact ⟨hpast, h.past, h.held, h.opened, h.once⟩

theorem Inv.admitted {c : SmtpConfig} {s : Site} (h : Inv c s) : Admitted c s where
  routes a ha := h.past a (h.routes a ha)
  stores i env r t ht := by
    obtain ⟨x, u, hx, hu, rfl⟩ := step_command ht
    obtain ⟨stored, hsame, hstored⟩ := (clientStep_spec hu).1.mail
    refine ⟨x, hx, stored, hsame, fun mail hmail => ?_⟩
    exact (hstored mail hmail).imp_left (h.held i x hx)
  opened := h.opened
  once := h.once

theorem settled_of_admitted {c : SmtpConfig} {s t : Site} {e : Event} (ht : step c s e = some t)
    (h : Admitted c t) : Settled c s e := by
  unfold Settled
  split
  next i env r =>
    intro x hx cmd hcmd hnames hne
    by_contra hno
    rw [not_or, not_not] at hno
    obtain ⟨y, u, hy, -, rfl⟩ := step_command ht
    obtain rfl := Option.some.inj (hy.symm.trans (Option.mem_def.1 hx))
    have honce : (y.answered c r u).unwraps ≤ 1 := h.once i _ (Table.get_put_self _ _ _)
    rw [Client.answered_unwraps hcmd hnames, if_pos hno] at honce
    omega
  · trivial

/-- In every run in which a RCPT that names no address finds what was unwrapped before still in the
cluster, or no delivery address of this site, every route was let in, mail is stored for recipients
of the cluster only, and a delivery address is unwrapped at most once, and at its own site only.
The first step at which this is not so unwraps a second time. -/
theorem cluster_admission {c : SmtpConfig} {server : State} {es : List Event} {t : Site}
    (hC : Along (step c) (Settled c) (start server) es)
    (h : run (step c) (start server) es = some t) :
    Admitted c t ∧ ∀ e u, step c t e = some u → (Admitted c u ↔ Settled c t e) := by
  have hinv : Inv c t :=
    run_invariant (fun _ _ _ hs hC ht => inv_step hs hC ht) (inv_start c server) hC h
  exact ⟨hinv.admitted, fun e u hu =>
    ⟨settled_of_admitted hu, fun hC => (inv_step hinv hC hu).admitted⟩⟩

/-- The names of a site are `h` and `s`, and `s` is a test domain, or is not one any more. -/
def withDomain : Reads :=
  ⟨[ascii "s"], [ascii "s"], [ascii "s"], [ascii "s"], [ascii "h", ascii "s"]⟩

def withoutDomain : Reads := ⟨[], [], [], [], [ascii "h", ascii "s"]⟩

/-- Mail for a delivery address goes to the new mailbox of the address inside. -/
theorem cluster_admission_wrapped :
    ∃ t, run (step { smtpConfig with auto := true }) (start ⟨[], [], []⟩)
      [.connect 0 (ascii "RCPT TO:<A@axiom@h>\r\nRCPT\r\nDATA\r\nhi\r\n.\r\n"),
        .command 0 goodEnv withDomain, .command 0 goodEnv withoutDomain,
        .command 0 goodEnv withoutDomain] = some t ∧ Admitted { smtpConfig with auto := true } t := by
  have hr : (run (step { smtpConfig with auto := true }) (start ⟨[], [], []⟩)
      [.connect 0 (ascii "RCPT TO:<A@axiom@h>\r\nRCPT\r\nDATA\r\nhi\r\n.\r\n"),
        .command 0 goodEnv withDomain, .command 0 goodEnv withoutDomain,
        .command 0 goodEnv withoutDomain]).isSome := by decide +kernel
  obtain ⟨t, ht⟩ := Option.isSome_iff_exists.1 hr
  exact ⟨t, ht, (cluster_admission (by decide +kernel) ht).1⟩

/-- The delivery address inside a delivery address is unwrapped, too. -/
theorem unwrapped_twice :
    ∃ t, run (step smtpConfig) (start ⟨[], [], []⟩)
      [.connect 0 (ascii "RCPT TO:<a@axiom@s@h>\r\nRCPT\r\n"), .command 0 goodEnv withDomain,
        .command 0 goodEnv withoutDomain] = some t ∧ ¬ Admitted smtpConfig t := by
  have hr : (run (step smtpConfig) (start ⟨[], [], []⟩)
      [.connect 0 (ascii "RCPT TO:<a@axiom@s@h>\r\nRCPT\r\n"), .command 0 goodEnv withDomain,
        .command 0 goodEnv withoutDomain]).bind (fun t => Table.get t.clients 0) =
      some ⟨⟨⟨[], [], []⟩, true, [], ascii "a@axiom", [],
        [ascii "220 host FATMAMA\r\n", ascii "250 OK\r\n", ascii "250 OK\r\n"],
        [ascii "a@axiom@s", ascii "a@axiom"], []⟩, [], 2⟩ := by decide +kernel
  obtain ⟨t, ht, hx⟩ := Option.bind_eq_some_iff.1 hr
  refine ⟨t, ht, fun h => ?_⟩
  have htwo : 2 ≤ 1 := h.once 0 _ hx
  omega

end Fatmama.Admission
