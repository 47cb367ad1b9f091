import AxiomCarriers.Fatmama.Isolation
import AxiomCarriers.Fatmama.Smtp
import AxiomCarriers.Lib.Stuffing
import AxiomCarriers.Lib.Text
import Mathlib.Data.List.Sort

/-!
# The POP3 connections of FATMAMA

`_handle_pop3_client` lists a mailbox at USER, marks messages by their number in the list, and
unlinks at QUIT what the marked numbers stand for then.  Nothing but QUIT changes a file.  A USER in
between replaces the list and leaves the marks, so QUIT unlinks the files that were marked exactly
as long as every USER finds the same files under the marked numbers (`quit_unlinks`).
-/

namespace Fatmama.Pop3

open Bytes Runs Text

/-- What the server is started with; `int` is Python's, `none` for a text that is no number. -/
structure Pop3Config extends Config where
  hostname : Bytes
  int : Bytes → Option ℤ

/-- A connection: what the client has sent and is not read yet, the locals of the handler, and the
answers; the files whose DELE was answered +OK since the last RSET. -/
structure Connection where
  server : State
  alive : Bool
  input : Bytes
  mailbox : Option Address
  snapshot : List (Path × ℕ)
  deleted : List ℕ
  authed : Bool
  out : List Bytes
  marked : List Path
  deriving DecidableEq

def Connection.send (s : Connection) (line : Bytes) : Connection :=
  { s with out := s.out ++ [line ++ crlf] }

/-- A connection that has been greeted. -/
def connected (c : Pop3Config) (server : State) (input : Bytes) : Connection :=
  Connection.send ⟨server, true, input, none, [], [], false, [], []⟩
    (ascii "+OK FATMAMA POP3 ready (" ++ c.hostname ++ ascii ")")

/-! ## Messages -/

/-- The files in `new/` of a mailbox in the order of their names, with their sizes. -/
def listing (server : State) (mailbox : Address) : List (Path × ℕ) :=
  ((snapshot server mailbox).dedup.insertionSort (· ≤ ·)).map fun f =>
    (f, ((Table.get server.files f).getD []).length)

/-- The messages that are not marked, with their numbers. -/
def Connection.live (s : Connection) : List (ℕ × Path × ℕ) :=
  ((List.range' 1 s.snapshot.length).zip s.snapshot).filter fun m => m.1 ∉ s.deleted

/-- What is done with the message that the argument of a command names. -/
def withMessage (c : Pop3Config) (s : Connection) (arg : Bytes) (f : ℕ → Path × ℕ → Connection) :
    Connection :=
  match c.int arg with
  | none => s.send (ascii "-ERR bad index")
  | some n =>
    if ¬ (1 ≤ n ∧ n ≤ s.snapshot.length) ∨ n.toNat ∈ s.deleted then
      s.send (ascii "-ERR no such message")
    else match s.snapshot[n.toNat - 1]? with
      | some m => f n.toNat m
      | none => s

/-- The text of a message in the answer to RETR, with its end. -/
def retrBody (data : Bytes) : Bytes :=
  let stuffed := replace (ascii "\r\n.") (ascii "\r\n..") data
  let stuffed := if ascii "." <+: stuffed then ascii "." ++ stuffed else stuffed
  stuffed ++ (if crlf <:+ stuffed then [] else crlf) ++ ascii ".\r\n"

/-- The files that numbers stand for in a list of messages. -/
def filesAt (snapshot : List (Path × ℕ)) (numbers : List ℕ) : List Path :=
  numbers.filterMap fun idx => (snapshot[idx - 1]?).map (·.1)

/-- The server when QUIT has unlinked the messages that the marked numbers stand for; `stuck` are
the files that the file system refuses to remove. -/
def unlinked (stuck : List Path) (s : Connection) : State :=
  { s.server with
    files := ((filesAt s.snapshot s.deleted).filter (· ∉ stuck)).foldl Table.del s.server.files }

/-! ## Commands -/

def handleUser (c : Pop3Config) (s : Connection) : List Bytes → Connection
  | [] => s.send (ascii "-ERR USER requires argument")
  | arg :: _ =>
    let mailbox := c.py.lower arg
    Connection.send { s with mailbox := some mailbox, snapshot := listing s.server mailbox }
      (ascii "+OK mailbox " ++ mailbox)

def handlePass (s : Connection) : Connection :=
  match s.mailbox with
  | none => s.send (ascii "-ERR USER first")
  | some _ => { s with authed := true }.send
      (ascii "+OK " ++ decimal s.snapshot.length ++ ascii " messages")

def handleCapa (s : Connection) : Connection :=
  [ascii "+OK Capability list follows", ascii "USER", ascii "TOP", ascii "UIDL", ascii "PIPELINING",
    ascii "."].foldl Connection.send s

/-- The server after QUIT: where a message was marked, the account may be reclaimed. -/
def quitServer (c : Pop3Config) (stuck : List Path) (s : Connection) : State :=
  if ¬ s.authed then s.server
  else match s.mailbox with
    | some mailbox =>
      if s.deleted = [] then unlinked stuck s else reclaim c.toConfig (unlinked stuck s) mailbox
    | none => unlinked stuck s

def handleQuit (c : Pop3Config) (stuck : List Path) (s : Connection) : Connection :=
  { s with server := quitServer c stuck s, alive := false }.send (ascii "+OK bye")

def handleStat (s : Connection) : Connection :=
  s.send (ascii "+OK " ++ decimal s.live.length ++ ascii " " ++
    decimal (s.live.map (·.2.2)).sum)

def handleList (c : Pop3Config) (s : Connection) : List Bytes → Connection
  | arg :: _ => withMessage c s arg fun n m =>
      s.send (ascii "+OK " ++ decimal n ++ ascii " " ++ decimal m.2)
  | [] =>
    ((s.live.map fun m => decimal m.1 ++ ascii " " ++ decimal m.2.2).foldl Connection.send
      (s.send (ascii "+OK " ++ decimal s.live.length ++ ascii " messages"))).send (ascii ".")

def handleUidl (c : Pop3Config) (s : Connection) : List Bytes → Connection
  | arg :: _ => withMessage c s arg fun n m =>
      s.send (ascii "+OK " ++ decimal n ++ ascii " " ++ (m.1.getLast?).getD [])
  | [] =>
    ((s.live.map fun m => decimal m.1 ++ ascii " " ++ (m.2.1.getLast?).getD []).foldl
      Connection.send (s.send (ascii "+OK"))).send (ascii ".")

/-- RETR, and TOP, which sends the whole message. -/
def handleRetr (c : Pop3Config) (s : Connection) (cmd : Bytes) : List Bytes → Connection
  | [] => s.send (ascii "-ERR " ++ cmd ++ ascii " requires argument")
  | arg :: _ => withMessage c s arg fun _ m =>
      match Table.get s.server.files m.1 with
      | none => s.send (ascii "-ERR message disappeared")
      | some data =>
        let s := s.send (ascii "+OK " ++ decimal m.2 ++ ascii " octets")
        { s with out := s.out ++ [retrBody data] }

def handleDele (c : Pop3Config) (s : Connection) : List Bytes → Connection
  | [] => s.send (ascii "-ERR DELE requires argument")
  | arg :: _ => withMessage c s arg fun n m =>
      Connection.send { s with deleted := s.deleted ++ [n], marked := s.marked ++ [m.1] }
        (ascii "+OK message " ++ decimal n ++ ascii " marked")

def handleRset (s : Connection) : Connection :=
  Connection.send { s with deleted := [], marked := [] }
    (ascii "+OK " ++ decimal s.snapshot.length ++ ascii " messages")

/-- One command of the client. -/
def handle (c : Pop3Config) (stuck : List Path) (s : Connection) (cmd : Bytes)
    (args : List Bytes) : Connection :=
  if cmd = ascii "USER" then handleUser c s args
  else if cmd = ascii "PASS" then handlePass s
  else if cmd = ascii "CAPA" then handleCapa s
  else if cmd = ascii "QUIT" then handleQuit c stuck s
  else if ¬ s.authed then s.send (ascii "-ERR authenticate first")
  else if cmd = ascii "STAT" then handleStat s
  else if cmd = ascii "LIST" then handleList c s args
  else if cmd = ascii "UIDL" then handleUidl c s args
  else if cmd = ascii "RETR" ∨ cmd = ascii "TOP" then handleRetr c s cmd args
  else if cmd = ascii "DELE" then handleDele c s args
  else if cmd = ascii "RSET" then handleRset s
  else if cmd = ascii "NOOP" then s.send (ascii "+OK")
  else s.send (ascii "-ERR unknown command " ++ cmd)

/-- The next line of the client. -/
inductive Next
  /-- The end of the stream, or a line on which the handler fails: it is too long, or blank. -/
  | closed
  | empty (rest : Bytes)
  | command (cmd : Bytes) (args : List Bytes) (rest : Bytes)

def nextLine (py : Str) (input : Bytes) : Next :=
  match readline input with
  | none => .closed
  | some (line, rest) =>
    if line = [] then .closed
    else
      let cmdLine := (Utf8.lossy line).rdropWhile (· ∈ crlf)
      if cmdLine = [] then .empty rest
      else match py.split cmdLine with
        | [] => .closed
        | cmd :: args => .command (py.upper cmd) args rest

inductive Pop3Event
  /-- The next line is read and answered; the file system refuses to remove these files. -/
  | command (stuck : List Path)
  /-- The connection is lost: a reset, a timeout, an error of the handler. -/
  | lose
  /-- Others have changed the routes and files. -/
  | others (server : State)
  deriving DecidableEq

def pop3Step (c : Pop3Config) (s : Connection) : Pop3Event → Option Connection
  | .command stuck =>
    if ¬ s.alive then none
    else match nextLine c.py s.input with
      | .closed => some { s with alive := false }
      | .empty rest => some { s with input := rest }
      | .command cmd args rest => some (handle c stuck { s with input := rest } cmd args)
  | .lose => some { s with alive := false }
  | .others server => some { s with server := server }

/-! ## What a command does -/

/-- The messages, the marks and the server are the same. -/
structure Same (s t : Connection) : Prop where
  server : t.server = s.server
  snapshot : t.snapshot = s.snapshot
  deleted : t.deleted = s.deleted
  marked : t.marked = s.marked
  authed : s.authed → t.authed

theorem Same.refl (s : Connection) : Same s s := ⟨rfl, rfl, rfl, rfl, id⟩

theorem Same.send {s t : Connection} (h : Same s t) (line : Bytes) : Same s (t.send line) :=
  ⟨h.server, h.snapshot, h.deleted, h.marked, h.authed⟩

theorem Same.foldl_send {s t : Connection} (h : Same s t) (ls : List Bytes) :
    Same s (ls.foldl Connection.send t) := by
  induction ls generalizing t with
  | nil => exact h
  | cons l ls ih => exact ih (h.send l)

/-- What a command on a message does, when every message does it. -/
theorem withMessage_cases {P : Connection → Prop} {c : Pop3Config} {s : Connection} {arg : Bytes}
    {f : ℕ → Path × ℕ → Connection} (hs : ∀ line, P (s.send line))
    (hf : ∀ n m, 1 ≤ n → n ∉ s.deleted → s.snapshot[n - 1]? = some m → P (f n m)) :
    P (withMessage c s arg f) := by
  unfold withMessage
  cases c.int arg with
  | none => exact hs _
  | some n =>
    dsimp only
    split_ifs with h
    · exact hs _
    · rw [not_or, not_not] at h
      obtain ⟨⟨hn, hlen⟩, hdel⟩ := h
      have hlt : n.toNat - 1 < s.snapshot.length := by omega
      rw [List.getElem?_eq_getElem hlt]
      exact hf n.toNat _ (by omega) hdel (List.getElem?_eq_getElem hlt)

/-- A command does nothing to the messages, opens a mailbox, marks a message, unmarks all, or ends
the session. -/
inductive Does (c : Pop3Config) (stuck : List Path) (s : Connection) (cmd : Bytes) (args : List Bytes)
    (t : Connection) : Prop
  | nothing (hcmd : cmd ≠ ascii "QUIT") (same : Same s t)
  | user (arg : Bytes) (rest : List Bytes) (hcmd : cmd = ascii "USER") (hargs : args = arg :: rest)
      (same : Same { s with snapshot := listing s.server (c.py.lower arg) } t)
  | dele (n : ℕ) (m : Path × ℕ) (hcmd : cmd ≠ ascii "QUIT") (hauthed : s.authed)
      (hm : s.snapshot[n - 1]? = some m)
      (same : Same { s with deleted := s.deleted ++ [n], marked := s.marked ++ [m.1] } t)
  | rset (hcmd : cmd ≠ ascii "QUIT") (same : Same { s with deleted := [], marked := [] } t)
  | quit (hcmd : cmd = ascii "QUIT") (ht : t = handleQuit c stuck s)

theorem handle_does (c : Pop3Config) (stuck : List Path) (s : Connection) (cmd : Bytes)
    (args : List Bytes) : Does c stuck s cmd args (handle c stuck s cmd args) := by
  have hrefl := Same.refl s
  have hsend : cmd ≠ ascii "QUIT" → ∀ line, Does c stuck s cmd args (s.send line) :=
    fun hq line => .nothing hq (hrefl.send line)
  unfold handle
  refine iteInduction (fun h => ?_) fun _ => ?_
  · cases args with
    | nil => exact hsend (h ▸ by decide) _
    | cons arg rest => exact .user arg rest h rfl ⟨rfl, rfl, rfl, rfl, id⟩
  refine iteInduction (fun h => ?_) fun _ => ?_
  · have hq : cmd ≠ ascii "QUIT" := h ▸ by decide
    unfold handlePass
    cases s.mailbox with
    | none => exact hsend hq _
    | some m => exact .nothing hq ⟨rfl, rfl, rfl, rfl, fun _ => rfl⟩
  refine iteInduction (fun h => .nothing (h ▸ by decide) (hrefl.foldl_send _)) fun _ => ?_
  refine iteInduction (fun h => .quit h rfl) fun hq => ?_
  refine iteInduction (fun _ => hsend hq _) fun hauthed => ?_
  refine iteInduction (fun _ => hsend hq _) fun _ => ?_
  refine iteInduction (fun _ => ?_) fun _ => ?_
  · cases args with
    | nil => exact .nothing hq (((hrefl.send _).foldl_send _).send _)
    | cons arg rest =>
      rw [handleList]
      exact withMessage_cases (hsend hq) fun _ _ _ _ _ => hsend hq _
  refine iteInduction (fun _ => ?_) fun _ => ?_
  · cases args with
    | nil => exact .nothing hq (((hrefl.send _).foldl_send _).send _)
    | cons arg rest =>
      rw [handleUidl]
      exact withMessage_cases (hsend hq) fun _ _ _ _ _ => hsend hq _
  refine iteInduction (fun _ => ?_) fun _ => ?_
  · cases args with
    | nil => exact hsend hq _
    | cons arg rest =>
      rw [handleRetr]
      refine withMessage_cases (hsend hq) fun n m _ _ _ => ?_
      cases Table.get s.server.files m.1 with
      | none => exact hsend hq _
      | some data => exact .nothing hq ⟨rfl, rfl, rfl, rfl, id⟩
  refine iteInduction (fun _ => ?_) fun _ => ?_
  · cases args with
    | nil => exact hsend hq _
    | cons arg rest =>
      rw [handleDele]
      refine withMessage_cases (hsend hq) fun n m _ _ hm => ?_
      exact .dele n m hq (by simpa using hauthed) hm ((Same.refl _).send _)
  refine iteInduction (fun _ => .rset hq ((Same.refl _).send _)) fun _ => ?_
  exact iteInduction (fun _ => hsend hq _) fun _ => hsend hq _

/-! ## Marks -/

/-- The marks stand for the files that were marked, and only an authenticated client has marks. -/
structure Faithful (s : Connection) : Prop where
  files : ∀ f, f ∈ filesAt s.snapshot s.deleted ↔ f ∈ s.marked
  authed : s.deleted ≠ [] → s.authed

theorem Same.faithful {s t : Connection} (h : Same s t) (hs : Faithful s) : Faithful t where
  files f := by rw [h.snapshot, h.deleted, h.marked, hs.files]
  authed hd := h.authed (hs.authed (h.deleted ▸ hd))

/-- A USER finds the same files under the marked numbers. -/
def Steady (c : Pop3Config) (s : Connection) : Pop3Event → Prop
  | .command _ => match nextLine c.py s.input with
    | .command cmd (arg :: _) _ => cmd = ascii "USER" →
        filesAt (listing s.server (c.py.lower arg)) s.deleted ⊆ filesAt s.snapshot s.deleted ∧
        filesAt s.snapshot s.deleted ⊆ filesAt (listing s.server (c.py.lower arg)) s.deleted
    | _ => True
  | _ => True

theorem filesAt_append (snapshot : List (Path × ℕ)) (ns : List ℕ) {n : ℕ} {m : Path × ℕ}
    (h : snapshot[n - 1]? = some m) :
    filesAt snapshot (ns ++ [n]) = filesAt snapshot ns ++ [m.1] := by
  rw [filesAt, List.filterMap_append, filesAt]
  simp [h]

theorem faithful_step {c : Pop3Config} (s : Connection) (e : Pop3Event) (t : Connection)
    (hs : Faithful s) (hC : Steady c s e) (h : pop3Step c s e = some t) : Faithful t := by
  cases e with
  | lose =>
    obtain rfl := Option.some.inj h
    exact ⟨hs.files, hs.authed⟩
  | others server =>
    obtain rfl := Option.some.inj h
    exact ⟨hs.files, hs.authed⟩
  | command stuck =>
    simp only [pop3Step] at h
    split_ifs at h
    cases hn : nextLine c.py s.input with
    | closed =>
      rw [hn] at h
      obtain rfl := Option.some.inj h
      exact ⟨hs.files, hs.authed⟩
    | empty rest =>
      rw [hn] at h
      obtain rfl := Option.some.inj h
      exact ⟨hs.files, hs.authed⟩
    | command cmd args rest =>
      rw [hn] at h
      obtain rfl := Option.some.inj h
      have hs' : Faithful { s with input := rest } := ⟨hs.files, hs.authed⟩
      cases handle_does c stuck { s with input := rest } cmd args with
      | nothing hcmd same => exact same.faithful hs'
      | user arg more hcmd hargs same =>
        simp only [Steady, hn, hargs] at hC
        obtain ⟨hsub, hsup⟩ := hC hcmd
        refine same.faithful ⟨fun f => ?_, hs.authed⟩
        rw [← hs.files]
        exact ⟨fun hf => hsub hf, fun hf => hsup hf⟩
      | dele n m hcmd hauthed hm same =>
        refine same.faithful ⟨fun f => ?_, fun _ => hauthed⟩
        dsimp only
        rw [filesAt_append _ _ hm, List.mem_append, List.mem_append, hs'.files]
      | rset hcmd same => exact same.faithful ⟨fun f => by simp [filesAt], fun hd => absurd rfl hd⟩
      | quit hcmd ht =>
        rw [ht]
        exact ⟨hs.files, hs.authed⟩

/-- The next line of the client is QUIT. -/
def Quits (c : Pop3Config) (s : Connection) : Prop :=
  ∃ args rest, nextLine c.py s.input = .command (ascii "QUIT") args rest

/-- In every run of a connection in which every USER finds the same files under the marked numbers:
QUIT unlinks the files whose DELE was answered +OK and that no RSET has unmarked since, and no
other; and no other command and no loss of the connection changes anything on the server. -/
theorem quit_unlinks {c : Pop3Config} {server : State} {input : Bytes} {es : List Pop3Event}
    {t : Connection} (hC : Along (pop3Step c) (Steady c) (connected c server input) es)
    (h : run (pop3Step c) (connected c server input) es = some t) :
    (∀ stuck u, pop3Step c t (.command stuck) = some u →
      (Quits c t → u.server = quitServer c stuck t ∧ ∀ f,
        Table.get (unlinked stuck t).files f =
          if f ∈ t.marked ∧ f ∉ stuck then none else Table.get t.server.files f) ∧
      (¬ Quits c t → u.server = t.server)) ∧
    ∀ u, pop3Step c t .lose = some u → u.server = t.server := by
  have ht : Faithful t := run_invariant faithful_step ⟨fun f => Iff.rfl, fun h => absurd rfl h⟩ hC h
  refine ⟨fun stuck u hu => ⟨?_, fun hquit => ?_⟩, fun u hu => ?_⟩
  · rintro ⟨args, rest, hn⟩
    simp only [pop3Step, hn] at hu
    split_ifs at hu
    refine ⟨?_, fun f => ?_⟩
    · obtain rfl := Option.some.inj hu
      cases handle_does c stuck { t with input := rest } (ascii "QUIT") args with
      | nothing hcmd _ => exact absurd rfl hcmd
      | user _ _ hcmd => exact absurd hcmd (by decide)
      | dele _ _ hcmd => exact absurd rfl hcmd
      | rset hcmd _ => exact absurd rfl hcmd
      | quit _ hu =>
        rw [hu]
        rfl
    · simp [unlinked, Table.get_foldl_del, ht.files]
  · simp only [pop3Step] at hu
    split_ifs at hu
    cases hn : nextLine c.py t.input with
    | closed =>
      rw [hn] at hu
      rw [← Option.some.inj hu]
    | empty rest =>
      rw [hn] at hu
      rw [← Option.some.inj hu]
    | command cmd args rest =>
      rw [hn] at hu
      rw [← Option.some.inj hu]
      cases handle_does c stuck { t with input := rest } cmd args with
      | nothing _ same => exact same.server
      | user _ _ _ _ same => exact same.server
      | dele _ _ _ _ _ same => exact same.server
      | rset _ same => exact same.server
      | quit hcmd _ => exact absurd ⟨args, rest, hcmd ▸ hn⟩ hquit
  · rw [← Option.some.inj hu]

instance (c : Pop3Config) (s : Connection) (e : Pop3Event) : Decidable (Steady c s e) := by
  unfold Steady
  split
  · split <;> infer_instance
  · infer_instance

def pop3Config : Pop3Config where
  toConfig := ⟨asciiStr, [ascii "env"], [ascii "axiom"]⟩
  hostname := ascii "host"
  int t := (parseUsize t).map Int.ofNat

/-- Two mailboxes with a message each. -/
def twoMailboxes : State :=
  ⟨[(ascii "a@axiom", [ascii "a"]), (ascii "b@axiom", [ascii "b"])],
    [([ascii "a", ascii "new", ascii "1"], ascii "x"), ([ascii "b", ascii "new", ascii "1"], ascii "y")],
    []⟩

/-- A client looks into its mailbox twice before it removes a message. -/
theorem quit_unlinks_same :
    ∃ t u, run (pop3Step pop3Config) (connected pop3Config twoMailboxes (ascii
        "USER a@axiom\r\nPASS x\r\nDELE 1\r\nRSET\r\nDELE 1\r\nUSER A@axiom\r\nQUIT\r\n"))
        (List.replicate 6 (.command [])) = some t ∧
      pop3Step pop3Config t (.command []) = some u ∧ t.marked = [[ascii "a", ascii "new", ascii "1"]] ∧
      ∀ f, Table.get (unlinked [] t).files f =
        if f ∈ t.marked ∧ f ∉ ([] : List Path) then none else Table.get t.server.files f := by
  have hr : (run (pop3Step pop3Config) (connected pop3Config twoMailboxes (ascii
      "USER a@axiom\r\nPASS x\r\nDELE 1\r\nRSET\r\nDELE 1\r\nUSER A@axiom\r\nQUIT\r\n"))
      (List.replicate 6 (.command []))).map
        (fun t => (t.marked, t.input, (pop3Step pop3Config t (.command [])).isSome)) =
      some ([[ascii "a", ascii "new", ascii "1"]], ascii "QUIT\r\n", true) := by decide +kernel
  obtain ⟨t, ht, hx⟩ := Option.map_eq_some_iff.1 hr
  simp only [Prod.mk.injEq] at hx
  obtain ⟨hmarked, hinput, hsome⟩ := hx
  obtain ⟨u, hu⟩ := Option.isSome_iff_exists.1 hsome
  have hquit : Quits pop3Config t := ⟨[], [], by rw [hinput]; rfl⟩
  exact ⟨t, u, ht, hu, hmarked, (((quit_unlinks (by decide +kernel) ht).1 [] u hu).1 hquit).2⟩

/-- A client marks a message and opens another mailbox: QUIT unlinks the message of the other
one. -/
theorem quit_unlinks_other :
    ∃ t, run (pop3Step pop3Config) (connected pop3Config twoMailboxes (ascii
        "USER a@axiom\r\nPASS x\r\nDELE 1\r\nUSER b@axiom\r\nQUIT\r\n"))
        (List.replicate 5 (.command [])) = some t ∧
      t.marked = [[ascii "a", ascii "new", ascii "1"]] ∧
      Table.get t.server.files [ascii "a", ascii "new", ascii "1"] = some (ascii "x") ∧
      Table.get t.server.files [ascii "b", ascii "new", ascii "1"] = none := by
  have hr : (run (pop3Step pop3Config) (connected pop3Config twoMailboxes (ascii
      "USER a@axiom\r\nPASS x\r\nDELE 1\r\nUSER b@axiom\r\nQUIT\r\n"))
      (List.replicate 5 (.command []))).map (fun t => (t.marked, t.server.files)) =
      some ([[ascii "a", ascii "new", ascii "1"]], [([ascii "a", ascii "new", ascii "1"], ascii "x")]) := by
    decide +kernel
  obtain ⟨t, ht, hx⟩ := Option.map_eq_some_iff.1 hr
  simp only [Prod.mk.injEq] at hx
  obtain ⟨hmarked, hfiles⟩ := hx
  exact ⟨t, ht, hmarked, by rw [hfiles]; decide, by rw [hfiles]; decide⟩

end Fatmama.Pop3
