import AxiomCarriers.Lib.Run
import AxiomCarriers.Lib.Separator
import AxiomCarriers.Lib.Text
import AxiomCarriers.Tot.Intake
import AxiomCarriers.Tot.RateLimiter
import AxiomCarriers.Tot.Stamp
import AxiomCarriers.Tot.Tunnel
import Mathlib.Logic.Function.Basic

/-!
# The server of TOT

`serve` handles any number of connections side by side.  Four bytes tell a raw frame from a
WebSocket, the path of its handshake tells the legs apart, and the frames and the messages of two
legs are written to the one inbox, by steps on its files that interleave, under names of one
counter.  ANTIE takes the files away meanwhile.

The names are distinct as long as the process lives (`uniqueName_seq`).
-/

namespace Tot.Server

open Bytes Text Runs Separator
open Tunnel (Message)

abbrev Name := Bytes

/-! ## Routes and names -/

inductive Route
  | intake
  | session
  | nabla (idx : ℕ)
  | fatmama (idx : ℕ)
  deriving DecidableEq

/-- `Route::parse`, with the feature `dev-fatmama` or without. -/
def Route.parse (devFatmama : Bool) (path : Bytes) : Option Route :=
  if path = ascii "/intake" then some .intake
  else if path = ascii "/session" then some .session
  else match (ascii "/nabla/").isPrefixOf? path with
    | some idx => (parseUsize idx).map .nabla
    | none =>
      if devFatmama then ((ascii "/fatmama/").isPrefixOf? path).bind fun idx =>
        (parseUsize idx).map .fatmama
      else none

/-- `unique_name`: the time, the counter of the process and its id. -/
def uniqueName (secs nanos seq pid : ℕ) : Name :=
  decimal secs ++ 46 :: (decimal nanos ++ 46 :: (ascii "M" ++ decimal seq ++ ascii "P" ++
    decimal pid ++ ascii ".tot"))

/-- What the process is started with; `fatmama` is compiled out or a list of nodes, and `debug` is
how a path is printed. -/
structure Setup where
  cfg : Config
  custodyOutbox : Bool
  intakeMaxMsgsPerSec : ℕ
  fatmama : Option (List NablaNode)
  pid : ℕ
  debug : Bytes → String

/-! ## Connections -/

/-- Where a file of the inbox comes from. -/
inductive Origin
  | tcp
  | intake
  | session (id : SessionId)
  deriving DecidableEq

/-- A frame or message that was admitted: its connection and origin, when the limiter was asked,
what the client has sent, and what is to be written. -/
structure Entry where
  conn : ℕ
  origin : Origin
  time : ℕ
  sent : Bytes
  bytes : Bytes
  deriving DecidableEq

/-- The steps of `Inbox::deliver`: before its name is drawn, before its file in `tmp/` is created,
with so many bytes written, synced, and renamed. -/
inductive Stage
  | begin
  | create (name : Name)
  | write (name : Name) (n : ℕ)
  | rename (name : Name)
  | sync (name : Name)
  deriving DecidableEq

inductive Task
  /-- Not accepted yet. -/
  | idle
  /-- The four bytes that tell the legs apart. -/
  | head
  | handshake
  | frame (len : ℕ)
  | waiting (origin : Origin)
  | delivering (e : Entry) (stage : Stage)
  | tunnel (node : NablaNode)
  | ended (result : Except String Unit)
  deriving DecidableEq

/-- A connection, with its limiter; the calls of the limiter, and what was received from the client
in frames and binary messages. -/
structure Conn where
  task : Task
  created : ℕ
  limiter : RateLimiter
  calls : List ℕ
  received : List Bytes
  deriving DecidableEq

/-- The server, and what has happened: the entries in the order they were admitted, the names drawn,
the files renamed into `new/`, the files ANTIE has taken, and the nodes dialled. -/
structure State where
  conns : ℕ → Conn
  inbox : Inbox
  seq : ℕ
  log : List Entry
  issued : List (Name × Entry)
  published : List (Name × Entry)
  taken : List (Name × Bytes)
  dialled : List NablaNode

def idleConn (c : Setup) : Conn := ⟨.idle, 0, .new c.intakeMaxMsgsPerSec 0, [], []⟩

/-- The process has opened its inbox, which may have files. -/
def started (c : Setup) (inbox : Inbox) : State :=
  ⟨fun _ => idleConn c, inbox, 0, [], [], [], [], []⟩

def State.setConn (s : State) (k : ℕ) (c : Conn) : State :=
  { s with conns := Function.update s.conns k c }

def State.setTask (s : State) (k : ℕ) (t : Task) : State :=
  s.setConn k { s.conns k with task := t }

/-- The entry is handed to `deliver`. -/
def State.enter (s : State) (k : ℕ) (c : Conn) (e : Entry) : State :=
  { s.setConn k { c with task := .delivering e .begin } with log := s.log ++ [e] }

/-- How an operation on the inbox goes: it works, it writes so many bytes, or it fails; a file in
`tmp/` that cannot be renamed is removed if that works. -/
inductive Io
  | ok
  | wrote (n : ℕ)
  | err (e : String) (removed : Bool)
  deriving DecidableEq

inductive Event
  | accept (k : ℕ)
  /-- The first four bytes have come. -/
  | head (k : ℕ) (bytes : Bytes)
  /-- The handshake is done: its path, random bytes, the clock, and whether the session directory
  can be created. -/
  | upgraded (k : ℕ) (path : Bytes) (random : Bytes) (now : ℕ) (dir : Bool)
  /-- The body of the frame has come. -/
  | body (k : ℕ) (bytes : Bytes)
  | message (k : ℕ) (m : Message) (now : ℕ)
  /-- The stream has ended. -/
  | closed (k : ℕ)
  /-- The connection fails, or the node of a tunnel, or the replies of a session. -/
  | fails (k : ℕ) (e : String)
  /-- `unique_name` at this time. -/
  | draw (k secs nanos : ℕ)
  /-- The next operation on the inbox. -/
  | io (k : ℕ) (result : Io)
  /-- ANTIE takes a file out of `new/`. -/
  | take (name : Name)
  deriving DecidableEq

/-- `handle_conn` after the four bytes. -/
def onHead (c : Setup) (s : State) (k : ℕ) (bytes : Bytes) : State :=
  if bytes = ascii "GET " then s.setTask k .handshake
  else
    let len := Frame.ofLe bytes
    if len = 0 then s.setTask k (.ended (.error "tcp intake: zero-length frame"))
    else if c.cfg.maxMessageBytes < len then
      s.setTask k (.ended (.error ("tcp intake frame " ++ toString len ++ " bytes exceeds cap " ++
        toString c.cfg.maxMessageBytes)))
    else s.setTask k (.frame len)

/-- A node of a list is dialled. -/
def dial (s : State) (k : ℕ) (name : String) (nodes : List NablaNode) (idx : ℕ) (set : String) :
    State :=
  match nodes[idx]? with
  | some node => { s.setTask k (.tunnel node) with dialled := s.dialled ++ [node] }
  | none => s.setTask k (.ended (.error (name ++ " index " ++ toString idx ++ " outside the " ++
      set ++ " set (0.." ++ toString nodes.length ++ ")")))

/-- `websocket_conn` after the handshake, and the begin of the leg. -/
def onUpgraded (c : Setup) (s : State) (k : ℕ) (path random : Bytes) (now : ℕ) (dir : Bool) :
    State :=
  let waiting (o : Origin) : State := s.setConn k { s.conns k with
    task := .waiting o
    created := now
    limiter := .new c.intakeMaxMsgsPerSec now
    calls := [] }
  match Route.parse c.fatmama.isSome path with
  | some .intake => waiting .intake
  | some .session =>
    if h : random.length = 32 then
      if ¬ c.custodyOutbox then
        s.setTask k (.ended (.error
          "session route requires custody_outbox in tot config — refusing"))
      else if ¬ dir then s.setTask k (.ended (.error "session dir"))
      else waiting (.session (.mint random h))
    else s.setTask k (.ended (.error "session id entropy"))
  | some (.nabla idx) => dial s k "nabla" c.cfg.nabla idx "attested"
  | some (.fatmama idx) => dial s k "fatmama" (c.fatmama.getD []) idx "configured"
  | none => s.setTask k (.ended (.error ("unknown route " ++ c.debug path)))

def Origin.leg : Origin → String
  | .session _ => "session"
  | _ => "intake"

/-- What is written for a message of the leg. -/
def Origin.content (o : Origin) (bytes : Bytes) : Except String Bytes :=
  match o with
  | .session id => stampSession bytes id
  | _ => .ok bytes

/-- `intake_leg` and `session_leg` on a binary message. -/
def onBinary (c : Setup) (s : State) (k : ℕ) (o : Origin) (bytes : Bytes) (now : ℕ) : State :=
  let conn := { s.conns k with received := (s.conns k).received ++ [bytes] }
  if c.cfg.maxMessageBytes < bytes.length then
    s.setConn k { conn with task := .ended (.error (o.leg ++ " message " ++
      toString bytes.length ++ " bytes exceeds cap " ++ toString c.cfg.maxMessageBytes)) }
  else
    let conn := { conn with calls := conn.calls ++ [now], limiter := (conn.limiter.allow now).2 }
    if ¬ ((s.conns k).limiter.allow now).1 then
      s.setConn k { conn with task := .ended (.error (o.leg ++ " rate limit exceeded")) }
    else match o.content bytes with
      | .ok out => s.enter k conn ⟨k, o, now, bytes, out⟩
      | .error e => s.setConn k { conn with task := .ended (.error e) }

/-- The file has a name from now on. -/
def onDraw (c : Setup) (s : State) (k : ℕ) (e : Entry) (secs nanos : ℕ) : State :=
  let name := uniqueName secs nanos s.seq c.pid
  { s.setTask k (.delivering e (.create name)) with
    seq := s.seq + 1
    issued := s.issued ++ [(name, e)] }

/-- A file is written to `tmp/`. -/
def State.putTmp (s : State) (name : Name) (bytes : Bytes) : State :=
  { s with inbox := { s.inbox with tmp := Table.put s.inbox.tmp name bytes } }

/-- The next operation of `Inbox::deliver`; `rename` moves what is in `tmp/` under the name. -/
def onIo (s : State) (k : ℕ) (e : Entry) : Stage → Io → Option State
  | .create name, .ok => some ((s.putTmp name []).setTask k (.delivering e (.write name 0)))
  | .write name n, .wrote m =>
    if 0 < m ∧ n + m ≤ e.bytes.length then
      some ((s.putTmp name (e.bytes.take (n + m))).setTask k (.delivering e (.write name (n + m))))
    else none
  | .write name n, .ok =>
    if n = e.bytes.length then some (s.setTask k (.delivering e (.rename name))) else none
  | .rename name, .ok =>
    (Table.get s.inbox.tmp name).map fun bytes =>
      { s.setTask k (.delivering e (.sync name)) with
        inbox := s.inbox.received name bytes
        published := s.published ++ [(name, e)] }
  | .sync _, .ok =>
    some (s.setTask k (if e.origin = .tcp then .ended (.ok ()) else .waiting e.origin))
  | .rename name, .err text removed =>
    some ({ s with inbox := { s.inbox with
      tmp := if removed then Table.del s.inbox.tmp name else s.inbox.tmp } }.setTask k
        (.ended (.error ("maildir deliver: " ++ text))))
  | .create _, .err text _ | .write _ _, .err text _ | .sync _, .err text _ =>
    some (s.setTask k (.ended (.error ("maildir deliver: " ++ text))))
  | .begin, _ | .create _, .wrote _ | .rename _, .wrote _ | .sync _, .wrote _ => none

def step (c : Setup) (s : State) : Event → Option State
  | .accept k => if (s.conns k).task = .idle then some (s.setTask k .head) else none
  | .head k bytes =>
    if (s.conns k).task = .head ∧ bytes.length = 4 then some (onHead c s k bytes) else none
  | .upgraded k path random now dir =>
    if (s.conns k).task = .handshake then some (onUpgraded c s k path random now dir) else none
  | .body k bytes =>
    match (s.conns k).task with
    | .frame len =>
      if bytes.length = len then
        some (s.enter k { s.conns k with received := (s.conns k).received ++ [bytes] }
          ⟨k, .tcp, 0, bytes, bytes⟩)
      else none
    | _ => none
  | .message k m now =>
    match (s.conns k).task, m with
    | .waiting o, .binary bytes => some (onBinary c s k o bytes now)
    | .waiting _, .other => some s
    | .waiting _, .close => some (s.setTask k (.ended (.ok ())))
    | _, _ => none
  | .closed k =>
    match (s.conns k).task with
    | .waiting _ | .tunnel _ => some (s.setTask k (.ended (.ok ())))
    | _ => none
  | .fails k e =>
    match (s.conns k).task with
    | .head | .handshake | .frame _ | .waiting _ | .tunnel _ =>
      some (s.setTask k (.ended (.error e)))
    | _ => none
  | .draw k secs nanos =>
    match (s.conns k).task with
    | .delivering e .begin => some (onDraw c s k e secs nanos)
    | _ => none
  | .io k result =>
    match (s.conns k).task with
    | .delivering e stage => onIo s k e stage result
    | _ => none
  | .take name =>
    (Table.get s.inbox.new name).map fun bytes => { s with
      inbox := { s.inbox with new := Table.del s.inbox.new name }
      taken := s.taken ++ [(name, bytes)] }

/-! ## Names -/

/-- Names of one process with different counters differ, whatever the clock says. -/
theorem uniqueName_seq {secs nanos seq secs' nanos' seq' pid : ℕ}
    (h : uniqueName secs nanos seq pid = uniqueName secs' nanos' seq' pid) : seq = seq' := by
  obtain ⟨-, h⟩ :=
    append_cons_inj (notMem_decimal (by decide) secs) (notMem_decimal (by decide) secs') h
  obtain ⟨-, h⟩ :=
    append_cons_inj (notMem_decimal (by decide) nanos) (notMem_decimal (by decide) nanos') h
  have hP : ∀ n, ascii "M" ++ decimal n ++ ascii "P" ++ decimal pid ++ ascii ".tot" =
      77 :: (decimal n ++ 80 :: (decimal pid ++ ascii ".tot")) := fun n => by
    simp only [List.append_assoc]
    rfl
  rw [hP, hP] at h
  have htail := (List.cons.inj h).2
  have hseq :=
    append_cons_inj (notMem_decimal (by decide) seq) (notMem_decimal (by decide) seq') htail
  exact decimal_inj hseq.1

end Tot.Server
