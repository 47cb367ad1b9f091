import AxiomCarriers.Lib.Frame
import AxiomCarriers.Lib.Table
import AxiomCarriers.Tot.PrefixedStream

/-!
# The raw-TCP intake of TOT

`handle_conn` (`tot/src/main.rs`) reads four bytes and takes the connection for a WebSocket
handshake if they spell `GET `, and for the length of an intake frame otherwise.  An intake frame
is written to the inbox as one message.

`handleConn_frame` says where a connection that sends a frame ends up.  The four bytes spell `GET `
for one length, `getLength`, and the configuration check does not keep the cap below it.
-/

namespace Tot

open Bytes Frame Reader

/-! ## Configuration -/

structure NablaNode where
  name : String
  addr : String
  deriving DecidableEq

structure Config where
  nabla : List NablaNode
  maxMessageBytes : ℕ
  deriving DecidableEq

def defaultMaxMessageBytes : ℕ := 256 * 1024

def Config.validate (cfg : Config) : Except String Unit :=
  if cfg.nabla = [] then .error "config: [[nabla]] is empty — no attested Nabla nodes"
  else if cfg.maxMessageBytes = 0 then
    .error "config: max_message_bytes must be greater than 0"
  else .ok ()

/-! ## The inbox -/

/-- The files of `tmp/` and `new/`, by their names. -/
structure Inbox where
  tmp : List (Bytes × Bytes)
  new : List (Bytes × Bytes)
  deriving DecidableEq

/-- The operation of `deliver` that fails. -/
inductive Fault
  | create
  /-- Only so many bytes get into the file, or it cannot be synced. -/
  | write (n : ℕ)
  /-- The rename fails, and the file in `tmp/` is removed if that works. -/
  | rename (removed : Bool)
  /-- `new/` cannot be synced. -/
  | syncNew
  deriving DecidableEq

/-- The message is in `new/` under the name. -/
def Inbox.received (inbox : Inbox) (name bytes : Bytes) : Inbox :=
  ⟨Table.del inbox.tmp name, Table.put inbox.new name bytes⟩

/-- `Inbox::deliver` under the name of `unique_name`; a fault comes with its text. -/
def Inbox.deliver (inbox : Inbox) (name bytes : Bytes) :
    Option (Fault × String) → Except String Unit × Inbox
  | some (.create, e) => (.error e, inbox)
  | some (.write n, e) => (.error e, { inbox with tmp := Table.put inbox.tmp name (bytes.take n) })
  | some (.rename removed, e) =>
    (.error e,
      { inbox with
        tmp := if removed then Table.del inbox.tmp name else Table.put inbox.tmp name bytes })
  | some (.syncNew, e) => (.error e, inbox.received name bytes)
  | none => (.ok (), inbox.received name bytes)

/-! ## A connection -/

/-- What becomes of a connection: it goes on as a WebSocket, or `handle_conn` has ended. -/
inductive Served
  | websocket (stream : PrefixedStream (List Bytes))
  | ended (result : Except String Unit)

/-- `tcp_intake_leg` on what is left of the stream. -/
def tcpIntakeLeg (sock : List Bytes) (lenPrefix : Bytes) (maxMessageBytes : ℕ) (inbox : Inbox)
    (name : Bytes) (fault : Option (Fault × String)) : Except String Unit × Inbox :=
  let len := ofLe lenPrefix
  if len = 0 then (.error "tcp intake: zero-length frame", inbox)
  else if maxMessageBytes < len then
    (.error ("tcp intake frame " ++ toString len ++ " bytes exceeds cap " ++
      toString maxMessageBytes), inbox)
  else
    match readExact len sock with
    | none => (.error "tcp intake read body: early eof", inbox)
    | some (body, _) =>
      let (result, inbox) := inbox.deliver name body fault
      (result.mapError ("maildir deliver: " ++ ·), inbox)

/-- `handle_conn` on a stream that comes in these chunks. -/
def handleConn (cfg : Config) (sock : List Bytes) (inbox : Inbox) (name : Bytes)
    (fault : Option (Fault × String)) : Served × Inbox :=
  match readExact 4 sock with
  | none => (.ended (.error "read demux head: early eof"), inbox)
  | some (head, sock) =>
    if head = ascii "GET " then (.websocket (PrefixedStream.new head sock), inbox)
    else
      let (result, inbox) := tcpIntakeLeg sock head cfg.maxMessageBytes inbox name fault
      (.ended result, inbox)

/-- The length of which the four bytes are `GET `. -/
def getLength : ℕ := 542393671

theorem le32_eq_get_iff {n : ℕ} (h : n < 2 ^ 32) : le32 n = ascii "GET " ↔ n = getLength := by
  constructor
  · intro hget
    have := congrArg ofLe hget
    rwa [ofLe_le32 h] at this
  · rintro rfl
    decide

/-- The parser of the handshake sees the whole stream. -/
theorem handleConn_get {sock : List Bytes} {rest : Bytes}
    (hsock : sock.flatten = ascii "GET " ++ rest) (cfg : Config) (inbox : Inbox) (name : Bytes)
    (fault : Option (Fault × String)) :
    ∃ sock', handleConn cfg sock inbox name fault =
        (.websocket (PrefixedStream.new (ascii "GET ") sock'), inbox) ∧
      (PrefixedStream.new (ascii "GET ") sock').content
        (fun cs => (cs.flatten : Stream'.Seq UInt8)) = (sock.flatten : Stream'.Seq UInt8) := by
  obtain ⟨sock', hread, hrest⟩ := readExact_of_flatten hsock
  refine ⟨sock', ?_, ?_⟩
  · rw [handleConn, show 4 = (ascii "GET ").length from rfl, hread]
    exact if_pos rfl
  · rw [hsock, Stream'.Seq.ofList_append, ← hrest]
    rfl

theorem tcpIntakeLeg_frame {cfg : Config} {body rest : Bytes} {sock : List Bytes}
    (hpos : 0 < body.length) (hmax : body.length ≤ cfg.maxMessageBytes) (h32 : body.length < 2 ^ 32)
    (hsock : sock.flatten = body ++ rest) (inbox : Inbox) (name : Bytes) :
    tcpIntakeLeg sock (le32 body.length) cfg.maxMessageBytes inbox name none =
      (.ok (), inbox.received name body) := by
  obtain ⟨sock', hread, -⟩ := readExact_of_flatten hsock
  simp only [tcpIntakeLeg, ofLe_le32 h32]
  rw [if_neg hpos.ne', if_neg (Nat.not_lt.2 hmax), hread]
  rfl

/-- A connection that sends a frame of an accepted length. -/
theorem handleConn_frame {cfg : Config} {body rest : Bytes} {sock : List Bytes}
    (hpos : 0 < body.length) (hmax : body.length ≤ cfg.maxMessageBytes) (h32 : body.length < 2 ^ 32)
    (hsock : sock.flatten = le32 body.length ++ (body ++ rest)) (inbox : Inbox) (name : Bytes) :
    ∃ sock', handleConn cfg sock inbox name none =
      if body.length = getLength then
        (.websocket (PrefixedStream.new (ascii "GET ") sock'), inbox)
      else (.ended (.ok ()), inbox.received name body) := by
  split
  · rename_i hget
    rw [(le32_eq_get_iff h32).2 hget] at hsock
    obtain ⟨sock', hserved, -⟩ := handleConn_get hsock cfg inbox name none
    exact ⟨sock', hserved⟩
  · rename_i hget
    obtain ⟨sock', hread, hrest⟩ := readExact_of_flatten hsock
    refine ⟨sock', ?_⟩
    rw [length_le32] at hread
    rw [handleConn, hread]
    simp only [(le32_eq_get_iff h32).not.2 hget, if_false,
      tcpIntakeLeg_frame hpos hmax h32 hrest inbox name]

/-- A frame of zeros of that length is taken for a handshake. -/
theorem handleConn_get_ne {cfg : Config} (hcap : getLength ≤ cfg.maxMessageBytes) (inbox : Inbox)
    (name : Bytes) :
    handleConn cfg [le32 getLength ++ List.replicate getLength 0] inbox name none ≠
      (.ended (.ok ()), inbox.received name (List.replicate getLength 0)) := by
  have hlen : (List.replicate getLength (0 : UInt8)).length = getLength := List.length_replicate
  have hpos : 0 < getLength := by decide
  have h32 : getLength < 2 ^ 32 := by decide
  have hflat : [le32 getLength ++ List.replicate getLength (0 : UInt8)].flatten =
      le32 (List.replicate getLength (0 : UInt8)).length ++
        (List.replicate getLength (0 : UInt8) ++ []) := by
    rw [hlen, List.append_nil, List.flatten_singleton]
  obtain ⟨sock', hserved⟩ := handleConn_frame (by rwa [hlen]) (by rwa [hlen])
    (by rwa [hlen]) hflat inbox name
  rw [hserved, if_pos hlen]
  exact fun h => by cases h

/-- Every frame within the cap gets into the inbox. -/
def Config.Complete (cfg : Config) : Prop :=
  ∀ (body rest : Bytes) (sock : List Bytes) (inbox : Inbox) (name : Bytes),
    0 < body.length → body.length ≤ cfg.maxMessageBytes → body.length < 2 ^ 32 →
    sock.flatten = le32 body.length ++ (body ++ rest) →
    handleConn cfg sock inbox name none = (.ended (.ok ()), inbox.received name body)

/-- The caps that keep lengths and handshakes apart. -/
theorem Config.complete_iff (cfg : Config) : cfg.Complete ↔ cfg.maxMessageBytes < getLength := by
  constructor
  · intro h
    by_contra hcap
    have hlen : (List.replicate getLength (0 : UInt8)).length = getLength := List.length_replicate
    refine handleConn_get_ne (Nat.le_of_not_lt hcap) ⟨[], []⟩ [] (h _ [] _ _ _ ?_ ?_ ?_ ?_)
    · rw [hlen]
      decide
    · rw [hlen]
      exact Nat.le_of_not_lt hcap
    · rw [hlen]
      decide
    · rw [hlen, List.append_nil, List.flatten_singleton]
  · intro hcap body rest sock inbox name hpos hmax h32 hsock
    obtain ⟨sock', hserved⟩ := handleConn_frame hpos hmax h32 hsock inbox name
    rw [hserved, if_neg (by omega)]

/-- A frame is one message of the inbox if and only if its length does not spell `GET `. -/
theorem intake_delivered_iff (cfg : Config) (body rest : Bytes) (sock : List Bytes)
    (hpos : 0 < body.length) (hmax : body.length ≤ cfg.maxMessageBytes) (h32 : body.length < 2 ^ 32)
    (hsock : sock.flatten = le32 body.length ++ (body ++ rest)) (inbox : Inbox) (name : Bytes) :
    handleConn cfg sock inbox name none = (.ended (.ok ()), inbox.received name body) ↔
      body.length ≠ 542393671 := by
  obtain ⟨sock', hserved⟩ := handleConn_frame hpos hmax h32 hsock inbox name
  rw [hserved, getLength]
  split
  · rename_i hget
    simp [hget]
  · rename_i hget
    simp [hget]

/-- A configuration with the default cap. -/
def sampleConfig : Config := ⟨[⟨"n0", "10.0.0.1:6000"⟩], defaultMaxMessageBytes⟩

theorem intake_delivered_iff_five :
    handleConn sampleConfig [[5], [0, 0], [0] ++ ascii "ax", ascii "iom"] ⟨[], []⟩ (ascii "1.tot")
      none = (.ended (.ok ()), Inbox.received ⟨[], []⟩ (ascii "1.tot") (ascii "axiom")) :=
  (intake_delivered_iff sampleConfig (ascii "axiom") []
    [[5], [0, 0], [0] ++ ascii "ax", ascii "iom"] (by decide) (by decide) (by decide) (by decide)
    ⟨[], []⟩ (ascii "1.tot")).2 (by decide)

/-- With a cap of a gigabyte, which the configuration check lets through, a frame of zeros of that
length is taken for a handshake. -/
theorem get_frame_not_delivered :
    Config.validate ⟨[⟨"n0", "10.0.0.1:6000"⟩], 1073741824⟩ = .ok () ∧
    (List.replicate 542393671 (0 : UInt8)).length ≤ 1073741824 ∧
    handleConn ⟨[⟨"n0", "10.0.0.1:6000"⟩], 1073741824⟩
        [le32 542393671 ++ List.replicate 542393671 0] ⟨[], []⟩ (ascii "1.tot") none ≠
      (.ended (.ok ()),
        Inbox.received ⟨[], []⟩ (ascii "1.tot") (List.replicate 542393671 0)) := by
  refine ⟨by decide, ?_, handleConn_get_ne (by decide) ⟨[], []⟩ (ascii "1.tot")⟩
  rw [List.length_replicate]
  decide

end Tot
