import AxiomCarriers.Lib.Frame

/-!
# The TCP exchange with Lambda

In TCP mode every call of `LambdaClient` opens a connection of its own, writes one request frame and
reads one reply frame.  Only `sendWitnessRequest` takes the connector and the server name out of the
mode and writes through the TLS session; the other calls write to the TCP stream
(`send_tls_iff`).  Every byte written is recorded with the channel it went through.
-/

namespace Antie.LambdaTcp

open Bytes Frame

/-- The variants of `AntieError` that a call returns by itself. -/
inductive AntieError
  | lambdaError (msg : Bytes)
  | ioError
  deriving DecidableEq

/-- The mode `LambdaMode::Tcp`; `κ` is the type of TLS connectors. -/
structure Tcp (κ : Type) where
  timeout : ℕ
  tlsConnector : Option κ
  tlsServerName : Option Bytes

/-- What the network and the server at the client's address do during a call. -/
structure Net (κ : Type) where
  /-- The seconds until the connection is there or has failed, and the error's text. -/
  connect : ℕ × Except Bytes Unit
  handshake : κ → Bytes → Except Bytes Unit
  /-- The bytes that can be written before a write fails, if one does. -/
  room : Option ℕ
  /-- What the server sends before it closes. -/
  reply : Bytes

inductive Channel
  | tcp
  | tls
  deriving DecidableEq

/-- The bytes a call has written, with their channels, and its result. -/
abbrev Outcome (α : Type) := List (Channel × UInt8) × Except AntieError α

/-- The functions that send a request. -/
inductive Kind
  | witness
  | redeem
  | ack
  | genesis
  /-- Set carriers, the VBC requests, the auth hash, fan-out, peer audit, query and status. -/
  | raw
  | health
  deriving DecidableEq

section

variable {κ ρ : Type}

/-- `TcpStream::connect` under the client's timeout. -/
def connectTimed (client : Tcp κ) (net : Net κ) : Except AntieError Unit :=
  if client.timeout < net.connect.1 then .error (.lambdaError (ascii "Connection timeout"))
  else net.connect.2.mapError fun e => .lambdaError (ascii "Connect failed: " ++ e)

/-- The largest reply that is accepted: 10 MiB. -/
def maxReply : ℕ := 10 * 1024 * 1024

/-- Reads the reply frame, with or without a look at its length. -/
def readFrame (limited : Bool) (reply : Bytes) : Except AntieError Bytes :=
  if reply.length < 4 then .error .ioError
  else if limited ∧ maxReply < announced reply then
    .error (.lambdaError (ascii "Response too large"))
  else if reply.length < 4 + announced reply then .error .ioError
  else .ok ((reply.drop 4).take (announced reply))

/-- Writes a request frame to a channel and goes on with the reply. -/
def exchange {α : Type} (net : Net κ) (channel : Channel) (buf : Bytes)
    (read : Bytes → Except AntieError α) : Outcome α :=
  match net.room with
  | none => ((frame buf).map (channel, ·), read net.reply)
  | some n =>
    (((frame buf).take n).map (channel, ·),
      if (frame buf).length ≤ n then read net.reply else .error .ioError)

/-- `ipc_encode` for the calls that encode once the stream is there. -/
def exchangeEncoded {α : Type} (encode : ρ → Except Bytes Bytes) (net : Net κ) (channel : Channel)
    (request : ρ) (read : Bytes → Except AntieError α) : Outcome α :=
  match encode request with
  | .error e => ([], .error (.lambdaError (ascii "CBOR encode error: " ++ e)))
  | .ok buf => exchange net channel buf read

/-- `send_witness_request`: through TLS when the mode has a connector and a server name. -/
def sendWitnessRequest (encode : ρ → Except Bytes Bytes) (client : Tcp κ) (net : Net κ)
    (request : ρ) : Outcome Bytes :=
  match connectTimed client net with
  | .error e => ([], .error e)
  | .ok () =>
    match client.tlsConnector, client.tlsServerName with
    | some connector, some sni =>
      match net.handshake connector sni with
      | .error e => ([], .error (.lambdaError (ascii "TLS handshake: " ++ e)))
      | .ok () => exchangeEncoded encode net .tls request (readFrame true)
    | _, _ => exchangeEncoded encode net .tcp request (readFrame true)

/-- A call that leaves the connector and the server name of the mode aside. -/
def sendPlain (limited : Bool) (encode : ρ → Except Bytes Bytes) (client : Tcp κ) (net : Net κ)
    (request : ρ) : Outcome Bytes :=
  match connectTimed client net with
  | .error e => ([], .error e)
  | .ok () => exchangeEncoded encode net .tcp request (readFrame limited)

/-- `send_redeem_request`. -/
def sendRedeemRequest (encode : ρ → Except Bytes Bytes) (client : Tcp κ) (net : Net κ)
    (request : ρ) : Outcome Bytes := sendPlain true encode client net request

/-- `send_ack_request`: the length of the reply is not looked at. -/
def sendAckRequest (encode : ρ → Except Bytes Bytes) (client : Tcp κ) (net : Net κ)
    (request : ρ) : Outcome Bytes := sendPlain false encode client net request

/-- `send_genesis_dev_request`: the length of the reply is not looked at. -/
def sendGenesisDevRequest (encode : ρ → Except Bytes Bytes) (client : Tcp κ) (net : Net κ)
    (request : ρ) : Outcome Bytes := sendPlain false encode client net request

/-- `send_raw_request` encodes before it connects. -/
def sendRawRequest (encode : ρ → Except Bytes Bytes) (client : Tcp κ) (net : Net κ)
    (request : ρ) : Outcome Bytes :=
  match encode request with
  | .error e => ([], .error (.lambdaError (ascii "CBOR encode error: " ++ e)))
  | .ok buf =>
    match connectTimed client net with
    | .error e => ([], .error e)
    | .ok () => exchange net .tcp buf (readFrame true)

/-- `health_check` connects without a timeout; a reply of four bytes is enough. -/
def healthCheck (encode : ρ → Except Bytes Bytes) (net : Net κ) (request : ρ) : Outcome Bool :=
  match net.connect.2 with
  | .error e => ([], .error (.lambdaError (ascii "Connect failed: " ++ e)))
  | .ok () => exchangeEncoded encode net .tcp request fun reply => .ok (4 ≤ reply.length)

/-- What a call of the kind writes. -/
def written (encode : ρ → Except Bytes Bytes) (client : Tcp κ) (net : Net κ) (request : ρ) :
    Kind → List (Channel × UInt8)
  | .witness => (sendWitnessRequest encode client net request).1
  | .redeem => (sendRedeemRequest encode client net request).1
  | .ack => (sendAckRequest encode client net request).1
  | .genesis => (sendGenesisDevRequest encode client net request).1
  | .raw => (sendRawRequest encode client net request).1
  | .health => (healthCheck encode net request).1

/-- Every byte went through the TLS session. -/
def Secure (log : List (Channel × UInt8)) : Prop := ∀ w ∈ log, w.1 = .tls

/-- The request gets on its way: it can be encoded, the connection is there (in time, where the call
waits for it with a timeout), and it takes a byte. -/
def Reaches (encode : ρ → Except Bytes Bytes) (client : Tcp κ) (net : Net κ) (request : ρ)
    (kind : Kind) : Prop :=
  (encode request).isOk ∧ (kind = .health ∨ net.connect.1 ≤ client.timeout) ∧
    net.connect.2.isOk ∧ net.room ≠ some 0

/-! ### What a call writes -/

@[simp] theorem isOk_ok {ε α : Type} (a : α) : (Except.ok a : Except ε α).isOk := rfl

@[simp] theorem isOk_error {ε α : Type} (e : ε) : (Except.error e : Except ε α).isOk = false := rfl

theorem connectTimed_ok_iff {client : Tcp κ} {net : Net κ} :
    connectTimed client net = .ok () ↔ net.connect.1 ≤ client.timeout ∧ net.connect.2.isOk := by
  unfold connectTimed
  split
  next h => simp [Nat.not_le.2 h]
  next h =>
    cases net.connect.2 <;> simp [Except.mapError, not_lt.1 h]

theorem exchange_channel {α : Type} {net : Net κ} {channel : Channel} {buf : Bytes}
    {read : Bytes → Except AntieError α} {w : Channel × UInt8}
    (h : w ∈ (exchange net channel buf read).1) : w.1 = channel := by
  unfold exchange at h
  split at h <;> (obtain ⟨b, -, rfl⟩ := List.mem_map.1 h; rfl)

theorem exchange_eq_nil_iff {α : Type} {net : Net κ} {channel : Channel} {buf : Bytes}
    {read : Bytes → Except AntieError α} :
    (exchange net channel buf read).1 = [] ↔ net.room = some 0 := by
  have hne : frame buf ≠ [] := List.ne_nil_of_length_pos (by rw [length_frame]; omega)
  unfold exchange
  split <;> simp_all [List.take_eq_nil_iff]

theorem exchangeEncoded_channel {α : Type} {encode : ρ → Except Bytes Bytes} {net : Net κ}
    {channel : Channel} {request : ρ} {read : Bytes → Except AntieError α} {w : Channel × UInt8}
    (h : w ∈ (exchangeEncoded encode net channel request read).1) : w.1 = channel := by
  unfold exchangeEncoded at h
  split at h
  · cases h
  · exact exchange_channel h

theorem exchangeEncoded_eq_nil_iff {α : Type} {encode : ρ → Except Bytes Bytes} {net : Net κ}
    {channel : Channel} {request : ρ} {read : Bytes → Except AntieError α} :
    (exchangeEncoded encode net channel request read).1 = [] ↔
      (encode request).isOk → net.room = some 0 := by
  unfold exchangeEncoded
  split
  next e he => simp [he]
  next buf he => simp [he, exchange_eq_nil_iff]

/-- Without an answer to `connect` nothing is written. -/
theorem connectTimed_cases (client : Tcp κ) (net : Net κ) :
    (connectTimed client net = .ok () ∧ net.connect.1 ≤ client.timeout ∧ net.connect.2.isOk) ∨
      ∃ e, connectTimed client net = .error e ∧
        ¬ (net.connect.1 ≤ client.timeout ∧ net.connect.2.isOk) := by
  cases h : connectTimed client net with
  | ok u => exact Or.inl ⟨rfl, connectTimed_ok_iff.1 h⟩
  | error e => exact Or.inr ⟨e, rfl, fun hc => by simp [connectTimed_ok_iff.2 hc] at h⟩

section

variable {encode : ρ → Except Bytes Bytes} {client : Tcp κ} {net : Net κ} {request : ρ}

theorem sendPlain_channel {limited : Bool} {w : Channel × UInt8}
    (h : w ∈ (sendPlain limited encode client net request).1) : w.1 = .tcp := by
  unfold sendPlain at h
  split at h
  · cases h
  · exact exchangeEncoded_channel h

theorem sendPlain_eq_nil_iff {limited : Bool} :
    (sendPlain limited encode client net request).1 = [] ↔
      ¬ ((encode request).isOk ∧ net.connect.1 ≤ client.timeout ∧ net.connect.2.isOk ∧
        net.room ≠ some 0) := by
  unfold sendPlain
  rcases connectTimed_cases client net with ⟨hc, htime, hok⟩ | ⟨e, hc, hno⟩ <;> simp only [hc]
  · rw [exchangeEncoded_eq_nil_iff]
    tauto
  · tauto

/-- A request of another kind than witness is written to the TCP stream. -/
theorem written_channel {kind : Kind} (hk : kind ≠ .witness) {w : Channel × UInt8}
    (h : w ∈ written encode client net request kind) : w.1 = .tcp := by
  cases kind with
  | witness => exact absurd rfl hk
  | redeem | ack | genesis => exact sendPlain_channel h
  | raw =>
    simp only [written, sendRawRequest] at h
    split at h <;> [cases h; skip]
    split at h <;> [cases h; exact exchange_channel h]
  | health =>
    simp only [written, healthCheck] at h
    split at h <;> [cases h; exact exchangeEncoded_channel h]

theorem written_eq_nil_iff {kind : Kind} (hk : kind ≠ .witness) :
    written encode client net request kind = [] ↔ ¬ Reaches encode client net request kind := by
  cases kind with
  | witness => exact absurd rfl hk
  | redeem | ack | genesis =>
    refine sendPlain_eq_nil_iff.trans (not_congr ?_)
    simp [Reaches]
  | raw =>
    simp only [written, sendRawRequest, Reaches]
    cases he : encode request with
    | error e => simp
    | ok buf =>
      rcases connectTimed_cases client net with ⟨hc, htime, hok⟩ | ⟨e, hc, hno⟩ <;> simp only [hc]
      · rw [exchange_eq_nil_iff]
        simp [htime, hok]
      · simp only [isOk_ok, reduceCtorEq, false_or, true_and]
        tauto
  | health =>
    simp only [written, healthCheck, Reaches]
    cases hc : net.connect.2 with
    | error e => simp
    | ok u =>
      rw [exchangeEncoded_eq_nil_iff]
      simp

theorem witness_secure {connector : κ} {sni : Bytes} (hc : client.tlsConnector = some connector)
    (hs : client.tlsServerName = some sni) :
    Secure (written encode client net request .witness) := by
  intro w hw
  simp only [written, sendWitnessRequest, hc, hs] at hw
  split at hw <;> [cases hw; skip]
  split at hw <;> [cases hw; exact exchangeEncoded_channel hw]

/-- With a connector and a server name every byte of a request goes through TLS exactly when it is a
witness request, or never gets on its way. -/
theorem send_tls_iff {connector : κ} {sni : Bytes} (hc : client.tlsConnector = some connector)
    (hs : client.tlsServerName = some sni) (kind : Kind) :
    Secure (written encode client net request kind) ↔
      kind = .witness ∨ ¬ Reaches encode client net request kind := by
  rcases eq_or_ne kind .witness with rfl | hk
  · exact iff_of_true (witness_secure hc hs) (Or.inl rfl)
  · rw [← written_eq_nil_iff hk, or_iff_right hk]
    constructor
    · intro h
      refine List.eq_nil_iff_forall_not_mem.2 fun w hw => ?_
      exact Channel.noConfusion ((written_channel hk hw).symm.trans (h w hw))
    · intro h w hw
      rw [h] at hw
      cases hw

end

end

/-- A client with a connector, as `new_tcp_tls` makes it. -/
def tlsClient : Tcp Unit := ⟨30, some (), some (ascii "lambda.example")⟩

/-- A server that accepts at once, takes everything and closes. -/
def silentServer : Net Unit := ⟨(0, .ok ()), fun _ _ => .ok (), none, []⟩

theorem send_tls_iff_redeem :
    Secure (written Except.ok tlsClient silentServer (ascii "redeem") .redeem) ↔
      Kind.redeem = .witness ∨
        ¬ Reaches Except.ok tlsClient silentServer (ascii "redeem") .redeem :=
  send_tls_iff rfl rfl .redeem

/-- The frame of any other request goes to the server in plaintext. -/
theorem request_in_plaintext :
    Secure (written Except.ok tlsClient silentServer (ascii "r") .witness) ∧
    ∀ kind, kind ≠ .witness →
      written Except.ok tlsClient silentServer (ascii "r") kind =
        ([0, 0, 0, 1] ++ ascii "r").map (.tcp, ·) ∧
      ¬ Secure (written Except.ok tlsClient silentServer (ascii "r") kind) := by
  refine ⟨by unfold Secure; decide, fun kind hk => ?_⟩
  cases kind with
  | witness => exact absurd rfl hk
  | redeem | ack | genesis | raw | health =>
    exact ⟨rfl, fun h => Channel.noConfusion (h (.tcp, 0) List.mem_cons_self)⟩

end Antie.LambdaTcp
