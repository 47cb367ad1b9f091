import AxiomCarriers.Antie.CareOf
import AxiomCarriers.Antie.Custody
import AxiomCarriers.Antie.Email

/-!
# The gateway

`processMessage` takes one inbound mail: it reads it, hands it to the handler of its type, and sends
the reply of the handler.  Handlers check what a message brings, call Lambda, and deliver what
Lambda has made for third parties; what they do to the world is a list of effects.  Core, Lambda,
the decoders and the outbound carriers are outside (`Outside`).
-/

namespace Antie.Gateway

open Bytes Custody CareOf

/-! ## Outside -/

/-- What of a `Transaction` the gateway reads. -/
structure Transaction where
  senderWalletId : Bytes
  receiverWalletId : Bytes
  receiverAddress : Option Bytes
  clientPk : Bytes
  clientSig : Bytes

/-- A `WitnessRequest`; what the gateway passes on unread is in `rest`. -/
structure WitnessRequest where
  requestId : Bytes
  requesterAddress : Bytes
  transaction : Transaction
  overlappedSignatures : List Bytes
  producedStateId : Option Bytes
  commitmentHash : Option Bytes
  rest : Bytes

/-- A `RedeemRequestEnvelope`. -/
structure RedeemRequest where
  requestId : Bytes
  rest : Bytes

/-- The keys and texts of a VBC sign request. -/
structure VbcSign where
  requestId : Bytes
  sphincsPkHex : Bytes
  dilithiumPkHex : Bytes
  ed25519PkHex : Bytes
  pgpFingerprintHex : Bytes
  proofCap : Bytes
  nodeName : Bytes

inductive LambdaCall
  | witness (request : WitnessRequest)
  | redeem (request : RedeemRequest)
  | ack (requestId txid validatorPk senderSig clientPk : Bytes)
  | query (walletPk : Bytes)
  | validatorStatus (requestId : Bytes)
  | genesisDev (requestId publicKey : Bytes) (balance : ℕ) (groupMembers : Option (List Bytes))
      (authHash : Option Bytes)
  | vbcSignRequest (payload : VbcSign)
  | vbcSignCommit (payload : VbcSign) (issuedAt expiresAt chainDepth : ℕ) (issuerSet : List Bytes)
  | setAuthHash (requestId publicKey authHash : Bytes)
  | peerAuditRequest (request : Bytes)
  | peerAuditNotHeld (notHeld : Bytes)
  | peerAuditResponse (response : Bytes)
  | peerAuditDispatchFailed (target error : Bytes)

/-- What Core says of a transaction. -/
structure Validation where
  accepted : Bool
  rejectionReason : Option Bytes
  newStateId : Option Bytes
  commitmentHash : Option Bytes

/-- A reply; what Lambda puts into it for the client alone is in `fields`. -/
structure ResponsePayload where
  success : Bool
  requestId : Bytes
  error : Option Bytes
  rejectionCode : Option Bytes
  fields : Bytes
  deriving DecidableEq

/-- What Lambda answers to a witness request: the leg of the sender, and what third parties get. -/
structure WitnessResponse where
  senderLeg : ResponsePayload
  cheque : Option Bytes
  vbcSignature : Option Bytes
  scarConsent : Option Bytes
  outboundPeerAudit : Option (Bytes × Bytes)

/-- What a reply takes from the answer of Lambda to any other call. -/
structure Answer where
  success : Bool
  error : Option Bytes
  fields : Bytes

/-- What Lambda answers to a peer audit: the mails to send, and where to. -/
structure PeerAuditResult where
  success : Bool
  error : Option Bytes
  requesterEmail : Option Bytes
  response : Option Bytes
  notHeld : Option Bytes

structure CustodyRoute where
  header : Bytes
  outbox : Bytes
  suppressEmail : Bool

/-- The code that the gateway uses, what the disk and the network do, and the configuration. -/
structure Outside where
  parser : Bytes → Option Mail
  decode : Bytes → Bytes → Decoded
  vbcDelivery : Bytes → Option Bytes
  decodeWitness : Bytes → Except Bytes WitnessRequest
  decodeRedeem : Bytes → Except Bytes RedeemRequest
  isDevWallet : Bytes → Bool
  validWalletId : Bytes → Bool
  burnAddress : Bytes
  /-- The contents of the ban file, and the keys that it would list a sender under. -/
  banFile : Option Bytes
  banKeys : Transaction → List Bytes
  /-- `AXIOM_ANTIE_SIG_PREFILTER`, and the verification of the client's signature. -/
  sigPrefilter : Bool
  verifySig : Transaction → Bool
  /-- The CL2 run of Core, `none` when Core is not available. -/
  core : WitnessRequest → Option Validation
  witness : WitnessRequest → Except AntieError WitnessResponse
  peerAudit : Bytes → Except AntieError PeerAuditResult
  answer : LambdaCall → Except AntieError Answer
  /-- Whether Lambda keeps something of a VBC sign request, the first phase of a signature. -/
  keepsSignRequest : Bool
  /-- The mails for third parties, `none` when they cannot be built. -/
  chequeEmail : Transaction → Bytes → Bytes → Option Bytes
  scarConsentEmail : Bytes → Bytes → Option Bytes
  vbcEmail : Bytes → Bytes → Option Bytes
  peerAuditEmail : Bytes → Bytes → Option Bytes
  /-- What comes of sending a mail, and whether a file is written. -/
  send : Bytes → Except AntieError Unit
  writePickup : Bytes → Bool
  writeSkipped : Bool
  writeCustody : Bool
  identity : Bytes
  pickup : Bool
  skipList : Option (List Bytes)
  uncleSink : Bool
  custodyRoutes : List CustodyRoute
  cooldown : ℕ
  now : ℕ

/-- Where a mail for a third party has gone. -/
inductive Delivery
  | mailed (receiver : Bytes)
  | pickup (domain : Bytes)
  | skipped
  deriving DecidableEq

/-- What a message does to the world. -/
inductive Effect
  | lambda (call : LambdaCall)
  | cheque (delivery : Delivery)
  | certificate (delivery : Delivery)
  | scarConsent (delivery : Delivery)
  | peerAudit (receiver : Bytes)
  | vbcFiled
  | tee (correlate : Bytes)
  | deposit (outbox session name : Bytes)
  | reply (receiver : Bytes)

/-- The call changes the state of Lambda: all but the two queries, and what Lambda keeps of a sign
request. -/
def LambdaCall.changes (w : Outside) : LambdaCall → Bool
  | .query _ | .validatorStatus _ => false
  | .vbcSignRequest _ => w.keepsSignRequest
  | _ => true

/-- A state-changing call of Lambda, or the delivery of a cheque. -/
def Effect.commits (w : Outside) : Effect → Bool
  | .lambda call => call.changes w
  | .cheque _ => true
  | _ => false

/-! ## Replies -/

/-- A reply that ANTIE makes itself. -/
def localReply (success : Bool) (requestId : Bytes) (error rejectionCode : Option Bytes) :
    ResponsePayload := ⟨success, requestId, error, rejectionCode, []⟩

def errorReply (requestId : Bytes) (e : AntieError) : ResponsePayload :=
  localReply false requestId (some e.text) (some (match e with
    | .lambdaRejected code _ => code
    | _ => ascii "INTERNAL_ERROR"))

/-- The reply of `send_busy_rejection`. -/
def busyReply (email : Email) (avgMs : ℕ) : ResponsePayload :=
  localReply false email.requestId
    (some (ascii "E_VALIDATOR_BUSY: estimated wait exceeds threshold (avg_witness_ms=" ++
      Text.decimal avgMs ++ ascii ")"))
    (some (ascii "E_VALIDATOR_BUSY"))

/-- The reply that passes on an answer of Lambda. -/
def answerReply (requestId failedCode : Bytes) (a : Answer) : ResponsePayload :=
  ⟨a.success, requestId, a.error, if a.success then none else some failedCode, a.fields⟩

/-- The reply to a query, where an answer without success is that of a wallet not found. -/
def queryReply (requestId : Bytes) (a : Answer) : ResponsePayload :=
  if a.success then ⟨true, requestId, none, none, a.fields⟩
  else localReply false requestId (some (ascii "Wallet not found")) (some (ascii "NOT_FOUND"))

def vspReply (requestId : Bytes) (a : Answer) : ResponsePayload :=
  ⟨true, requestId, none, none, a.fields⟩

abbrev Handled := List Effect × Except AntieError ResponsePayload

/-- A handler that calls Lambda when the message brings what the call needs. -/
def callLambda (w : Outside) (reply : Answer → ResponsePayload) :
    Except AntieError LambdaCall → Handled
  | .error e => ([], .error e)
  | .ok call => ([.lambda call], (w.answer call).map reply)

/-- `ok_or_else`. -/
def require {α : Type} (missing : String) : Option α → Except AntieError α
  | some a => .ok a
  | none => .error (.invalidPayload (ascii missing))

/-! ## Witness requests -/

/-- The request with what the envelope says where the body is silent. -/
def WitnessRequest.fill (request : WitnessRequest) (email : Email) : WitnessRequest :=
  { request with
    requestId := if request.requestId = [] then email.requestId else request.requestId
    requesterAddress :=
      if request.requesterAddress = [] then email.sender else request.requesterAddress }

abbrev RateLimiter := List (Bytes × ℕ)

/-- The request comes within the cooldown of the last one. -/
def isLimited (w : Outside) (limiter : RateLimiter) (walletId : Bytes) : Bool :=
  (Table.get limiter walletId).any fun last => w.now - last < w.cooldown

/-- `nabla_ban_file_lists`. -/
def banFileLists (w : Outside) (tx : Transaction) : Bool :=
  match w.banFile with
  | none => false
  | some contents => ((lines contents).map Text.trim).any fun line => line ∈ w.banKeys tx

def rateRefuses (w : Outside) (limiter : RateLimiter) (request : WitnessRequest) : Bool :=
  request.overlappedSignatures = [] && request.transaction.senderWalletId ≠ [] &&
    isLimited w limiter request.transaction.senderWalletId

def banRefuses (w : Outside) (request : WitnessRequest) : Bool :=
  request.overlappedSignatures = [] && banFileLists w request.transaction

def sigRefuses (w : Outside) (request : WitnessRequest) : Bool :=
  request.overlappedSignatures = [] && w.sigPrefilter && request.transaction.clientSig ≠ [] &&
    request.transaction.clientPk ≠ [] && !w.verifySig request.transaction

/-- The rate limiter after a request that it lets through, `evict_stale` included. -/
def recordRequest (w : Outside) (limiter : RateLimiter) (request : WitnessRequest) : RateLimiter :=
  if request.overlappedSignatures ≠ [] ∨ request.transaction.senderWalletId = [] then limiter
  else
    let limiter := Table.put limiter request.transaction.senderWalletId w.now
    -- the cutoff may lie before the clock's origin
    if 100 < limiter.length then limiter.filter fun p => w.now < p.2 + w.cooldown * 2 else limiter

/-- The checks before Core: what refuses the request, and the rate limiter afterwards. -/
def admission (w : Outside) (limiter : RateLimiter) (request : WitnessRequest) :
    Option AntieError × RateLimiter :=
  let wallet := request.transaction.senderWalletId
  if rateRefuses w limiter request then
    (some (.rateLimited (ascii "E_WALLET_RATE_LIMITED: wallet " ++ wallet ++
      utf8 " — retry after cooldown")), limiter)
  else if banRefuses w request then
    (some (.walletBanned (ascii "E_WALLET_BANNED: wallet " ++ wallet ++
      utf8 " is banned (YP §32)")), recordRequest w limiter request)
  else if sigRefuses w request then
    (some (.emailParseError (ascii "E_SIG_PREFILTER: client signature did not verify")),
      recordRequest w limiter request)
  else (none, recordRequest w limiter request)

def Outside.mail (w : Outside) (receiver : Bytes) : Option Delivery :=
  match w.send receiver with
  | .ok () => some (.mailed receiver)
  | .error _ => none

/-- A mail for the receiver of a transaction: into the pickup directory where the plan says so,
otherwise by mail. -/
def deliverMail (w : Outside) (plan : Plan) (receiver : Bytes) : Option Delivery :=
  match plan with
  | .deposit domain _ =>
    if w.writePickup domain then some (.pickup domain) else w.mail receiver
  | _ => w.mail receiver

def planReceiver : Plan → Option Bytes
  | .email receiver => some receiver
  | .deposit _ inner => some inner
  | .refuse => none

/-- The plan for what the receiver of a transaction gets. -/
def receiverPlan (w : Outside) (tx : Transaction) : Plan :=
  planReceiverDelivery w.validWalletId tx.receiverAddress tx.receiverWalletId w.pickup

/-- The delivery of the cheque: into the pickup directory, else to a sibling carrier that has asked
for the receiver's, else by mail. -/
def chequeDelivery (w : Outside) (tx : Transaction) (cheque : Bytes) : Option Delivery :=
  if tx.receiverWalletId = w.burnAddress then none
  else (planReceiver (receiverPlan w tx)).bind fun receiver =>
    (w.chequeEmail tx cheque receiver).bind fun _ =>
      let diverted := (w.skipList.any (tx.receiverWalletId ∈ ·)) && w.writeSkipped
      match receiverPlan w tx with
      | .deposit domain _ =>
        if w.writePickup domain then some (.pickup domain)
        else if diverted then some .skipped else w.mail receiver
      | _ => if diverted then some .skipped else w.mail receiver

/-- The delivery of a certificate, to the mailbox of the stake wallet. -/
def certificateDelivery (w : Outside) (tx : Transaction) (sig : Bytes) : Option Delivery :=
  let receiver := tx.senderWalletId.takeWhile (· ≠ 47)
  if 64 ∉ receiver then none
  else (w.vbcEmail receiver sig).bind fun _ => w.mail receiver

def scarConsentDelivery (w : Outside) (tx : Transaction) (scar : Bytes) : Option Delivery :=
  (planReceiver (receiverPlan w tx)).bind fun receiver =>
    (w.scarConsentEmail scar receiver).bind fun _ => deliverMail w (receiverPlan w tx) receiver

/-- The peer-audit request that Lambda has queued: sent, or reported as not sent. -/
def peerAuditEffects (w : Outside) (audit : Bytes × Bytes) : List Effect :=
  match w.peerAuditEmail audit.1 audit.2 with
  | none => []
  | some _ =>
    match w.send audit.1 with
    | .ok () => [.peerAudit audit.1]
    | .error e => [.lambda (.peerAuditDispatchFailed audit.1 e.text)]

/-- What third parties get of a witness. -/
def witnessDeliveries (w : Outside) (tx : Transaction) (response : WitnessResponse) : List Effect :=
  ((response.cheque.bind (chequeDelivery w tx)).map .cheque).toList ++
    ((response.vbcSignature.bind (certificateDelivery w tx)).map .certificate).toList ++
    ((response.scarConsent.bind (scarConsentDelivery w tx)).map .scarConsent).toList ++
    (response.outboundPeerAudit.map (peerAuditEffects w)).getD []

/-- Lambda witnesses the request, and third parties get what it has made for them. -/
def witnessed (w : Outside) (request : WitnessRequest) (validation : Option Validation) : Handled :=
  let request := { request with
    producedStateId := validation.bind (·.newStateId)
    commitmentHash := validation.bind (·.commitmentHash) }
  match w.witness request with
  | .error e => ([.lambda (.witness request)], .error e)
  | .ok response =>
    (.lambda (.witness request) :: witnessDeliveries w request.transaction response,
      .ok response.senderLeg)

/-- `handle_witness_request`, with the rate limiter afterwards. -/
def handleWitnessRequest (w : Outside) (limiter : RateLimiter) (email : Email) :
    RateLimiter × Handled :=
  match w.decodeWitness email.payload.rawUmpBody with
  | .error e =>
    (limiter, [], .error (.invalidPayload (ascii "WitnessRequest CBOR decode failed: " ++ e ++
      ascii " (body_len=" ++ Text.decimal email.payload.rawUmpBody.length ++ ascii ")")))
  | .ok request =>
    let request := request.fill email
    match admission w limiter request with
    | (some e, limiter) => (limiter, [], .error e)
    | (none, limiter) =>
      match w.core request with
      | none => (limiter, witnessed w request none)
      | some validation =>
        if validation.accepted then (limiter, witnessed w request (some validation))
        else (limiter, [], .ok (localReply false email.requestId validation.rejectionReason
          (some (ascii "CL2_VALIDATION_FAILED"))))

/-!
## The other handlers

What a handler asks Lambda for is its `…Call`; the errors are those of the checks in front of it.
-/

def redeemCall (w : Outside) (email : Email) : Except AntieError LambdaCall :=
  match w.decodeRedeem email.payload.rawUmpBody with
  | .error e =>
    .error (.invalidPayload (ascii "RedeemRequestEnvelope CBOR decode failed: " ++ e ++
      ascii " (body_len=" ++ Text.decimal email.payload.rawUmpBody.length ++ ascii ")"))
  | .ok request =>
    .ok (.redeem { request with
      requestId := if request.requestId = [] then email.requestId else request.requestId })

def ackCall (email : Email) : Except AntieError LambdaCall := do
  let txid ← require "Missing txid" email.payload.txid
  if txid.length ≠ 32 then .error (.invalidPayload (ascii "txid must be 32 bytes"))
  let validatorPk ← require "Missing validator_pk" email.payload.validatorPk
  let senderSig ← require "Missing sender_sig" email.payload.senderSig
  let clientPk ← require "Missing client_pk" email.payload.clientPk
  return .ack email.requestId txid validatorPk senderSig clientPk

def Value.byte : Value → Option UInt8
  | .int n => if 0 ≤ n ∧ n < 256 then some n.toNat.toUInt8 else none
  | _ => none

def Value.isText (t : Bytes) : Value → Bool
  | .text s => s = t
  | _ => false

def queryWalletPk : Value → Option Bytes
  | .map entries =>
    (entries.find? fun e => Value.isText (ascii "wallet_pk") e.1).bind fun e =>
      match e.2 with
      | .bytes b => some b
      | .array vs => vs.mapM Value.byte
      | _ => none
  | _ => none

def queryCall (email : Email) : Except AntieError LambdaCall := do
  let walletPk ← require "Query requires query_params.wallet_pk (byte array)"
    (email.payload.queryParams.bind queryWalletPk)
  return .query walletPk

def genesisDevCall (email : Email) : Except AntieError LambdaCall := do
  let publicKey ← require "Missing public_key" email.payload.publicKey
  let balance ← require "Missing balance" email.payload.balance
  return .genesisDev email.requestId publicKey balance email.payload.groupMembers
    email.payload.authHash

/-- The keys that both phases of a VBC signature need. -/
def vbcSign (email : Email) : Except AntieError VbcSign := do
  let sphincsPkHex ← require "Missing sphincs_pk_hex" email.payload.sphincsPkHex
  let dilithiumPkHex ← require "Missing dilithium_pk_hex" email.payload.dilithiumPkHex
  let ed25519PkHex ← require "Missing ed25519_pk_hex" email.payload.ed25519PkHex
  return ⟨email.requestId, sphincsPkHex, dilithiumPkHex, ed25519PkHex,
    email.payload.pgpFingerprintHex.getD [], email.payload.proofCap.getD [],
    email.payload.nodeName.getD []⟩

def vbcSignRequestCall (email : Email) : Except AntieError LambdaCall := do
  let sign ← vbcSign email
  return .vbcSignRequest sign

def vbcSignCommitCall (email : Email) : Except AntieError LambdaCall := do
  let sign ← vbcSign email
  let issuedAt ← require "Missing issued_at" email.payload.issuedAt
  let expiresAt ← require "Missing expires_at" email.payload.expiresAt
  let chainDepth ← require "Missing chain_depth" email.payload.chainDepth
  if email.payload.issuerSetHex.length ≠ 3 then
    .error (.invalidPayload (ascii "issuer_set_hex must have 3 entries, got " ++
      Text.decimal email.payload.issuerSetHex.length))
  return .vbcSignCommit sign issuedAt expiresAt chainDepth email.payload.issuerSetHex

def setAuthHashCall (email : Email) : Except AntieError LambdaCall := do
  let publicKey ← require "Missing public_key" email.payload.publicKey
  let authHash ← require "Missing auth_hash" email.payload.authHash
  if authHash.length ≠ 32 then
    .error (.invalidPayload (ascii "auth_hash must be 32 bytes, got " ++
      Text.decimal authHash.length))
  return .setAuthHash email.requestId publicKey authHash

def peerAuditReplyAddress (hint : Option Bytes) (envelopeFrom : Bytes) : Option Bytes :=
  match hint with
  | some e => some e
  | none => if Text.trim envelopeFrom = [] then none else some (Text.trim envelopeFrom)

def handlePeerAuditRequest (w : Outside) (email : Email) : Handled :=
  match require "Missing peer_audit_request" email.payload.peerAuditRequest with
  | .error e => ([], .error e)
  | .ok request =>
    let call := Effect.lambda (.peerAuditRequest request)
    match w.peerAudit request with
    | .error e => ([call], .error e)
    | .ok result =>
      let answers := (result.response.toList ++ result.notHeld.toList).flatMap fun _ =>
        match peerAuditReplyAddress result.requesterEmail email.sender with
        | some receiver => ((w.mail receiver).map fun _ => Effect.peerAudit receiver).toList
        | none => []
      (call :: answers, .ok (localReply result.success email.requestId result.error none))

def handlePeerAuditResponse (email : Email) : Handled :=
  let done := localReply true email.requestId none none
  match email.payload.peerAuditNotHeld, email.payload.peerAuditResponse with
  | some notHeld, _ => ([.lambda (.peerAuditNotHeld notHeld)], .ok done)
  | none, some response => ([.lambda (.peerAuditResponse response)], .ok done)
  | none, none => ([], .error (.invalidPayload (ascii "Missing peer_audit_response")))

def handleFanoutRelay (email : Email) : Handled :=
  ([], .ok (localReply false email.requestId
    (some (ascii "fan-out relay refused: ANTIE is a gateway, not a validator-to-validator " ++
      utf8 "channel (YP §28, KI#175) — send fan-out as a wallet-carried transaction"))
    (some (ascii "FANOUT_RELAY_REFUSED"))))

/-! ## Messages -/

inductive MessageType
  | witness
  | redeem
  | ack
  | query
  | validatorStatus
  | initGenesisDev
  | vbcSignRequest
  | vbcSignCommit
  | setAuthHash
  | peerAuditRequest
  | peerAuditResponse
  | fanoutRelay
  deriving DecidableEq

/-- The message types by the name in the subject. -/
def messageTypes : List (Bytes × MessageType) :=
  [(ascii "witness", .witness), (ascii "redeem", .redeem), (ascii "ack", .ack),
    (ascii "query", .query), (ascii "validator_status", .validatorStatus),
    (ascii "init_genesis_dev", .initGenesisDev), (ascii "vbc_sign_request", .vbcSignRequest),
    (ascii "vbc_sign_commit", .vbcSignCommit), (ascii "set_auth_hash", .setAuthHash),
    (ascii "peer_audit_request", .peerAuditRequest),
    (ascii "peer_audit_response", .peerAuditResponse), (ascii "fanout_relay", .fanoutRelay)]

def typeOf (email : Email) : Option MessageType := Table.get messageTypes email.messageType

def answersOutOfBand (email : Email) : Bool :=
  typeOf email = some .peerAuditRequest || typeOf email = some .peerAuditResponse

def handle (w : Outside) (limiter : RateLimiter) (email : Email) : RateLimiter × Handled :=
  let call := fun failedCode request =>
    (limiter, callLambda w (answerReply email.requestId failedCode) request)
  match typeOf email with
  | some .witness => handleWitnessRequest w limiter email
  | some .redeem => call (ascii "REDEEM_FAILED") (redeemCall w email)
  | some .ack => call (ascii "ACK_FAILED") (ackCall email)
  | some .query => (limiter, callLambda w (queryReply email.requestId) (queryCall email))
  | some .validatorStatus =>
    (limiter, callLambda w (vspReply email.requestId) (.ok (.validatorStatus email.requestId)))
  | some .initGenesisDev => call (ascii "GENESIS_FAILED") (genesisDevCall email)
  | some .vbcSignRequest => call (ascii "VBC_SIGN_FAILED") (vbcSignRequestCall email)
  | some .vbcSignCommit => call (ascii "VBC_SIGN_COMMIT_FAILED") (vbcSignCommitCall email)
  | some .setAuthHash => call (ascii "SET_AUTH_HASH_FAILED") (setAuthHashCall email)
  | some .peerAuditRequest => (limiter, handlePeerAuditRequest w email)
  | some .peerAuditResponse => (limiter, handlePeerAuditResponse email)
  | some .fanoutRelay => (limiter, handleFanoutRelay email)
  | none =>
    (limiter, [], .ok (localReply false email.requestId
      (some (ascii "Unknown message type: " ++ email.messageType)) (some (ascii "UNKNOWN_TYPE"))))

/-! ## Sending the reply -/

/-- `eq_ignore_ascii_case`. -/
def eqIgnoreCase (x y : Bytes) : Bool := x.map lower = y.map lower

def validateEmailAddr (addr : Bytes) : Except AntieError Unit :=
  if CR ∈ addr ∨ LF ∈ addr then
    .error (.emailParseError
      (ascii "Email address contains newline (header injection attempt)"))
  else if addr = [] ∨ 64 ∉ addr then
    .error (.emailParseError (ascii "Invalid email address: '" ++ addr ++ ascii "'"))
  else .ok ()

def custodyRoute (w : Outside) (header : Bytes) : Option CustodyRoute :=
  w.custodyRoutes.find? fun r => eqIgnoreCase r.header header

/-- The stamp of a normal session on a message of a dev wallet. -/
def stampDisagrees (w : Outside) (header sender : Bytes) : Bool :=
  eqIgnoreCase header (ascii "X-TOT-Session") && w.isDevWallet sender

def mailReply (w : Outside) (receiver : Bytes) : List Effect × Except AntieError Unit :=
  match w.send receiver with
  | .ok () => ([.reply receiver], .ok ())
  | .error e => ([], .error e)

/-- The custody routing of a reply, and its mail. -/
def routeReply (w : Outside) (original : Email) (payload : ResponsePayload) :
    List Effect × Except AntieError Unit :=
  match original.custody with
  | none => mailReply w original.sender
  | some (header, id) =>
    if stampDisagrees w header original.sender then
      ([], .error (.invalidPayload (ascii "custody: " ++ header ++
        ascii " is the normal-wallet stamp; sender " ++ original.sender ++
        utf8 " is a dev wallet — stamp and address disagree")))
    else match custodyRoute w header with
      | none => mailReply w original.sender
      | some row =>
        let name := replyName payload.requestId
        if ¬ unsafeName name ∧ w.writeCustody then
          if row.suppressEmail then ([.deposit row.outbox id name], .ok ())
          else
            let (effects, result) := mailReply w original.sender
            (.deposit row.outbox id name :: effects, result)
        else if row.suppressEmail then
          ([], .error (.maildirError (ascii "custody deposit failed for " ++ header)))
        else mailReply w original.sender

def sendResponse (w : Outside) (original : Email) (payload : ResponsePayload) :
    List Effect × Except AntieError Unit :=
  match (validateEmailAddr original.sender).bind fun _ => validateEmailAddr w.identity with
  | .error e => ([], .error e)
  | .ok () =>
    let tee := if w.uncleSink then original.uncleCorrelate.toList.map Effect.tee else []
    let (effects, result) := routeReply w original payload
    (tee ++ effects, result)

def maxMessageBytes : ℕ := 8 * 1024 * 1024

/-- `send_busy_rejection`, which reads the mail without the decryptor. -/
def sendBusyRejection (w : Outside) (decode : Bytes → Bytes → Decoded) (avgMs : ℕ) (raw : Bytes) :
    List Effect × Except AntieError Unit :=
  match parseEmailOutcome w.parser decode raw with
  | .ok email => sendResponse w email (busyReply email avgMs)
  | _ => ([], .ok ())

/-- `process_message`: what it does, its result, and the rate limiter afterwards. -/
def processMessage (w : Outside) (limiter : RateLimiter) (raw : Bytes) :
    RateLimiter × List Effect × Except AntieError Unit :=
  if maxMessageBytes < raw.length then (limiter, [], .ok ())
  else if (w.vbcDelivery raw).isSome then (limiter, [.vbcFiled], .ok ())
  else match parseEmailOutcome w.parser w.decode raw with
    | .decryptFailed => (limiter, [], .ok ())
    | .error _ => (limiter, [], .ok ())
    | .ok email =>
      let (limiter, effects, response) := handle w limiter email
      if answersOutOfBand email then (limiter, effects, .ok ())
      else
        let payload := match response with
          | .ok payload => payload
          | .error e => errorReply email.requestId e
        let (sent, result) := sendResponse w email payload
        (limiter, effects ++ sent, result)

end Antie.Gateway
