import AxiomCarriers.Antie.Gateway
import AxiomCarriers.Lib.Headers
import AxiomCarriers.Lib.Run

/-!
# Messages whose reply is refused

`send_response` refuses a reply when the stamp of the message and its sender disagree, or when the
reply can only be deposited and its name is unsafe.  By then the handler has run: it has asked
Lambda for whatever the message brought the means for (`Admitted`).  So a message whose reply is
refused changes nothing exactly when its handler would not have asked for a change either
(`refused_commits_nothing_iff`).
-/

namespace Antie.Gateway

open Bytes Custody CareOf

/-! ## What handlers ask of Lambda -/

@[simp] theorem require_eq_ok_iff {α : Type} {missing : String} {o : Option α} {a : α} :
    require missing o = .ok a ↔ o = some a := by
  cases o <;> simp [require]

/-- A check of a handler, in front of the rest of it. -/
@[simp] theorem check_eq_ok_iff {P : Prop} [Decidable P] {e : AntieError} {α β : Type}
    {f : β → Except AntieError α} {rest : Except AntieError α} {a : α} :
    (if P then Except.error e >>= f else rest) = .ok a ↔ ¬ P ∧ rest = .ok a := by
  by_cases h : P <;> simp [h, bind, Except.bind]

/-- The handler asks Lambda for a change. -/
def Asks (w : Outside) (asked : Except AntieError LambdaCall) : Prop :=
  ∃ call, asked = .ok call ∧ call.changes w

theorem callLambda_commits {w : Outside} {reply : Answer → ResponsePayload}
    {asked : Except AntieError LambdaCall} :
    (∃ e ∈ (callLambda w reply asked).1, e.commits w) ↔ Asks w asked := by
  cases asked <;> simp [callLambda, Asks, Effect.commits]

theorem asks_redeem {w : Outside} {email : Email} :
    Asks w (redeemCall w email) ↔
      ∃ request, w.decodeRedeem email.payload.rawUmpBody = .ok request := by
  unfold Asks redeemCall
  cases hdec : w.decodeRedeem email.payload.rawUmpBody <;> simp [LambdaCall.changes]

theorem asks_ack {w : Outside} {email : Email} :
    Asks w (ackCall email) ↔ (∃ txid, email.payload.txid = some txid ∧ txid.length = 32) ∧
      email.payload.validatorPk.isSome ∧ email.payload.senderSig.isSome ∧
      email.payload.clientPk.isSome := by
  simp only [Asks, ackCall, Except.bind_eq_ok_iff, require_eq_ok_iff, check_eq_ok_iff,
    Option.isSome_iff_exists, not_not]
  constructor
  · rintro ⟨call, ⟨txid, htxid, hlen, pk, hpk, sig, hsig, client, hclient, -⟩, -⟩
    exact ⟨⟨txid, htxid, hlen⟩, ⟨pk, hpk⟩, ⟨sig, hsig⟩, ⟨client, hclient⟩⟩
  · rintro ⟨⟨txid, htxid, hlen⟩, ⟨pk, hpk⟩, ⟨sig, hsig⟩, ⟨client, hclient⟩⟩
    exact ⟨_, ⟨txid, htxid, hlen, pk, hpk, sig, hsig, client, hclient, rfl⟩, rfl⟩

theorem not_asks_query {w : Outside} {email : Email} : ¬ Asks w (queryCall email) := by
  simp only [Asks, queryCall, Except.bind_eq_ok_iff, require_eq_ok_iff]
  rintro ⟨call, ⟨pk, -, hcall⟩, hchanges⟩
  rw [← Except.ok.inj hcall] at hchanges
  exact Bool.false_ne_true hchanges

theorem asks_genesisDev {w : Outside} {email : Email} :
    Asks w (genesisDevCall email) ↔ email.payload.publicKey.isSome ∧
      email.payload.balance.isSome := by
  simp only [Asks, genesisDevCall, Except.bind_eq_ok_iff, require_eq_ok_iff,
    Option.isSome_iff_exists]
  constructor
  · rintro ⟨call, ⟨pk, hpk, balance, hbalance, -⟩, -⟩
    exact ⟨⟨pk, hpk⟩, ⟨balance, hbalance⟩⟩
  · rintro ⟨⟨pk, hpk⟩, ⟨balance, hbalance⟩⟩
    exact ⟨_, ⟨pk, hpk, balance, hbalance, rfl⟩, rfl⟩

/-- The message brings the three keys that both phases of a VBC signature need. -/
def HasVbcKeys (email : Email) : Prop :=
  email.payload.sphincsPkHex.isSome ∧ email.payload.dilithiumPkHex.isSome ∧
    email.payload.ed25519PkHex.isSome

instance (email : Email) : Decidable (HasVbcKeys email) := by
  unfold HasVbcKeys
  infer_instance

theorem vbcSign_ok_iff {email : Email} : (∃ sign, vbcSign email = .ok sign) ↔ HasVbcKeys email := by
  simp only [vbcSign, HasVbcKeys, Except.bind_eq_ok_iff, require_eq_ok_iff,
    Option.isSome_iff_exists]
  constructor
  · rintro ⟨sign, sphincs, hsphincs, dilithium, hdilithium, ed25519, hed25519, -⟩
    exact ⟨⟨sphincs, hsphincs⟩, ⟨dilithium, hdilithium⟩, ⟨ed25519, hed25519⟩⟩
  · rintro ⟨⟨sphincs, hsphincs⟩, ⟨dilithium, hdilithium⟩, ⟨ed25519, hed25519⟩⟩
    exact ⟨_, sphincs, hsphincs, dilithium, hdilithium, ed25519, hed25519, rfl⟩

theorem asks_vbcSignRequest {w : Outside} {email : Email} :
    Asks w (vbcSignRequestCall email) ↔ HasVbcKeys email ∧ w.keepsSignRequest := by
  rw [← vbcSign_ok_iff]
  simp only [Asks, vbcSignRequestCall, Except.bind_eq_ok_iff]
  constructor
  · rintro ⟨call, ⟨sign, hsign, hcall⟩, hchanges⟩
    rw [← Except.ok.inj hcall] at hchanges
    exact ⟨⟨sign, hsign⟩, hchanges⟩
  · rintro ⟨⟨sign, hsign⟩, hkeeps⟩
    exact ⟨_, ⟨sign, hsign, rfl⟩, hkeeps⟩

theorem asks_vbcSignCommit {w : Outside} {email : Email} :
    Asks w (vbcSignCommitCall email) ↔ HasVbcKeys email ∧ email.payload.issuedAt.isSome ∧
      email.payload.expiresAt.isSome ∧ email.payload.chainDepth.isSome ∧
      email.payload.issuerSetHex.length = 3 := by
  rw [← vbcSign_ok_iff]
  simp only [Asks, vbcSignCommitCall, Except.bind_eq_ok_iff, require_eq_ok_iff, check_eq_ok_iff,
    Option.isSome_iff_exists, not_not]
  constructor
  · rintro ⟨call, ⟨sign, hsign, at', hat, until', huntil, depth, hdepth, hlen, -⟩, -⟩
    exact ⟨⟨sign, hsign⟩, ⟨at', hat⟩, ⟨until', huntil⟩, ⟨depth, hdepth⟩, hlen⟩
  · rintro ⟨⟨sign, hsign⟩, ⟨at', hat⟩, ⟨until', huntil⟩, ⟨depth, hdepth⟩, hlen⟩
    exact ⟨_, ⟨sign, hsign, at', hat, until', huntil, depth, hdepth, hlen, rfl⟩, rfl⟩

theorem asks_setAuthHash {w : Outside} {email : Email} :
    Asks w (setAuthHashCall email) ↔ email.payload.publicKey.isSome ∧
      ∃ authHash, email.payload.authHash = some authHash ∧ authHash.length = 32 := by
  simp only [Asks, setAuthHashCall, Except.bind_eq_ok_iff, require_eq_ok_iff, check_eq_ok_iff,
    Option.isSome_iff_exists, not_not]
  constructor
  · rintro ⟨call, ⟨pk, hpk, authHash, hauth, hlen, -⟩, -⟩
    exact ⟨⟨pk, hpk⟩, authHash, hauth, hlen⟩
  · rintro ⟨⟨pk, hpk⟩, authHash, hauth, hlen⟩
    exact ⟨_, ⟨pk, hpk, authHash, hauth, hlen, rfl⟩, rfl⟩

/-! ## Witness requests -/

/-- The checks before Core let the request through, and Core, where it runs, accepts it. -/
def Witnessable (w : Outside) (limiter : RateLimiter) (request : WitnessRequest) : Prop :=
  ¬ rateRefuses w limiter request ∧ ¬ banRefuses w request ∧ ¬ sigRefuses w request ∧
    ∀ validation ∈ w.core request, validation.accepted

theorem admission_eq_none_iff {w : Outside} {limiter : RateLimiter} {request : WitnessRequest} :
    (admission w limiter request).1 = none ↔
      ¬ rateRefuses w limiter request ∧ ¬ banRefuses w request ∧ ¬ sigRefuses w request := by
  unfold admission
  split_ifs <;> simp_all

/-- Whatever Core has said, the request is put to Lambda. -/
theorem witnessed_commits (w : Outside) (request : WitnessRequest) (validation : Option Validation) :
    ∃ e ∈ (witnessed w request validation).1, e.commits w := by
  simp only [witnessed]
  split
  · exact ⟨_, List.mem_singleton.2 rfl, rfl⟩
  · exact ⟨_, List.mem_cons_self, rfl⟩

theorem handleWitnessRequest_commits {w : Outside} {limiter : RateLimiter} {email : Email} :
    (∃ e ∈ (handleWitnessRequest w limiter email).2.1, e.commits w) ↔
      ∃ request, w.decodeWitness email.payload.rawUmpBody = .ok request ∧
        Witnessable w limiter (request.fill email) := by
  unfold handleWitnessRequest
  cases hdec : w.decodeWitness email.payload.rawUmpBody with
  | error e => simp
  | ok request =>
    have hone : (∃ r, (Except.ok request : Except Bytes WitnessRequest) = .ok r ∧
        Witnessable w limiter (r.fill email)) ↔ Witnessable w limiter (request.fill email) :=
      ⟨fun ⟨r, hr, h⟩ => Except.ok.inj hr ▸ h, fun h => ⟨request, rfl, h⟩⟩
    rw [hone]
    have hadm : (admission w limiter (request.fill email)).1 = none ↔ _ := admission_eq_none_iff
    rcases hout : admission w limiter (request.fill email) with ⟨refused, limiter'⟩
    rw [hout] at hadm
    cases refused with
    | some e =>
      have hnot : ¬ Witnessable w limiter (request.fill email) := fun h =>
        nomatch hadm.2 ⟨h.1, h.2.1, h.2.2.1⟩
      simp [hout, hnot]
    | none =>
      obtain ⟨hrate, hban, hsig⟩ := hadm.1 rfl
      cases hcore : w.core (request.fill email) with
      | none =>
        simp only [hout, hcore, witnessed_commits, true_iff]
        exact ⟨hrate, hban, hsig, by simp [hcore]⟩
      | some validation =>
        cases hacc : validation.accepted with
        | true =>
          simp only [hout, hcore, hacc, if_true, witnessed_commits, true_iff]
          exact ⟨hrate, hban, hsig, by simp [hcore, hacc]⟩
        | false => simp [hout, hcore, hacc, Witnessable]

/-! ## Messages -/

/-- The message brings what its handler wants before it asks Lambda for a change. -/
def Admitted (w : Outside) (limiter : RateLimiter) (email : Email) : Prop :=
  match typeOf email with
  | some .witness => ∃ request, w.decodeWitness email.payload.rawUmpBody = .ok request ∧
      Witnessable w limiter (request.fill email)
  | some .redeem => ∃ request, w.decodeRedeem email.payload.rawUmpBody = .ok request
  | some .ack => (∃ txid, email.payload.txid = some txid ∧ txid.length = 32) ∧
      email.payload.validatorPk.isSome ∧ email.payload.senderSig.isSome ∧
      email.payload.clientPk.isSome
  | some .initGenesisDev => email.payload.publicKey.isSome ∧ email.payload.balance.isSome
  | some .vbcSignRequest => HasVbcKeys email ∧ w.keepsSignRequest
  | some .vbcSignCommit => HasVbcKeys email ∧ email.payload.issuedAt.isSome ∧
      email.payload.expiresAt.isSome ∧ email.payload.chainDepth.isSome ∧
      email.payload.issuerSetHex.length = 3
  | some .setAuthHash => email.payload.publicKey.isSome ∧
      ∃ authHash, email.payload.authHash = some authHash ∧ authHash.length = 32
  | _ => False

/-- A handler whose message is answered changes something exactly when the message is admitted. -/
theorem handle_commits {w : Outside} {limiter : RateLimiter} {email : Email}
    (hband : ¬ answersOutOfBand email) :
    (∃ e ∈ (handle w limiter email).2.1, e.commits w) ↔ Admitted w limiter email := by
  unfold handle Admitted
  cases htype : typeOf email with
  | none => simp
  | some t =>
    cases t with
    | witness => exact handleWitnessRequest_commits
    | redeem => exact callLambda_commits.trans asks_redeem
    | ack => exact callLambda_commits.trans asks_ack
    | query => exact callLambda_commits.trans (iff_false_intro not_asks_query)
    | validatorStatus => simp [callLambda, Effect.commits, LambdaCall.changes]
    | initGenesisDev => exact callLambda_commits.trans asks_genesisDev
    | vbcSignRequest => exact callLambda_commits.trans asks_vbcSignRequest
    | vbcSignCommit => exact callLambda_commits.trans asks_vbcSignCommit
    | setAuthHash => exact callLambda_commits.trans asks_setAuthHash
    | peerAuditRequest => exact absurd (by simp [answersOutOfBand, htype]) hband
    | peerAuditResponse => exact absurd (by simp [answersOutOfBand, htype]) hband
    | fanoutRelay => simp [handleFanoutRelay]

/-! ## Replies -/

def replyTo (w : Outside) (limiter : RateLimiter) (email : Email) : ResponsePayload :=
  match (handle w limiter email).2.2 with
  | .ok payload => payload
  | .error e => errorReply email.requestId e

/-- The custody checks refuse a reply: the stamp and the sender disagree, or the reply is not mailed
and its name is unsafe. -/
def CustodyRefuses (w : Outside) (original : Email) (payload : ResponsePayload) : Prop :=
  ∃ stamp ∈ original.custody, stampDisagrees w stamp.1 original.sender ∨
    ∃ row ∈ custodyRoute w stamp.1, row.suppressEmail ∧ unsafeName (replyName payload.requestId)

instance (w : Outside) (original : Email) (payload : ResponsePayload) :
    Decidable (CustodyRefuses w original payload) := by
  unfold CustodyRefuses
  infer_instance

theorem mailReply_commits {w : Outside} {receiver : Bytes} :
    ∀ e ∈ (mailReply w receiver).1, ¬ e.commits w := by
  unfold mailReply
  split <;> simp [Effect.commits]

theorem routeReply_commits {w : Outside} {original : Email} {payload : ResponsePayload} :
    ∀ e ∈ (routeReply w original payload).1, ¬ e.commits w := by
  have hmail : ∀ e ∈ (mailReply w original.sender).1, ¬ e.commits w := mailReply_commits
  simp only [routeReply]
  cases original.custody with
  | none => exact hmail
  | some stamp =>
    by_cases hstamp : stampDisagrees w stamp.1 original.sender
    · simp [hstamp]
    · cases hroute : custodyRoute w stamp.1 with
      | none => simpa [hstamp, hroute] using hmail
      | some row =>
        by_cases hsup : row.suppressEmail
        · by_cases hdeposit : unsafeName (replyName payload.requestId) = false ∧ w.writeCustody <;>
            simp [hstamp, hroute, hdeposit, hsup, Effect.commits]
        · by_cases hdeposit : unsafeName (replyName payload.requestId) = false ∧ w.writeCustody <;>
            simpa [hstamp, hroute, hdeposit, hsup, Effect.commits] using hmail

/-- Sending a reply changes nothing. -/
theorem sendResponse_commits {w : Outside} {original : Email} {payload : ResponsePayload} :
    ∀ e ∈ (sendResponse w original payload).1, ¬ e.commits w := by
  intro e he
  unfold sendResponse at he
  split at he
  · exact absurd he List.not_mem_nil
  · rcases List.mem_append.1 he with he | he
    · split_ifs at he
      · obtain ⟨correlate, -, rfl⟩ := List.mem_map.1 he
        exact Bool.false_ne_true
      · exact absurd he List.not_mem_nil
    · exact routeReply_commits e he

/-! ## Refused messages -/

/-- The reply to the message goes through `send_response`, and the custody checks refuse it. -/
def ReplyRefused (w : Outside) (limiter : RateLimiter) (email : Email) : Prop :=
  ¬ answersOutOfBand email ∧ CustodyRefuses w email (replyTo w limiter email)

instance (w : Outside) (limiter : RateLimiter) (email : Email) :
    Decidable (ReplyRefused w limiter email) := by
  unfold ReplyRefused
  infer_instance

/-- A message does what its handler does, and then sends the reply. -/
theorem processMessage_effects {w : Outside} {limiter : RateLimiter} {raw : Bytes} {email : Email}
    (hparse : parseEmailOutcome w.parser w.decode raw = .ok email)
    (hband : ¬ answersOutOfBand email) (hsize : ¬ maxMessageBytes < raw.length)
    (hvbc : ¬ (w.vbcDelivery raw).isSome) :
    (processMessage w limiter raw).2 =
      ((handle w limiter email).2.1 ++ (sendResponse w email (replyTo w limiter email)).1,
        (sendResponse w email (replyTo w limiter email)).2) := by
  simp only [processMessage, if_neg hsize, if_neg hvbc, hparse, if_neg hband]
  rfl

/-- A message whose reply the custody checks refuse makes no state-changing call of Lambda and
delivers no cheque exactly when it is dropped unread, or it is a certificate, or its handler does
not ask for a change. -/
theorem refused_commits_nothing_iff {w : Outside} {limiter : RateLimiter} {raw : Bytes}
    {email : Email} (hparse : parseEmailOutcome w.parser w.decode raw = .ok email)
    (href : ReplyRefused w limiter email) :
    (∀ e ∈ (processMessage w limiter raw).2.1, ¬ e.commits w) ↔
      maxMessageBytes < raw.length ∨ (w.vbcDelivery raw).isSome ∨ ¬ Admitted w limiter email := by
  by_cases hsize : maxMessageBytes < raw.length
  · simp [processMessage, hsize]
  by_cases hvbc : (w.vbcDelivery raw).isSome
  · simp [processMessage, hsize, hvbc, Effect.commits]
  rw [processMessage_effects hparse href.1 hsize hvbc, ← handle_commits href.1,
    List.forall_mem_append, and_iff_left sendResponse_commits, or_iff_right hsize,
    or_iff_right hvbc]
  simp only [not_exists, not_and]

def plainHeader (raw name : Bytes) : Option Bytes :=
  ((Headers.fold (Headers.block raw)).2.find? fun f =>
    Headers.name f = some (name.map lower)).map Headers.value

/-- The parser, on mails whose headers are plain. -/
def plainParser (raw : Bytes) : Option Mail :=
  some ⟨plainHeader raw (ascii "From"), plainHeader raw (ascii "Message-ID"),
    plainHeader raw (ascii "Subject"), plainHeader raw, ((cut (crlf ++ crlf) raw).map (·.2)).getD []⟩

def payment : WitnessRequest :=
  ⟨[], [], ⟨ascii "a@axiom.internal/1", ascii "b@mail/2", none, [], []⟩, [], none, none, []⟩

/-- A gateway at which everything goes well, with an outbox for the replies of sessions. -/
def sampleGateway : Outside where
  parser := plainParser
  decode _ body := .ok { Payload.empty with rawUmpBody := body }
  vbcDelivery _ := none
  decodeWitness _ := .ok payment
  decodeRedeem _ := .error []
  isDevWallet addr := (addr.takeWhile (· ≠ 47)).dropWhile (· ≠ 64) = ascii "@axiom.internal"
  validWalletId _ := true
  burnAddress := ascii "burn"
  banFile := none
  banKeys _ := []
  sigPrefilter := false
  verifySig _ := true
  core _ := some ⟨true, none, none, none⟩
  witness request := .ok ⟨⟨true, request.requestId, none, none, []⟩, some [], none, none, none⟩
  peerAudit _ := .error (.lambdaError [])
  answer _ := .ok ⟨true, none, []⟩
  keepsSignRequest := true
  chequeEmail _ _ _ := some []
  scarConsentEmail _ _ := some []
  vbcEmail _ _ := some []
  peerAuditEmail _ _ := some []
  send _ := .ok ()
  writePickup _ := true
  writeSkipped := true
  writeCustody := true
  identity := ascii "v@mail"
  pickup := false
  skipList := none
  uncleSink := false
  custodyRoutes := [⟨ascii "X-TOT-Session", ascii "out", true⟩]
  cooldown := 5
  now := 100

/-- A message of a dev wallet in a normal session. -/
def stampedMail (messageType : Bytes) : Bytes :=
  ascii "From: a@axiom.internal\r\nX-TOT-Session: " ++ List.replicate 64 48 ++
    ascii "\r\nSubject: AXIOM/" ++ messageType ++ ascii "/7\r\n\r\n"

/-- A query changes nothing, and its reply is refused. -/
theorem refused_commits_nothing_status :
    ∃ email, parseEmailOutcome sampleGateway.parser sampleGateway.decode
      (stampedMail (ascii "validator_status")) = .ok email ∧
      ReplyRefused sampleGateway [] email ∧
      ∀ e ∈ (processMessage sampleGateway [] (stampedMail (ascii "validator_status"))).2.1,
        ¬ e.commits sampleGateway := by
  obtain ⟨email, hparse, href, htype⟩ : ∃ email, parseEmailOutcome sampleGateway.parser
      sampleGateway.decode (stampedMail (ascii "validator_status")) = .ok email ∧
      ReplyRefused sampleGateway [] email ∧ typeOf email = some .validatorStatus :=
    ParseOutcome.exists_of_decide (by decide +kernel)
  refine ⟨email, hparse, href, (refused_commits_nothing_iff hparse href).2 ?_⟩
  exact Or.inr (Or.inr (by simp [Admitted, htype]))

/-- The reply to a payment of a dev wallet in a normal session is refused, after Lambda has
witnessed the payment and the cheque has gone out. -/
theorem refused_witness_commits :
    ∃ email, parseEmailOutcome sampleGateway.parser sampleGateway.decode
      (stampedMail (ascii "witness")) = .ok email ∧ ReplyRefused sampleGateway [] email ∧
      ¬ ∀ e ∈ (processMessage sampleGateway [] (stampedMail (ascii "witness"))).2.1,
        ¬ e.commits sampleGateway :=
  ParseOutcome.exists_of_decide (by decide +kernel)

end Antie.Gateway
