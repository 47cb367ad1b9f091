import AxiomCarriers.Lib.Text

/-!
# The mails that ANTIE takes

`parse_email_outcome` reads a mail into an `Email`: its subject names the type of the message and
the request, the custody header names the session that waits for the reply, and the body holds the
payload.  The request id is whatever stands behind the second slash of the subject
(`parseSubject_subject`).
-/

namespace Antie

open Bytes

/-- `ciborium::Value`, as far as it is looked at. -/
inductive Value
  | int (n : ℤ)
  | bytes (b : Bytes)
  | text (t : Bytes)
  | array (vs : List Value)
  | map (entries : List (Value × Value))
  | other

/-- `AntiePayload`.  Values of Core's types are kept as they are encoded. -/
structure Payload where
  rawUmpBody : Bytes
  queryParams : Option Value
  publicKey : Option Bytes
  balance : Option ℕ
  groupMembers : Option (List Bytes)
  txid : Option Bytes
  validatorPk : Option Bytes
  senderSig : Option Bytes
  clientPk : Option Bytes
  sphincsPkHex : Option Bytes
  dilithiumPkHex : Option Bytes
  ed25519PkHex : Option Bytes
  pgpFingerprintHex : Option Bytes
  issuedAt : Option ℕ
  expiresAt : Option ℕ
  chainDepth : Option ℕ
  issuerSetHex : List Bytes
  proofCap : Option Bytes
  nodeName : Option Bytes
  authHash : Option Bytes
  peerAuditRequest : Option Bytes
  peerAuditResponse : Option Bytes
  peerAuditNotHeld : Option Bytes

/-- `AntiePayload::default`. -/
def Payload.empty : Payload :=
  ⟨[], none, none, none, none, none, none, none, none, none, none, none, none, none, none, none, [],
    none, none, none, none, none, none⟩

/-- `AntieEmail`. -/
structure Email where
  sender : Bytes
  messageType : Bytes
  requestId : Bytes
  messageId : Option Bytes
  payload : Payload
  uncleCorrelate : Option Bytes
  custody : Option (Bytes × Bytes)

/-- A mail as `mail_parser` reads it. -/
structure Mail where
  sender : Option Bytes
  messageId : Option Bytes
  subject : Option Bytes
  headerRaw : Bytes → Option Bytes
  body : Bytes

/-- `AntieError`, the variants that messages come to. -/
inductive AntieError
  | maildirError (text : Bytes)
  | emailParseError (text : Bytes)
  | invalidPayload (text : Bytes)
  | lambdaError (text : Bytes)
  | rateLimited (text : Bytes)
  | walletBanned (text : Bytes)
  | lambdaRejected (code message : Bytes)
  deriving DecidableEq

def AntieError.text : AntieError → Bytes
  | .maildirError s => ascii "Maildir error: " ++ s
  | .emailParseError s => ascii "Email parse error: " ++ s
  | .invalidPayload s => ascii "Invalid payload: " ++ s
  | .lambdaError s => ascii "Lambda error: " ++ s
  | .rateLimited s => s
  | .walletBanned s => s
  | .lambdaRejected _ message => ascii "Lambda error: " ++ message

inductive ParseOutcome
  | ok (email : Email)
  | decryptFailed
  | error (e : AntieError)

theorem ParseOutcome.exists_of_decide {o : ParseOutcome} {P : Email → Prop} [DecidablePred P]
    (h : (match o with | .ok email => decide (P email) | _ => false) = true) :
    ∃ email, o = .ok email ∧ P email := by
  split at h
  · exact ⟨_, rfl, of_decide_eq_true h⟩
  · exact absurd h Bool.false_ne_true

def custodyHeaders : List Bytes := [ascii "X-TOT-Session"]

def isHexDigit (b : UInt8) : Bool :=
  (48 ≤ b && b ≤ 57) || (97 ≤ b && b ≤ 102) || (65 ≤ b && b ≤ 70)

def hexValue (b : UInt8) : UInt8 :=
  if b ≤ 57 then b - 48 else if b ≤ 70 then b - 55 else b - 87

/-- `hex::decode` of hexadecimal digits. -/
def hexDecode : Bytes → Bytes
  | a :: b :: r => (16 * hexValue a + hexValue b) :: hexDecode r
  | _ => []

/-- The id in a custody or correlation header: 64 hexadecimal digits. -/
def headerId (raw : Bytes) : Option Bytes :=
  let id := Text.trim raw
  if id.length = 64 ∧ id.all isHexDigit then some id else none

/-- The custody header of a mail and the session it names. -/
def custody (mail : Mail) : Option (Bytes × Bytes) :=
  custodyHeaders.findSome? fun name =>
    ((mail.headerRaw name).bind headerId).map fun id => (name, id.map Bytes.lower)

def parseSubject (subject : Bytes) : Except AntieError (Bytes × Bytes) :=
  match subject.splitOn 47 with
  | first :: messageType :: part :: parts =>
    if first ≠ ascii "AXIOM" then
      .error (.emailParseError (ascii "Invalid subject format: " ++ subject ++
        ascii ". Expected: AXIOM/<type>/<request_id>"))
    else .ok (messageType, [47].intercalate (part :: parts))
  | _ =>
    .error (.emailParseError (ascii "Invalid subject format: " ++ subject ++
      ascii ". Expected: AXIOM/<type>/<request_id>"))

inductive Decoded
  | ok (payload : Payload)
  | decryptFailed
  | error (e : AntieError)

/-- `parse_email_outcome`, over the mail parser and the decoder of the body. -/
def parseEmailOutcome (parser : Bytes → Option Mail) (decode : Bytes → Bytes → Decoded)
    (raw : Bytes) : ParseOutcome :=
  match parser raw with
  | none => .error (.emailParseError (ascii "Failed to parse email"))
  | some mail =>
    match parseSubject (mail.subject.getD []) with
    | .error e => .error e
    | .ok (messageType, requestId) =>
      match decode messageType mail.body with
      | .decryptFailed => .decryptFailed
      | .error e => .error e
      | .ok payload => .ok {
          sender := mail.sender.getD []
          messageType := messageType
          requestId := requestId
          messageId := mail.messageId
          payload := payload
          uncleCorrelate :=
            ((mail.headerRaw (ascii "X-UNCLE-Correlate")).bind headerId).map hexDecode
          custody := custody mail }

/-- Every text without a slash is a message type, and every text at all a request id. -/
theorem parseSubject_subject {messageType : Bytes} (h : 47 ∉ messageType) (requestId : Bytes) :
    parseSubject (ascii "AXIOM" ++ 47 :: (messageType ++ 47 :: requestId)) =
      .ok (messageType, requestId) := by
  have hfirst : 47 ∉ ascii "AXIOM" := by simp [ascii]
  obtain ⟨part, parts, hparts⟩ := List.exists_cons_of_ne_nil (List.splitOn_ne_nil 47 requestId)
  have hjoin : [47].intercalate (part :: parts) = requestId := by
    rw [← hparts, List.intercalate_splitOn]
  have hsplit : (ascii "AXIOM" ++ 47 :: (messageType ++ 47 :: requestId)).splitOn 47 =
      ascii "AXIOM" :: messageType :: part :: parts := by
    rw [List.splitOn_append_cons_self_of_not_mem hfirst,
      List.splitOn_append_cons_self_of_not_mem h, hparts]
  simp only [parseSubject, hsplit, hjoin, ne_eq, not_true_eq_false, if_false]

end Antie
