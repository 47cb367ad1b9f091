import AxiomCarriers.Antie.Gateway

/-!
# The mails that ANTIE writes

The builders differ in the subject and in what they check first; all write the sender and the
recipient into the first two lines.  A mail for a third party is encrypted for its receiver where a
key is found.
-/

namespace Antie.Outgoing

open Bytes Gateway

/-- `sanitize_header`. -/
def sanitizeHeader (value : Bytes) : Bytes := value.filter fun b => b ≠ CR ∧ b ≠ LF

/-- What a builder draws: its random ids, and the time in seconds and as a date. -/
structure Stamp where
  requestId : Bytes
  messageId : Bytes
  timestamp : Bytes
  date : Bytes

/-- A mail with the base64 text of its body. -/
def build (recipient sender subject : Bytes) (stamp : Stamp) (inReplyTo : Option Bytes)
    (encoded : Bytes) : Bytes :=
  ascii "From: " ++ sanitizeHeader sender ++ crlf ++
    (ascii "To: " ++ sanitizeHeader recipient ++ crlf ++
      (ascii "Subject: AXIOM/" ++ subject ++ crlf ++
        (ascii "Message-ID: <" ++ stamp.messageId ++ ascii "." ++ stamp.timestamp ++
          ascii "@axiom>\r\n" ++
          (ascii "Date: " ++ stamp.date ++ crlf ++
            (ascii "Content-Type: text/plain; charset=utf-8\r\n" ++
              ((inReplyTo.map fun id => ascii "In-Reply-To: " ++ sanitizeHeader id ++ crlf).getD [] ++
                (crlf ++ encoded ++ crlf)))))))

/-- `build_response`. -/
def buildResponse (recipient sender messageType requestId : Bytes) (stamp : Stamp)
    (inReplyTo : Option Bytes) (encoded : Bytes) : Except AntieError Bytes := do
  validateEmailAddr recipient
  validateEmailAddr sender
  return build recipient sender (sanitizeHeader messageType ++ 47 :: sanitizeHeader requestId) stamp
    inReplyTo encoded

/-- `build_cheque_delivery_email`; `txid` has the first bytes of the transaction id in
hexadecimal. -/
def buildChequeDeliveryEmail (recipient sender : Bytes) (stamp : Stamp) (originMatches : Bool)
    (txid encoded : Bytes) : Except AntieError Bytes :=
  if originMatches then
    .ok (build recipient sender (ascii "cheque/" ++ stamp.requestId) stamp none encoded)
  else
    .error (.invalidPayload (ascii "cheque " ++ txid ++
      utf8 (": send_origin does not reproduce the cheque txid — refusing to deliver a cheque " ++
        "the receiver would reject (KI#241 F-2)")))

/-- `build_vbc_delivery_email`. -/
def buildVbcDeliveryEmail (recipient sender : Bytes) (stamp : Stamp) (encoded : Bytes) : Bytes :=
  build recipient sender (ascii "vbc/" ++ stamp.requestId) stamp none encoded

/-- `build_scar_consent_email`. -/
def buildScarConsentEmail (recipient sender : Bytes) (stamp : Stamp) (encoded : Bytes) : Bytes :=
  build recipient sender (ascii "scar_consent/" ++ stamp.requestId) stamp none encoded

/-! ## Encryption -/

/-- The keyserver and its cache, and OpenPGP: from a certificate and a text, an encrypted
message. -/
structure Pgp where
  keyserver : Bytes → Option Bytes
  encrypt : Bytes → Bytes → Option Bytes

/-- `lookup_key_bytes`. -/
def Pgp.lookupKeyBytes (pgp : Pgp) (email : Bytes) : Option Bytes :=
  if ascii "@axiom" <:+ email then none else pgp.keyserver email

/-- `try_encrypt_for_email`. -/
def Pgp.tryEncryptForEmail (pgp : Pgp) (email plaintext : Bytes) : Bytes × Bool :=
  match (pgp.lookupKeyBytes email).bind fun cert => pgp.encrypt cert plaintext with
  | some encrypted => (encrypted, true)
  | none => (plaintext, false)

/-- What is documented of an encrypted message: it is a sequence of packets, and the first bit of a
packet is set. -/
def Pgp.WritesPackets (pgp : Pgp) : Prop :=
  ∀ cert plaintext encrypted, pgp.encrypt cert plaintext = some encrypted →
    ∃ tag r, encrypted = tag :: r ∧ 128 ≤ tag

/-- The keys are the same, and the encryption succeeds on the same messages; what it writes is drawn
anew each time. -/
structure Pgp.Outcomes (pgp' pgp : Pgp) : Prop where
  keyserver : pgp'.keyserver = pgp.keyserver
  encrypt : ∀ cert plaintext, (pgp'.encrypt cert plaintext).isSome = (pgp.encrypt cert plaintext).isSome

theorem Pgp.Outcomes.refl (pgp : Pgp) : pgp.Outcomes pgp := ⟨rfl, fun _ _ => rfl⟩

/-- The encryption that writes `encrypted` wherever `pgp` succeeds. -/
def Pgp.writing (pgp : Pgp) (encrypted : Bytes) : Pgp :=
  ⟨pgp.keyserver, fun cert plaintext => (pgp.encrypt cert plaintext).map fun _ => encrypted⟩

theorem Pgp.outcomes_writing (pgp : Pgp) (encrypted : Bytes) : (pgp.writing encrypted).Outcomes pgp :=
  ⟨rfl, fun _ _ => Option.isSome_map⟩

theorem Pgp.lookupKeyBytes_eq {pgp' pgp : Pgp} (h : pgp'.Outcomes pgp) (email : Bytes) :
    pgp'.lookupKeyBytes email = pgp.lookupKeyBytes email := by
  rw [Pgp.lookupKeyBytes, Pgp.lookupKeyBytes, h.keyserver]

theorem Pgp.Outcomes.bind_eq_none {pgp' pgp : Pgp} (h : pgp'.Outcomes pgp) {email plaintext : Bytes} :
    (pgp'.lookupKeyBytes email).bind (fun cert => pgp'.encrypt cert plaintext) = none ↔
      (pgp.lookupKeyBytes email).bind (fun cert => pgp.encrypt cert plaintext) = none := by
  rw [Pgp.lookupKeyBytes_eq h]
  cases pgp.lookupKeyBytes email with
  | none => rfl
  | some cert =>
    simp only [Option.bind_some, ← Option.isNone_iff_eq_none, ← Option.not_isSome, h.encrypt]

/-- Nothing is encrypted: the address is local, has no key, or its key does not serve. -/
theorem Pgp.bind_eq_none_iff {pgp : Pgp} {email plaintext : Bytes} :
    (pgp.lookupKeyBytes email).bind (fun cert => pgp.encrypt cert plaintext) = none ↔
      ascii "@axiom" <:+ email ∨ pgp.keyserver email = none ∨
        ∃ cert, pgp.keyserver email = some cert ∧ pgp.encrypt cert plaintext = none := by
  unfold Pgp.lookupKeyBytes
  by_cases hlocal : ascii "@axiom" <:+ email
  · simp [hlocal]
  · cases pgp.keyserver email <;> simp [hlocal]

/-- The mails: a reply, and what is for third parties. -/
inductive Kind
  | response
  | cheque
  | certificate
  | scarConsent
  deriving DecidableEq

/-- The mail of a kind, as its builder writes it. -/
inductive Built (recipient sender : Bytes) : Kind → Bytes → Prop
  | response {messageType requestId stamp inReplyTo encoded mail}
      (h : buildResponse recipient sender messageType requestId stamp inReplyTo encoded = .ok mail) :
      Built recipient sender .response mail
  | cheque {stamp originMatches txid encoded mail}
      (h : buildChequeDeliveryEmail recipient sender stamp originMatches txid encoded = .ok mail) :
      Built recipient sender .cheque mail
  | certificate {stamp encoded} :
      Built recipient sender .certificate (buildVbcDeliveryEmail recipient sender stamp encoded)
  | scarConsent {stamp encoded} :
      Built recipient sender .scarConsent (buildScarConsentEmail recipient sender stamp encoded)

/-- The bytes that go out: a reply as it is, another mail encrypted if possible. -/
def emitted (pgp : Pgp) (recipient : Bytes) : Kind → Bytes → Bytes
  | .response, mail => mail
  | _, mail => (pgp.tryEncryptForEmail recipient mail).1

theorem buildResponse_ok {recipient sender messageType requestId : Bytes} {stamp : Stamp}
    {inReplyTo : Option Bytes} {encoded mail : Bytes}
    (h : buildResponse recipient sender messageType requestId stamp inReplyTo encoded = .ok mail) :
    CR ∉ recipient ∧ LF ∉ recipient ∧ mail = build recipient sender
      (sanitizeHeader messageType ++ 47 :: sanitizeHeader requestId) stamp inReplyTo encoded := by
  have hrec : validateEmailAddr recipient = .ok () := by
    cases hr : validateEmailAddr recipient with
    | ok => rfl
    | error e =>
      rw [buildResponse, hr] at h
      cases h
  have hsen : validateEmailAddr sender = .ok () := by
    cases hs : validateEmailAddr sender with
    | ok => rfl
    | error e =>
      rw [buildResponse, hrec, hs] at h
      cases h
  rw [buildResponse, hrec, hsen] at h
  unfold validateEmailAddr at hrec
  split_ifs at hrec with hline
  rw [not_or] at hline
  exact ⟨hline.1, hline.2, (Except.ok.inj h).symm⟩

/-- Every builder writes the sender and the recipient first. -/
theorem Built.headers {recipient sender : Bytes} {kind : Kind} {mail : Bytes}
    (h : Built recipient sender kind mail) : ∃ rest, mail =
      ascii "From: " ++ sanitizeHeader sender ++ crlf ++
        (ascii "To: " ++ sanitizeHeader recipient ++ crlf ++ rest) := by
  cases h with
  | response h => exact ⟨_, (buildResponse_ok h).2.2⟩
  | cheque h =>
    unfold buildChequeDeliveryEmail at h
    split_ifs at h
    exact ⟨_, (Except.ok.inj h).symm⟩
  | certificate => exact ⟨_, rfl⟩
  | scarConsent => exact ⟨_, rfl⟩

theorem emitted_plain {pgp : Pgp} {recipient mail : Bytes}
    (h : (pgp.lookupKeyBytes recipient).bind (fun cert => pgp.encrypt cert mail) = none) (kind : Kind) :
    emitted pgp recipient kind mail = mail := by
  cases kind <;> simp [emitted, Pgp.tryEncryptForEmail, h]

theorem emitted_encrypted {pgp : Pgp} {recipient cert : Bytes}
    (h : pgp.lookupKeyBytes recipient = some cert) {kind : Kind} (hkind : kind ≠ .response)
    {mail encrypted : Bytes} (henc : pgp.encrypt cert mail = some encrypted) :
    emitted pgp recipient kind mail = encrypted := by
  cases kind <;> simp_all [emitted, Pgp.tryEncryptForEmail]

end Antie.Outgoing
