import AxiomCarriers.Antie.Email
import AxiomCarriers.Lib.Base64
import AxiomCarriers.Tot.Stamp

/-!
# The body of a mail

The body of a mail is base64, of an envelope or of the payload itself: three types of messages,
those that validators send each other, come without an envelope, and every other type must have one.
An envelope is plain or encrypted, and there may be no key to open it.

`wire_format_strict` says that a mail is accepted only in the shape that its type calls for, with
the payload as its raw body, and that a failed decryption is reported for an encrypted envelope
only.
-/

namespace Antie.WireFormat

open Bytes

/-! ## Reading the body -/

/-- `UmpEnvelope`. -/
inductive UmpEnvelope
  | plain (umpBytes : Bytes)
  | encrypted (fields : Bytes)

/-- What is decoded elsewhere: `UmpEnvelope::from_cbor`, the decryptor of this validator and its
`open`, the decoder of the payload with its error, and the texts of a failed base64 decoding and of
a quoted string. -/
structure Decoding where
  fromCbor : Bytes → Option UmpEnvelope
  decryptor : Option (UmpEnvelope → Option Bytes)
  fromReader : Bytes → Except Bytes Payload
  base64Error : Bytes → Bytes
  quoted : Bytes → Bytes

/-- `RAW_CBOR_MESSAGE_TYPES`. -/
def rawCborMessageTypes : List Bytes :=
  [ascii "peer_audit_request", ascii "peer_audit_response", ascii "fanout_relay"]

def requiresEnvelope (messageType : Bytes) : Bool := messageType ∉ rawCborMessageTypes

inductive DecodeError
  | decryptFailed
  | other (e : AntieError)

/-- `hex::encode` of the first 32 bytes. -/
def hexPrefix (b : Bytes) : Bytes :=
  (b.take 32).flatMap fun x => [Tot.hexDigit (x / 16), Tot.hexDigit (x % 16)]

def unwrapByFormat (d : Decoding) (messageType decoded : Bytes) : Except DecodeError Bytes :=
  if requiresEnvelope messageType then
    match d.fromCbor decoded with
    | some (.plain umpBytes) => .ok umpBytes
    | some (.encrypted fields) =>
      match d.decryptor with
      | none => .error .decryptFailed
      | some opens =>
        match opens (.encrypted fields) with
        | none => .error .decryptFailed
        | some inner => .ok inner
    | none => .error (.other (.emailParseError (ascii "wire format violation: message type " ++
        d.quoted messageType ++ ascii " requires UmpEnvelope, body parses as raw CBOR (" ++
        Text.decimal decoded.length ++ ascii " bytes, hex prefix " ++ hexPrefix decoded ++
        ascii ")")))
  else if (d.fromCbor decoded).isSome then
    .error (.other (.emailParseError (ascii "wire format violation: message type " ++
      d.quoted messageType ++ ascii " ships raw CBOR but body parses as UmpEnvelope")))
  else .ok decoded

def decodePayloadInner (d : Decoding) (decoded : Bytes) : Except AntieError Payload :=
  match d.fromReader decoded with
  | .error e => .error (.emailParseError (ascii "CBOR decode failed: " ++ e))
  | .ok payload => .ok { payload with rawUmpBody := decoded }

/-- The body without its white space. -/
def cleaned (body : Bytes) : Bytes := ((Text.marks body).filter fun x => !x.2).map (·.1)

def decodePayloadWithContext (d : Decoding) (messageType body : Bytes) : Decoded :=
  match Base64.decode (cleaned body) with
  | none =>
    .error (.emailParseError (ascii "Base64 decode failed: " ++ d.base64Error (cleaned body)))
  | some decoded =>
    if decoded = [] then .error (.emailParseError (ascii "Empty payload"))
    else match unwrapByFormat d messageType decoded with
      | .error .decryptFailed => .decryptFailed
      | .error (.other e) => .error e
      | .ok inner =>
        match decodePayloadInner d inner with
        | .error e => .error e
        | .ok payload => .ok payload

/-! ## Reading the mail -/

/-- A mail as `mail_parser` reads it, with its text body and its HTML body. -/
structure Message where
  sender : Option Bytes
  messageId : Option Bytes
  subject : Option Bytes
  headerRaw : Bytes → Option Bytes
  bodyText : Option Bytes
  bodyHtml : Option Bytes

/-- The text of an HTML body: what follows each tag, trimmed. -/
def stripTags (html : Bytes) : Bytes :=
  let texts := (html.flatMap fun b => if b = 60 then [32, 60] else [b]).splitOn 60
  [32].intercalate (texts.map fun s =>
    Text.trim (if 62 ∈ s then (s.dropWhile (· ≠ 62)).tail else s))

def extractBody (message : Message) : Except AntieError Bytes :=
  match message.bodyText, message.bodyHtml with
  | some body, _ => .ok body
  | none, some html => .ok (stripTags html)
  | none, none => .error (.emailParseError (ascii "No body found"))

/-- The mail with the body that is read. -/
def Message.mail (message : Message) (body : Bytes) : Mail :=
  ⟨message.sender, message.messageId, message.subject, message.headerRaw, body⟩

/-- `parse_email_outcome`. -/
def parseEmailOutcome (d : Decoding) (parser : Bytes → Option Message) (raw : Bytes) :
    ParseOutcome :=
  match parser raw with
  | none => .error (.emailParseError (ascii "Failed to parse email"))
  | some message =>
    match parseSubject (message.subject.getD []) with
    | .error e => .error e
    | .ok (messageType, requestId) =>
      match extractBody message with
      | .error e => .error e
      | .ok body =>
        match decodePayloadWithContext d messageType body with
        | .decryptFailed => .decryptFailed
        | .error e => .error e
        | .ok payload => .ok {
            sender := message.sender.getD []
            messageType := messageType
            requestId := requestId
            messageId := message.messageId
            payload := payload
            uncleCorrelate :=
              ((message.headerRaw (ascii "X-UNCLE-Correlate")).bind headerId).map hexDecode
            custody := custody (message.mail body) }

/-- A mail that has a body is read as the gateway reads it. -/
theorem parseEmailOutcome_eq (d : Decoding) {parser : Bytes → Option Message} {raw : Bytes}
    {message : Message} {body : Bytes} (hmessage : parser raw = some message)
    (hbody : extractBody message = .ok body) :
    parseEmailOutcome d parser raw =
      Antie.parseEmailOutcome (fun _ => some (message.mail body)) (decodePayloadWithContext d)
        raw := by
  simp only [parseEmailOutcome, Antie.parseEmailOutcome, hmessage, hbody]
  rfl

/-! ## The shapes -/

/-- The bytes of a body carry a payload in the shape that the type of the message calls for. -/
inductive Carries (d : Decoding) (messageType decoded : Bytes) : Bytes → Prop
  | plain {inner : Bytes} (type : requiresEnvelope messageType)
      (envelope : d.fromCbor decoded = some (.plain inner)) : Carries d messageType decoded inner
  | opened {fields inner : Bytes} {opens : UmpEnvelope → Option Bytes}
      (type : requiresEnvelope messageType)
      (envelope : d.fromCbor decoded = some (.encrypted fields))
      (decryptor : d.decryptor = some opens) (opened : opens (.encrypted fields) = some inner) :
      Carries d messageType decoded inner
  | raw (type : ¬ requiresEnvelope messageType) (envelope : d.fromCbor decoded = none) :
      Carries d messageType decoded decoded

variable {d : Decoding} {messageType body decoded inner : Bytes}

theorem unwrapByFormat_eq_ok_iff :
    unwrapByFormat d messageType decoded = .ok inner ↔ Carries d messageType decoded inner := by
  constructor
  · intro h
    unfold unwrapByFormat at h
    split at h
    next htype =>
      split at h
      next henvelope =>
        rw [← Except.ok.inj h]
        exact .plain htype henvelope
      next fields henvelope =>
        split at h
        · cases h
        next opens hopens =>
          split at h
          · cases h
          next hopened =>
            rw [← Except.ok.inj h]
            exact .opened htype henvelope hopens hopened
      · cases h
    next htype =>
      split_ifs at h with henvelope
      rw [← Except.ok.inj h]
      exact .raw htype (Option.not_isSome_iff_eq_none.1 henvelope)
  · intro h
    cases h with
    | plain type envelope => simp [unwrapByFormat, type, envelope]
    | opened type envelope decryptor opened =>
      simp [unwrapByFormat, type, envelope, decryptor, opened]
    | raw type envelope => simp [unwrapByFormat, type, envelope]

theorem unwrapByFormat_decryptFailed
    (h : unwrapByFormat d messageType decoded = .error .decryptFailed) :
    requiresEnvelope messageType ∧ ∃ fields, d.fromCbor decoded = some (.encrypted fields) := by
  unfold unwrapByFormat at h
  split at h
  next htype =>
    split at h
    · cases h
    next fields henvelope => exact ⟨htype, fields, henvelope⟩
    · cases h
  · split_ifs at h
    cases h

/-- The wrong shape is an error of the mail, and no failed decryption. -/
theorem unwrapByFormat_shape (h : requiresEnvelope messageType ↔ d.fromCbor decoded = none) :
    ∃ e, unwrapByFormat d messageType decoded = .error (.other e) := by
  unfold unwrapByFormat
  by_cases htype : requiresEnvelope messageType
  · simp [htype, h.1 htype]
  · have henvelope : (d.fromCbor decoded).isSome :=
      Option.isSome_iff_ne_none.2 fun hnone => htype (h.2 hnone)
    simp [htype, henvelope]

theorem decodePayload_ok {payload : Payload}
    (h : decodePayloadWithContext d messageType body = .ok payload) :
    ∃ decoded ≠ [], cleaned body = Base64.encode decoded ∧
      Carries d messageType decoded payload.rawUmpBody := by
  unfold decodePayloadWithContext at h
  split at h
  · cases h
  next decoded hdecode =>
    split_ifs at h with hempty
    refine ⟨decoded, hempty, Base64.decode_eq_some_iff.1 hdecode, ?_⟩
    split at h
    · cases h
    · cases h
    next inner hunwrap =>
      unfold decodePayloadInner at h
      cases hreader : d.fromReader inner with
      | error e =>
        simp only [hreader] at h
        cases h
      | ok payload =>
        simp only [hreader] at h
        rw [← Decoded.ok.inj h]
        exact unwrapByFormat_eq_ok_iff.1 hunwrap

theorem decodePayload_decryptFailed
    (h : decodePayloadWithContext d messageType body = .decryptFailed) :
    ∃ decoded ≠ [], cleaned body = Base64.encode decoded ∧ requiresEnvelope messageType ∧
      ∃ fields, d.fromCbor decoded = some (.encrypted fields) := by
  unfold decodePayloadWithContext at h
  split at h
  · cases h
  next decoded hdecode =>
    split_ifs at h with hempty
    refine ⟨decoded, hempty, Base64.decode_eq_some_iff.1 hdecode, ?_⟩
    split at h
    next hunwrap => exact unwrapByFormat_decryptFailed hunwrap
    · cases h
    · split at h <;> cases h

theorem decodePayload_shape (hclean : cleaned body = Base64.encode decoded)
    (hshape : requiresEnvelope messageType ↔ d.fromCbor decoded = none) :
    ∃ e, decodePayloadWithContext d messageType body = .error e := by
  obtain ⟨e, hunwrap⟩ := unwrapByFormat_shape hshape
  unfold decodePayloadWithContext
  rw [Base64.decode_eq_some_iff.2 hclean]
  dsimp only
  split_ifs
  · exact ⟨_, rfl⟩
  · rw [hunwrap]
    exact ⟨e, rfl⟩

/-! ## Accepted mails -/

variable {parser : Bytes → Option Message} {raw : Bytes}

/-- The mail has a message type, and a body of the base64 of these bytes. -/
def Brings (parser : Bytes → Option Message) (raw messageType decoded : Bytes) : Prop :=
  ∃ message ∈ parser raw, ∃ requestId body,
    parseSubject (message.subject.getD []) = .ok (messageType, requestId) ∧
      extractBody message = .ok body ∧ cleaned body = Base64.encode decoded

theorem parse_ok {email : Email} (h : parseEmailOutcome d parser raw = .ok email) :
    ∃ decoded ≠ [], Brings parser raw email.messageType decoded ∧
      Carries d email.messageType decoded email.payload.rawUmpBody := by
  unfold parseEmailOutcome at h
  split at h
  · cases h
  next message hmessage =>
    split at h
    · cases h
    next messageType requestId hsubject =>
      split at h
      · cases h
      next body hbody =>
        split at h
        · cases h
        · cases h
        next payload hpayload =>
          obtain rfl := ParseOutcome.ok.inj h
          obtain ⟨decoded, hne, hclean, hcarries⟩ := decodePayload_ok hpayload
          exact ⟨decoded, hne, ⟨message, hmessage, requestId, body, hsubject, hbody, hclean⟩,
            hcarries⟩

theorem parse_decryptFailed (h : parseEmailOutcome d parser raw = .decryptFailed) :
    ∃ messageType, requiresEnvelope messageType ∧ ∃ decoded ≠ [],
      Brings parser raw messageType decoded ∧
        ∃ fields, d.fromCbor decoded = some (.encrypted fields) := by
  unfold parseEmailOutcome at h
  split at h
  · cases h
  next message hmessage =>
    split at h
    · cases h
    next messageType requestId hsubject =>
      split at h
      · cases h
      next body hbody =>
        split at h
        next hfailed =>
          obtain ⟨decoded, hne, hclean, htype, hfields⟩ := decodePayload_decryptFailed hfailed
          exact ⟨messageType, htype, decoded, hne,
            ⟨message, hmessage, requestId, body, hsubject, hbody, hclean⟩, hfields⟩
        · cases h
        · cases h

theorem parse_shape (hbrings : Brings parser raw messageType decoded)
    (hshape : requiresEnvelope messageType ↔ d.fromCbor decoded = none) :
    ∃ e, parseEmailOutcome d parser raw = .error e := by
  obtain ⟨message, hmessage, requestId, body, hsubject, hbody, hclean⟩ := hbrings
  obtain ⟨e, hpayload⟩ := decodePayload_shape hclean hshape
  exact ⟨e, by simp only [parseEmailOutcome, Option.mem_def.1 hmessage, hsubject, hbody, hpayload]⟩

/-- Bytes that carry a payload are accepted once its CBOR is read. -/
theorem parse_of_carries {payload : Payload} (hbrings : Brings parser raw messageType decoded)
    (hne : decoded ≠ []) (hcarries : Carries d messageType decoded inner)
    (hreader : d.fromReader inner = .ok payload) :
    ∃ email, parseEmailOutcome d parser raw = .ok email ∧ email.messageType = messageType ∧
      email.payload = { payload with rawUmpBody := inner } := by
  obtain ⟨message, hmessage, requestId, body, hsubject, hbody, hclean⟩ := hbrings
  have hpayload : decodePayloadWithContext d messageType body =
      .ok { payload with rawUmpBody := inner } := by
    unfold decodePayloadWithContext
    rw [Base64.decode_eq_some_iff.2 hclean]
    dsimp only
    rw [if_neg hne, unwrapByFormat_eq_ok_iff.2 hcarries]
    simp only [decodePayloadInner, hreader]
  simp only [parseEmailOutcome, Option.mem_def.1 hmessage, hsubject, hbody, hpayload]
  exact ⟨_, rfl, rfl, rfl⟩

/-- A mail is accepted only with the base64 of bytes that carry its payload in the shape that its
type calls for, and the payload is its raw body.  A failed decryption is one of an encrypted
envelope, under a type that calls for an envelope.  A mail in the other shape is an error. -/
theorem wire_format_strict (d : Decoding) (parser : Bytes → Option Message) (raw : Bytes) :
    (∀ email, parseEmailOutcome d parser raw = .ok email →
      ∃ decoded ≠ [], Brings parser raw email.messageType decoded ∧
        Carries d email.messageType decoded email.payload.rawUmpBody) ∧
    (parseEmailOutcome d parser raw = .decryptFailed →
      ∃ messageType, requiresEnvelope messageType ∧ ∃ decoded ≠ [],
        Brings parser raw messageType decoded ∧
          ∃ fields, d.fromCbor decoded = some (.encrypted fields)) ∧
    ∀ messageType decoded, Brings parser raw messageType decoded →
      (requiresEnvelope messageType ↔ d.fromCbor decoded = none) →
      ∃ e, parseEmailOutcome d parser raw = .error e :=
  ⟨fun _ => parse_ok, parse_decryptFailed, fun _ _ => parse_shape⟩

end Antie.WireFormat
