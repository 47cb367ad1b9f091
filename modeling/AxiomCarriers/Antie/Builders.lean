import AxiomCarriers.Antie.Outgoing
import AxiomCarriers.Lib.Base64
import AxiomCarriers.Lib.Headers

/-!
# The headers of the mails that ANTIE writes

All builders write the same header lines and differ in the subject; only replies have an In-Reply-To
line.  What a caller gives is written without CR and LF, so that it stays inside its line:
`headers_exact` reads the block back up to the first empty line, and the payload behind it.
-/

namespace Antie.Outgoing

open Bytes Gateway Headers

/-! ## The builders -/

/-- `build_peer_audit_request_email`. -/
def buildPeerAuditRequestEmail (recipient sender : Bytes) (stamp : Stamp) (encoded : Bytes) :
    Bytes :=
  build recipient sender (ascii "peer_audit_request/" ++ stamp.requestId) stamp none encoded

/-- `build_peer_audit_response_email`. -/
def buildPeerAuditResponseEmail (recipient sender : Bytes) (stamp : Stamp) (encoded : Bytes) :
    Bytes :=
  build recipient sender (ascii "peer_audit_response/" ++ stamp.requestId) stamp none encoded

/-- `build_peer_audit_not_held_email`, with the subject of a response. -/
def buildPeerAuditNotHeldEmail (recipient sender : Bytes) (stamp : Stamp) (encoded : Bytes) :
    Bytes :=
  build recipient sender (ascii "peer_audit_response/" ++ stamp.requestId) stamp none encoded

/-- A builder, with the arguments that it alone takes. -/
inductive Builder
  | response (messageType requestId : Bytes) (inReplyTo : Option Bytes)
  | cheque (originMatches : Bool) (txid : Bytes)
  | certificate
  | scarConsent
  | peerAuditRequest
  | peerAuditResponse
  | peerAuditNotHeld

/-- The mail of a builder for a payload with this CBOR encoding. -/
def Builder.run (recipient sender : Bytes) (stamp : Stamp) (cbor : Bytes) :
    Builder → Except AntieError Bytes
  | .response messageType requestId inReplyTo =>
    buildResponse recipient sender messageType requestId stamp inReplyTo (Base64.encode cbor)
  | .cheque originMatches txid =>
    buildChequeDeliveryEmail recipient sender stamp originMatches txid (Base64.encode cbor)
  | .certificate => .ok (buildVbcDeliveryEmail recipient sender stamp (Base64.encode cbor))
  | .scarConsent => .ok (buildScarConsentEmail recipient sender stamp (Base64.encode cbor))
  | .peerAuditRequest =>
    .ok (buildPeerAuditRequestEmail recipient sender stamp (Base64.encode cbor))
  | .peerAuditResponse =>
    .ok (buildPeerAuditResponseEmail recipient sender stamp (Base64.encode cbor))
  | .peerAuditNotHeld =>
    .ok (buildPeerAuditNotHeldEmail recipient sender stamp (Base64.encode cbor))

/-! ## The lines -/

def Builder.subject (stamp : Stamp) : Builder → Bytes
  | .response messageType requestId _ =>
    sanitizeHeader messageType ++ 47 :: sanitizeHeader requestId
  | .cheque _ _ => ascii "cheque/" ++ stamp.requestId
  | .certificate => ascii "vbc/" ++ stamp.requestId
  | .scarConsent => ascii "scar_consent/" ++ stamp.requestId
  | .peerAuditRequest => ascii "peer_audit_request/" ++ stamp.requestId
  | .peerAuditResponse | .peerAuditNotHeld => ascii "peer_audit_response/" ++ stamp.requestId

def Builder.inReplyTo : Builder → Option Bytes
  | .response _ _ inReplyTo => inReplyTo
  | _ => none

/-- The header lines of a mail with this subject. -/
def headerLines (recipient sender subject : Bytes) (stamp : Stamp) (inReplyTo : Option Bytes) :
    List Bytes :=
  [ascii "From: " ++ sanitizeHeader sender,
    ascii "To: " ++ sanitizeHeader recipient,
    ascii "Subject: AXIOM/" ++ subject,
    ascii "Message-ID: <" ++ stamp.messageId ++ ascii "." ++ stamp.timestamp ++ ascii "@axiom>",
    ascii "Date: " ++ stamp.date,
    ascii "Content-Type: text/plain; charset=utf-8"] ++
  inReplyTo.toList.map fun id => ascii "In-Reply-To: " ++ sanitizeHeader id

def Builder.headers (recipient sender : Bytes) (stamp : Stamp) (b : Builder) : List Bytes :=
  headerLines recipient sender (b.subject stamp) stamp b.inReplyTo

/-- The text ends no line. -/
def Unbroken (t : Bytes) : Prop := CR ∉ t ∧ LF ∉ t

/-- What a builder draws ends no line. -/
def Stamp.Clean (stamp : Stamp) : Prop :=
  Unbroken stamp.requestId ∧ Unbroken stamp.messageId ∧ Unbroken stamp.timestamp ∧
    Unbroken stamp.date

theorem build_eq_written (recipient sender subject : Bytes) (stamp : Stamp)
    (inReplyTo : Option Bytes) (encoded : Bytes) :
    build recipient sender subject stamp inReplyTo encoded =
      written (headerLines recipient sender subject stamp inReplyTo) (encoded ++ crlf) := by
  have hid : ascii "@axiom>\r\n" = ascii "@axiom>" ++ crlf := by decide
  have htype : ascii "Content-Type: text/plain; charset=utf-8\r\n" =
      ascii "Content-Type: text/plain; charset=utf-8" ++ crlf := by decide
  rw [build, hid, htype, written, headerLines]
  cases inReplyTo <;> simp

theorem unbroken_append {s t : Bytes} (hs : Unbroken s) (ht : Unbroken t) : Unbroken (s ++ t) := by
  constructor <;> rw [List.mem_append, not_or]
  · exact ⟨hs.1, ht.1⟩
  · exact ⟨hs.2, ht.2⟩

theorem unbroken_sanitizeHeader (t : Bytes) : Unbroken (sanitizeHeader t) := by
  constructor <;> simp [sanitizeHeader]

theorem isLine_append {s t : Bytes} (hs : IsLine s) (ht : Unbroken t) : IsLine (s ++ t) :=
  ⟨by simp [hs.1], unbroken_append hs.2 ht⟩

theorem Builder.unbroken_subject {stamp : Stamp} (h : stamp.Clean) (b : Builder) :
    Unbroken (b.subject stamp) := by
  cases b with
  | response messageType requestId inReplyTo =>
    exact unbroken_append (unbroken_sanitizeHeader messageType)
      (unbroken_append (s := [47]) ⟨by decide, by decide⟩ (unbroken_sanitizeHeader requestId))
  | cheque => exact unbroken_append ⟨by decide, by decide⟩ h.1
  | certificate => exact unbroken_append ⟨by decide, by decide⟩ h.1
  | scarConsent => exact unbroken_append ⟨by decide, by decide⟩ h.1
  | peerAuditRequest => exact unbroken_append ⟨by decide, by decide⟩ h.1
  | peerAuditResponse => exact unbroken_append ⟨by decide, by decide⟩ h.1
  | peerAuditNotHeld => exact unbroken_append ⟨by decide, by decide⟩ h.1

theorem isLine_headerLines {subject : Bytes} {stamp : Stamp} (hsubject : Unbroken subject)
    (hstamp : stamp.Clean) (recipient sender : Bytes) (inReplyTo : Option Bytes) :
    ∀ l ∈ headerLines recipient sender subject stamp inReplyTo, IsLine l := by
  have hname : ∀ name ∈ [ascii "From: ", ascii "To: ", ascii "Subject: AXIOM/",
      ascii "Message-ID: <", ascii "Date: ", ascii "Content-Type: text/plain; charset=utf-8",
      ascii "In-Reply-To: "],
      IsLine name := by decide
  simp only [List.forall_mem_cons] at hname
  obtain ⟨hfrom, hto, hsubj, hid, hdate, htype, hreply, -⟩ := hname
  intro l hl
  rcases List.mem_append.1 hl with hl | hl
  · simp only [List.mem_cons, List.not_mem_nil, or_false] at hl
    rcases hl with rfl | rfl | rfl | rfl | rfl | rfl
    · exact isLine_append hfrom (unbroken_sanitizeHeader sender)
    · exact isLine_append hto (unbroken_sanitizeHeader recipient)
    · exact isLine_append hsubj hsubject
    · apply isLine_append
      · apply isLine_append (isLine_append (isLine_append hid hstamp.2.1) _) hstamp.2.2.1
        exact ⟨by decide, by decide⟩
      · exact ⟨by decide, by decide⟩
    · exact isLine_append hdate hstamp.2.2.2
    · exact htype
  · obtain ⟨id, -, rfl⟩ := List.mem_map.1 hl
    exact isLine_append hreply (unbroken_sanitizeHeader id)

/-- What a builder returns is its header lines, the empty line, and the payload. -/
theorem Builder.run_eq {b : Builder} {recipient sender : Bytes} {stamp : Stamp} {cbor mail : Bytes}
    (h : b.run recipient sender stamp cbor = .ok mail) :
    mail = written (b.headers recipient sender stamp) (Base64.encode cbor ++ crlf) := by
  cases b with
  | response messageType requestId inReplyTo =>
    rw [(buildResponse_ok h).2.2]
    exact build_eq_written _ _ _ _ _ _
  | cheque originMatches txid =>
    rw [run, buildChequeDeliveryEmail] at h
    split_ifs at h
    rw [← Except.ok.inj h]
    exact build_eq_written _ _ _ _ _ _
  | certificate => exact (Except.ok.inj h).symm.trans (build_eq_written _ _ _ _ _ _)
  | scarConsent => exact (Except.ok.inj h).symm.trans (build_eq_written _ _ _ _ _ _)
  | peerAuditRequest => exact (Except.ok.inj h).symm.trans (build_eq_written _ _ _ _ _ _)
  | peerAuditResponse => exact (Except.ok.inj h).symm.trans (build_eq_written _ _ _ _ _ _)
  | peerAuditNotHeld => exact (Except.ok.inj h).symm.trans (build_eq_written _ _ _ _ _ _)

/-- Whatever arguments a builder accepts, its mail up to the first empty line is exactly the header
lines of that builder, each with its argument less CR and LF, and the text behind decodes to the
payload. -/
theorem headers_exact {b : Builder} {recipient sender : Bytes} {stamp : Stamp} {cbor mail : Bytes}
    (hstamp : stamp.Clean) (h : b.run recipient sender stamp cbor = .ok mail) :
    ∃ head encoded, cut (crlf ++ crlf) mail = some (head, encoded ++ crlf) ∧
      splitCrlf head = b.headers recipient sender stamp ∧
      (∀ l ∈ b.headers recipient sender stamp, Unbroken l) ∧ Base64.decode encoded = some cbor := by
  have hlines := isLine_headerLines (b.unbroken_subject hstamp) hstamp recipient sender b.inReplyTo
  have hne : b.headers recipient sender stamp ≠ [] := List.cons_ne_nil _ _
  refine ⟨_, _, ?_, splitCrlf_written hne hlines, fun l hl => (hlines l hl).2,
    Base64.decode_encode cbor⟩
  rw [Builder.run_eq h]
  exact cut_written hne hlines _

def sampleStamp : Stamp :=
  ⟨ascii "0", ascii "1", ascii "2", ascii "Thu, 01 Jan 1970 00:00:02 +0000"⟩

/-- A reply to a request id with a header of its own in it. -/
def sampleReply : Builder :=
  .response (ascii "witness") (ascii "7\r\nBcc: x@y\r\n\r\n") (some (ascii "<1@a>\n"))

/-- The header stays in the subject. -/
theorem headers_exact_reply : ∃ mail head encoded,
    sampleReply.run (ascii "b@axiom") (ascii "v@axiom") sampleStamp [1, 2, 3, 4] = .ok mail ∧
    cut (crlf ++ crlf) mail = some (head, encoded ++ crlf) ∧
    splitCrlf head = sampleReply.headers (ascii "b@axiom") (ascii "v@axiom") sampleStamp ∧
    (sampleReply.headers (ascii "b@axiom") (ascii "v@axiom") sampleStamp)[2]? =
      some (ascii "Subject: AXIOM/witness/7Bcc: x@y") ∧
    Base64.decode encoded = some [1, 2, 3, 4] := by
  have hstamp : sampleStamp.Clean :=
    ⟨⟨by decide, by decide⟩, ⟨by decide, by decide⟩, ⟨by decide, by decide⟩, by decide, by decide⟩
  have hrun : ∃ mail,
      sampleReply.run (ascii "b@axiom") (ascii "v@axiom") sampleStamp [1, 2, 3, 4] = .ok mail :=
    ⟨_, rfl⟩
  obtain ⟨mail, hmail⟩ := hrun
  obtain ⟨head, encoded, hcut, hhead, -, hbody⟩ := headers_exact hstamp hmail
  exact ⟨mail, head, encoded, hmail, hcut, hhead, by decide, hbody⟩

end Antie.Outgoing
