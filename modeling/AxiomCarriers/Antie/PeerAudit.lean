import AxiomCarriers.Antie.Inbox
import AxiomCarriers.Antie.Refusal

/-!
# Answers to peer audits

The answer of another validator to a peer audit, its fields or a signed `NotHeld`, is passed on to
Lambda.  The client takes every reply of Lambda for an acceptance, the handler takes a failed call
for an answer, and `process_message` takes every outcome of the handler for a processed message.  A
mail that the busy gate turns away is marked as processed without any of this.

`answer_kept_iff` says that in a pass over the inbox an answer is not lost silently if and only if
its mail reaches the handler and Lambda accepts it.
-/

namespace Antie.PeerAudit

open Bytes Gateway
open Dispatch (Message shouldRejectBusy)
open Inbox (processCarrierMessages)

/-- `GatewayResponse`, as far as these calls tell its variants apart. -/
inductive GatewayResponse
  | error (code message : Bytes)
  | other
  deriving DecidableEq

/-- An exchange with Lambda: `send_raw_request` and the decoding of the reply. -/
abbrev Exchange := LambdaCall → Except AntieError GatewayResponse

def sendPeerAuditNotHeld (lambda : Exchange) (notHeld : Bytes) : Except AntieError Unit :=
  (lambda (.peerAuditNotHeld notHeld)).map fun _response => ()

def sendPeerAuditResponse (lambda : Exchange) (response : Bytes) : Except AntieError Unit :=
  (lambda (.peerAuditResponse response)).map fun _response => ()

/-- The answer is passed on; a failure is only warned of. -/
def forward (call : LambdaCall) (payload : ResponsePayload) : Except AntieError Unit → Handled
  | .ok () => ([.lambda call], .ok payload)
  | .error _ => ([.lambda call], .ok payload)

theorem forward_eq (call : LambdaCall) (payload : ResponsePayload) (result : Except AntieError Unit) :
    forward call payload result = ([.lambda call], .ok payload) := by
  cases result <;> rfl

/-- `handle_peer_audit_response`, with the outcome of the call. -/
def handlePeerAuditResponse (lambda : Exchange) (email : Email) : Handled :=
  let done := localReply true email.requestId none none
  match email.payload.peerAuditNotHeld with
  | some notHeld => forward (.peerAuditNotHeld notHeld) done (sendPeerAuditNotHeld lambda notHeld)
  | none =>
    match email.payload.peerAuditResponse with
    | none => ([], .error (.invalidPayload (ascii "Missing peer_audit_response")))
    | some response =>
      forward (.peerAuditResponse response) done (sendPeerAuditResponse lambda response)

/-- The outcome of the call makes no difference. -/
theorem handlePeerAuditResponse_eq (lambda : Exchange) (email : Email) :
    handlePeerAuditResponse lambda email = Gateway.handlePeerAuditResponse email := by
  simp only [handlePeerAuditResponse, Gateway.handlePeerAuditResponse, forward_eq]
  cases email.payload.peerAuditNotHeld with
  | some notHeld => rfl
  | none => cases email.payload.peerAuditResponse <;> rfl

/-- The call that passes the answer in a mail on to Lambda. -/
def answerCall (email : Email) : Option LambdaCall :=
  (email.payload.peerAuditNotHeld.map LambdaCall.peerAuditNotHeld).or
    (email.payload.peerAuditResponse.map LambdaCall.peerAuditResponse)

/-- The handler reports success. -/
def Succeeds (h : Handled) : Prop := ∃ payload, h.2 = .ok payload ∧ payload.success = true

/-! ## The pass -/

/-- A pass of `process_carrier_messages`: its messages, and what it finds when it comes to each. -/
structure Pass where
  threshold : UInt64
  messages : List Message
  limiter : RateLimiter
  /-- Lambda's average. -/
  average : ℕ → UInt64
  outside : ℕ → Outside
  /-- What is read in a mail without the decryptor. -/
  plain : ℕ → Bytes → Bytes → Decoded

/-- The busy gate turns the message away. -/
def Pass.busy (p : Pass) (idx : ℕ) : Bool :=
  shouldRejectBusy p.threshold (p.average idx) (p.messages.length - (idx + 1))

/-- The rate limiter when the pass comes to a message. -/
def Pass.limiterAt (p : Pass) : ℕ → RateLimiter
  | 0 => p.limiter
  | idx + 1 =>
    match p.messages[idx]? with
    | some m =>
      if p.busy idx then p.limiterAt idx
      else (processMessage (p.outside idx) (p.limiterAt idx) m.raw).1
    | none => p.limiterAt idx

/-- What `process_message` comes to on the message. -/
def Pass.processed (p : Pass) (idx : ℕ) (m : Message) :
    RateLimiter × List Effect × Except AntieError Unit :=
  processMessage (p.outside idx) (p.limiterAt idx) m.raw

/-- What the pass does for the message. -/
def Pass.effects (p : Pass) (idx : ℕ) (m : Message) : List Effect :=
  if p.busy idx then
    (sendBusyRejection (p.outside idx) (p.plain idx) (p.average idx).toNat m.raw).1
  else (p.processed idx m).2.1

/-- Lambda's average, and whether `process_message` returns without an error. -/
def Pass.env (p : Pass) (idx : ℕ) : UInt64 × Bool :=
  (p.average idx, p.messages[idx]?.all fun m => (p.processed idx m).2.2.isOk)

/-- The pass marks the message as processed. -/
def Marked : Inbox.Handling → Prop
  | .rejected => True
  | .processed ok => ok

/-- The message is marked as processed, and with that moved out of `new`, only if Lambda accepted the
answer, and the handler reports a failure when passing it on fails. -/
def AnswerKept (p : Pass) (d : Inbox.Listing) (idx : ℕ) (m : Message) (lambda : Exchange)
    (email : Email) (call : LambdaCall) : Prop :=
  (∀ handling, (processCarrierMessages p.threshold p.env d)[idx]? = some (m, handling) →
      Marked handling → Effect.lambda call ∈ p.effects idx m ∧ lambda call = .ok .other) ∧
    ((∃ e, lambda call = .error e) → ¬ Succeeds (handlePeerAuditResponse lambda email))

theorem Pass.handling {p : Pass} {d : Inbox.Listing} {idx : ℕ} {m : Message}
    (hnew : Inbox.checkNew d = .ok p.messages) (hm : p.messages[idx]? = some m) :
    (processCarrierMessages p.threshold p.env d)[idx]? =
      some (m, if p.busy idx then .rejected else .processed (p.processed idx m).2.2.isOk) := by
  rw [processCarrierMessages, hnew]
  dsimp only
  rw [Inbox.dispatch_getElem?, hm, Option.map_some, Nat.zero_add]
  simp only [Pass.busy, Pass.env, hm, Option.all_some]
  rfl

/-- Turning a mail away calls nothing of Lambda that changes it. -/
theorem sendBusyRejection_commits {w : Outside} {decode : Bytes → Bytes → Decoded} {avgMs : ℕ}
    {raw : Bytes} : ∀ e ∈ (sendBusyRejection w decode avgMs raw).1, ¬ e.commits w := by
  intro e he
  unfold sendBusyRejection at he
  split at he
  · exact sendResponse_commits e he
  · exact absurd he List.not_mem_nil

section

variable {w : Outside} {lambda : Exchange} {limiter : RateLimiter} {raw : Bytes} {email : Email}
  {call : LambdaCall}

/-- The handler makes the call and reports success. -/
theorem handle_answer (hcall : answerCall email = some call) :
    Gateway.handlePeerAuditResponse email =
      ([.lambda call], .ok (localReply true email.requestId none none)) := by
  unfold answerCall at hcall
  unfold Gateway.handlePeerAuditResponse
  cases hheld : email.payload.peerAuditNotHeld with
  | some notHeld =>
    rw [hheld] at hcall
    obtain rfl := Option.some.inj hcall
    rfl
  | none =>
    rw [hheld] at hcall
    cases hresponse : email.payload.peerAuditResponse with
    | some response =>
      rw [hresponse] at hcall
      obtain rfl := Option.some.inj hcall
      rfl
    | none =>
      rw [hresponse] at hcall
      cases hcall

/-- The call is one that changes the state of Lambda. -/
theorem answerCall_commits (hcall : answerCall email = some call) :
    (Effect.lambda call).commits w := by
  unfold answerCall at hcall
  cases hheld : email.payload.peerAuditNotHeld with
  | some notHeld =>
    rw [hheld] at hcall
    obtain rfl := Option.some.inj hcall
    rfl
  | none =>
    rw [hheld, Option.map_none, Option.none_or] at hcall
    obtain ⟨response, -, rfl⟩ := Option.map_eq_some_iff.1 hcall
    rfl

/-- An answer is processed whatever comes of the call. -/
theorem processMessage_answer (hparse : parseEmailOutcome w.parser w.decode raw = .ok email)
    (htype : typeOf email = some .peerAuditResponse) (hcall : answerCall email = some call)
    (hsize : raw.length ≤ maxMessageBytes) (hvbc : w.vbcDelivery raw = none) :
    processMessage w limiter raw = (limiter, [.lambda call], .ok ()) := by
  have hband : answersOutOfBand email := by simp [answersOutOfBand, htype]
  simp [processMessage, not_lt.2 hsize, hvbc, hparse, handle, htype, handle_answer hcall, hband]

/-- A mail that is too large, or taken for a certificate, is processed as well. -/
theorem processMessage_skipped (h : ¬ (raw.length ≤ maxMessageBytes ∧ w.vbcDelivery raw = none)) :
    (processMessage w limiter raw).2.2 = .ok () ∧
      Effect.lambda call ∉ (processMessage w limiter raw).2.1 := by
  by_cases hsize : raw.length ≤ maxMessageBytes
  · obtain ⟨certificate, hvbc⟩ := Option.ne_none_iff_exists'.1 fun hvbc => h ⟨hsize, hvbc⟩
    simp [processMessage, not_lt.2 hsize, hvbc]
  · simp [processMessage, not_le.1 hsize]

/-- In a pass over the inbox an answer to a peer audit is not lost silently if and only if its mail
is not turned away by the busy gate, not too large and not taken for a certificate, and Lambda
accepts it. -/
theorem answer_kept_iff {p : Pass} {d : Inbox.Listing} {idx : ℕ} {m : Message}
    (hnew : Inbox.checkNew d = .ok p.messages) (hm : p.messages[idx]? = some m)
    (hparse : parseEmailOutcome (p.outside idx).parser (p.outside idx).decode m.raw = .ok email)
    (htype : typeOf email = some .peerAuditResponse) (hcall : answerCall email = some call) :
    AnswerKept p d idx m lambda email call ↔
      ¬ p.busy idx ∧ m.raw.length ≤ maxMessageBytes ∧ (p.outside idx).vbcDelivery m.raw = none ∧
        lambda call = .ok .other := by
  have hsucceeds : Succeeds (handlePeerAuditResponse lambda email) := by
    rw [handlePeerAuditResponse_eq, handle_answer hcall]
    exact ⟨_, rfl, rfl⟩
  have hhandling := Pass.handling hnew hm
  constructor
  · rintro ⟨hmarked, -⟩
    by_cases hbusy : p.busy idx
    · -- the rejection makes no such call
      rw [if_pos hbusy] at hhandling
      have hmem := (hmarked _ hhandling trivial).1
      rw [Pass.effects, if_pos hbusy] at hmem
      exact absurd (answerCall_commits hcall) (sendBusyRejection_commits _ hmem)
    · rw [if_neg hbusy] at hhandling
      have hmarked := hmarked _ hhandling
      rw [Pass.effects, if_neg hbusy] at hmarked
      by_cases hreaches : m.raw.length ≤ maxMessageBytes ∧ (p.outside idx).vbcDelivery m.raw = none
      · have hok : (p.processed idx m).2.2.isOk = true := by
          rw [Pass.processed, processMessage_answer hparse htype hcall hreaches.1 hreaches.2]
          rfl
        exact ⟨hbusy, hreaches.1, hreaches.2, (hmarked hok).2⟩
      · obtain ⟨hok, hnone⟩ := @processMessage_skipped (p.outside idx) (p.limiterAt idx) m.raw call
          hreaches
        refine absurd (hmarked ?_).1 hnone
        rw [Marked, Pass.processed, hok]
        rfl
  · rintro ⟨hbusy, hsize, hvbc, haccepts⟩
    refine ⟨fun _ _ _ => ⟨?_, haccepts⟩, ?_⟩
    · rw [Pass.effects, if_neg hbusy, Pass.processed,
        processMessage_answer hparse htype hcall hsize hvbc]
      exact List.mem_singleton_self _
    · rintro ⟨e, he⟩
      exact absurd (haccepts.symm.trans he) (by simp)

end

/-- A gateway that reads the body of a mail as a `NotHeld`. -/
def auditGateway : Outside :=
  { sampleGateway with
    decode := fun _ body => .ok { Payload.empty with peerAuditNotHeld := some body } }

def auditMail : Bytes :=
  ascii "From: v@mail\r\nSubject: AXIOM/peer_audit_response/7\r\n\r\nAAAA"

theorem auditMail_parses : ∃ email,
    parseEmailOutcome auditGateway.parser auditGateway.decode auditMail = .ok email ∧
      typeOf email = some .peerAuditResponse ∧
      answerCall email = some (.peerAuditNotHeld (ascii "AAAA")) := by
  obtain ⟨email, hparse, htype, hheld⟩ : ∃ email,
      parseEmailOutcome auditGateway.parser auditGateway.decode auditMail = .ok email ∧
        typeOf email = some .peerAuditResponse ∧
        email.payload.peerAuditNotHeld = some (ascii "AAAA") :=
    ParseOutcome.exists_of_decide (by decide +kernel)
  exact ⟨email, hparse, htype, by rw [answerCall, hheld]; rfl⟩

/-- A pass over an inbox with the mail alone in it. -/
def auditPass : Pass where
  threshold := 15000
  messages := [⟨ascii "1", auditMail⟩]
  limiter := []
  average _ := 20000
  outside _ := auditGateway
  plain _ := auditGateway.decode

def auditListing : Inbox.Listing := .ok [.file (ascii "1") (.ok auditMail)]

theorem checkNew_auditListing : Inbox.checkNew auditListing = .ok auditPass.messages := by
  decide +kernel

/-- Lambda accepts a `NotHeld`. -/
theorem answer_kept_accepted : ∃ email,
    AnswerKept auditPass auditListing 0 ⟨ascii "1", auditMail⟩ (fun _ => .ok .other) email
      (.peerAuditNotHeld (ascii "AAAA")) := by
  obtain ⟨email, hparse, htype, hcall⟩ := auditMail_parses
  have hiff := @answer_kept_iff (fun _ => .ok .other) email _ auditPass auditListing 0
    ⟨ascii "1", auditMail⟩ checkNew_auditListing rfl hparse htype hcall
  exact ⟨email, hiff.2 ⟨by decide, by decide +kernel, rfl, rfl⟩⟩

/-- Lambda's process is gone, and the `NotHeld` counts as processed. -/
theorem answer_lost : ¬ ∀ (p : Pass) (d : Inbox.Listing) (idx : ℕ) (m : Message) (lambda : Exchange)
    (email : Email) (call : LambdaCall),
    Inbox.checkNew d = .ok p.messages → p.messages[idx]? = some m →
      parseEmailOutcome (p.outside idx).parser (p.outside idx).decode m.raw = .ok email →
      typeOf email = some .peerAuditResponse → answerCall email = some call →
      AnswerKept p d idx m lambda email call := by
  intro h
  obtain ⟨email, hparse, htype, hcall⟩ := auditMail_parses
  have hkept := h auditPass auditListing 0 ⟨ascii "1", auditMail⟩
    (fun _ => .error (.lambdaError (ascii "Write failed: Broken pipe"))) email _
    checkNew_auditListing rfl hparse htype hcall
  have hsize : auditMail.length ≤ maxMessageBytes := by decide +kernel
  have hbusy : ¬ auditPass.busy 0 := by decide
  have hhandling := Pass.handling checkNew_auditListing (rfl : auditPass.messages[0]? = _)
  rw [if_neg hbusy] at hhandling
  have hprocessed : (auditPass.processed 0 ⟨ascii "1", auditMail⟩).2.2.isOk = true := by
    show (processMessage auditGateway [] auditMail).2.2.isOk = true
    rw [processMessage_answer hparse htype hcall hsize rfl]
    rfl
  exact absurd (hkept.1 _ hhandling hprocessed).2 (by simp)

end Antie.PeerAudit
