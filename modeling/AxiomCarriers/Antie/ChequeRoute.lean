import AxiomCarriers.Antie.Gateway

/-!
# The routes of a cheque

`handle_witness_request` tries up to three carriers for a cheque: the pickup directory where the
plan names one, the directory of skipped mails when a sibling carrier has asked for the receiver's,
and mail.  The next is tried only after the one before it has failed or does not apply.

`cheque_one_route` says that at most one of them takes the cheque, and that none does only after the
mail has failed.
-/

namespace Antie.ChequeRoute

open Bytes CareOf Gateway

/-- What `handle_witness_request` tries with a cheque, and whether it succeeds. -/
inductive Attempt
  /-- `deposit_atomic`. -/
  | pickup (domain file content : Bytes) (ok : Bool)
  /-- `SkipList::contains`. -/
  | consult
  /-- `SkipList::write_skipped`. -/
  | skipped (file content : Bytes) (ok : Bool)
  | mail (receiver content : Bytes) (ok : Bool)
  deriving DecidableEq

/-- A carrier has taken the cheque. -/
def Attempt.succeeded : Attempt → Bool
  | .pickup _ _ _ ok | .skipped _ _ ok | .mail _ _ ok => ok
  | .consult => false

/-- What Core's types and PGP say of a cheque: its transaction id in hexadecimal digits, and the
mail as `try_encrypt_for_email` leaves it. -/
structure Sealing where
  txidHex : Bytes → Bytes
  tryEncrypt : Bytes → Bytes → Bytes × Bool

def pickupAttempt (w : Outside) (txid content : Bytes) : Plan → List Attempt
  | .deposit domain _ =>
    [.pickup domain (txid ++ ascii ".cheque.eml") content (w.writePickup domain)]
  | _ => []

/-- The skip-list contract, for a cheque that was not deposited. -/
def skipAttempt (w : Outside) (wallet txid content : Bytes) : List Attempt :=
  match w.skipList with
  | none => []
  | some entries =>
    if wallet ∈ entries then [.consult, .skipped (txid ++ ascii ".cheque") content w.writeSkipped]
    else [.consult]

def mailAttempt (w : Outside) (receiver content : Bytes) : List Attempt :=
  [.mail receiver content (w.send receiver).isOk]

/-- The attempts with a cheque whose mail was built. -/
def dispatchCheque (w : Outside) (plan : Plan) (wallet receiver txid content : Bytes) :
    List Attempt :=
  let pickup := pickupAttempt w txid content plan
  if pickup.any Attempt.succeeded then pickup
  else
    let skip := skipAttempt w wallet txid content
    if skip.any Attempt.succeeded then pickup ++ skip
    else pickup ++ skip ++ mailAttempt w receiver content

/-- The cheque part of `handle_witness_request`. -/
def deliverCheque (w : Outside) (p : Sealing) (plan : Plan) (tx : Transaction) (cheque : Bytes) :
    List Attempt :=
  if tx.receiverWalletId = w.burnAddress then []
  else
    match planReceiver plan with
    | none => []
    | some receiver =>
      match w.chequeEmail tx cheque receiver with
      | none => []
      | some mail =>
        dispatchCheque w plan tx.receiverWalletId receiver (p.txidHex cheque)
          (p.tryEncrypt receiver mail).1

/-! ## What is tried -/

variable {w : Outside} {plan : Plan} {wallet receiver txid content : Bytes}

/-- One attempt comes last: it is the mail or has succeeded, and those before it have failed. -/
structure Ends (receiver content : Bytes) (attempts : List Attempt) (last : Attempt) : Prop where
  split : ∃ failed, attempts = failed ++ [last] ∧ ∀ a ∈ failed, ¬ a.succeeded
  last : last.succeeded ∨ last = .mail receiver content false

theorem mailAttempt_last (w : Outside) (receiver content : Bytes) :
    (Attempt.mail receiver content (w.send receiver).isOk).succeeded ∨
      Attempt.mail receiver content (w.send receiver).isOk = .mail receiver content false := by
  cases (w.send receiver).isOk with
  | true => exact Or.inl rfl
  | false => exact Or.inr rfl

/-- A carrier is tried at most once before the next. -/
theorem skipAttempt_ends (h : (skipAttempt w wallet txid content).any Attempt.succeeded) :
    skipAttempt w wallet txid content =
      [.consult, .skipped (txid ++ ascii ".cheque") content true] := by
  unfold skipAttempt at h ⊢
  split at h
  · cases h
  · split_ifs at h ⊢
    · simpa [Attempt.succeeded] using h
    · cases h

theorem pickupAttempt_ends (h : (pickupAttempt w txid content plan).any Attempt.succeeded) :
    ∃ domain, pickupAttempt w txid content plan =
      [.pickup domain (txid ++ ascii ".cheque.eml") content true] := by
  cases plan with
  | deposit domain inner => exact ⟨domain, by simpa [pickupAttempt, Attempt.succeeded] using h⟩
  | email receiver => cases h
  | refuse => cases h

theorem dispatchCheque_ends (w : Outside) (plan : Plan) (wallet receiver txid content : Bytes) :
    ∃ last, Ends receiver content (dispatchCheque w plan wallet receiver txid content) last := by
  unfold dispatchCheque
  have hfailed : ∀ l : List Attempt, ¬ l.any Attempt.succeeded → ∀ a ∈ l, ¬ a.succeeded :=
    fun l h a ha hs => h (List.any_eq_true.2 ⟨a, ha, hs⟩)
  by_cases hpickup : (pickupAttempt w txid content plan).any Attempt.succeeded
  · obtain ⟨domain, h⟩ := pickupAttempt_ends hpickup
    simp only [hpickup, if_true]
    exact ⟨_, ⟨[], h, by simp⟩, Or.inl rfl⟩
  · by_cases hskip : (skipAttempt w wallet txid content).any Attempt.succeeded
    · simp only [hpickup, hskip, Bool.false_eq_true, if_false, if_true]
      rw [skipAttempt_ends hskip]
      refine ⟨.skipped (txid ++ ascii ".cheque") content true,
        ⟨pickupAttempt w txid content plan ++ [.consult], by simp, fun a ha => ?_⟩, Or.inl rfl⟩
      rcases List.mem_append.1 ha with ha | ha
      · exact hfailed _ hpickup a ha
      · rw [List.mem_singleton.1 ha]
        exact Bool.false_ne_true
    · simp only [hpickup, hskip, Bool.false_eq_true, if_false]
      refine ⟨_, ⟨_, rfl, fun a ha => ?_⟩, mailAttempt_last w receiver content⟩
      rcases List.mem_append.1 ha with ha | ha
      · exact hfailed _ hpickup a ha
      · exact hfailed _ hskip a ha

theorem Ends.filter_length {attempts : List Attempt} {last : Attempt}
    (h : Ends receiver content attempts last) : (attempts.filter Attempt.succeeded).length ≤ 1 := by
  obtain ⟨failed, rfl, hfailed⟩ := h.split
  rw [List.filter_append, List.filter_eq_nil_iff.2 hfailed, List.nil_append]
  exact List.length_filter_le _ [last]

theorem Ends.delivered {attempts : List Attempt} {last : Attempt}
    (h : Ends receiver content attempts last) :
    (∃ a ∈ attempts, a.succeeded) ∨ .mail receiver content false ∈ attempts := by
  obtain ⟨failed, rfl, -⟩ := h.split
  have hlast : last ∈ failed ++ [last] := List.mem_append_right _ List.mem_cons_self
  rcases h.last with hs | rfl
  · exact Or.inl ⟨last, hlast, hs⟩
  · exact Or.inr hlast

theorem pickup_notMem_skipAttempt {domain file sent : Bytes} {ok : Bool} :
    .pickup domain file sent ok ∉ skipAttempt w wallet txid content := by
  unfold skipAttempt
  split
  · exact List.not_mem_nil
  · split_ifs <;> simp

/-- Once the cheque is in the pickup directory, the skip list is not looked at. -/
theorem consult_notMem {domain file sent : Bytes}
    (h : .pickup domain file sent true ∈ dispatchCheque w plan wallet receiver txid content) :
    .consult ∉ dispatchCheque w plan wallet receiver txid content := by
  have hpickup : (pickupAttempt w txid content plan).any Attempt.succeeded := by
    have hmem : .pickup domain file sent true ∈ pickupAttempt w txid content plan := by
      simp only [dispatchCheque] at h
      split_ifs at h
      · exact h
      · exact (List.mem_append.1 h).resolve_right pickup_notMem_skipAttempt
      · have h := (List.mem_append.1 h).resolve_right (by simp [mailAttempt])
        exact (List.mem_append.1 h).resolve_right pickup_notMem_skipAttempt
    exact List.any_eq_true.2 ⟨_, hmem, rfl⟩
  obtain ⟨domain, hlast⟩ := pickupAttempt_ends hpickup
  simp only [dispatchCheque, hpickup, if_true]
  simp [hlast]

/-- What was delivered where, as the effects of a witness request say it. -/
def Attempt.delivery : Attempt → Option Delivery
  | .pickup domain _ _ ok => if ok then some (.pickup domain) else none
  | .skipped _ _ ok => if ok then some .skipped else none
  | .mail receiver _ ok => if ok then some (.mailed receiver) else none
  | .consult => none

theorem skipAttempt_any (w : Outside) (wallet txid content : Bytes) :
    (skipAttempt w wallet txid content).any Attempt.succeeded =
      (w.skipList.any (wallet ∈ ·) && w.writeSkipped) := by
  unfold skipAttempt
  cases w.skipList with
  | none => rfl
  | some entries => by_cases h : wallet ∈ entries <;> simp [h, Attempt.succeeded]

/-- A failed attempt delivers nothing. -/
theorem findSome_of_failed {l : List Attempt} (h : ¬ l.any Attempt.succeeded) :
    l.findSome? Attempt.delivery = none := by
  rw [List.findSome?_eq_none_iff]
  intro a ha
  have hfailed : ¬ a.succeeded := fun hs => h (List.any_eq_true.2 ⟨a, ha, hs⟩)
  cases a with
  | consult => rfl
  | pickup _ _ _ ok => exact if_neg hfailed
  | skipped _ _ ok => exact if_neg hfailed
  | mail _ _ ok => exact if_neg hfailed

theorem findSome_mailAttempt (w : Outside) (receiver content : Bytes) :
    (mailAttempt w receiver content).findSome? Attempt.delivery = w.mail receiver := by
  rw [mailAttempt, Outside.mail]
  cases w.send receiver <;> rfl

theorem dispatchCheque_delivery (w : Outside) (plan : Plan) (wallet receiver txid content : Bytes) :
    (dispatchCheque w plan wallet receiver txid content).findSome? Attempt.delivery =
      (((pickupAttempt w txid content plan).findSome? Attempt.delivery).or
        (if w.skipList.any (wallet ∈ ·) && w.writeSkipped then some .skipped else none)).or
      (w.mail receiver) := by
  unfold dispatchCheque
  by_cases hpickup : (pickupAttempt w txid content plan).any Attempt.succeeded
  · obtain ⟨domain, hlast⟩ := pickupAttempt_ends hpickup
    simp only [hpickup, if_true]
    rw [hlast]
    rfl
  · rw [findSome_of_failed hpickup, Option.none_or]
    by_cases hskip : (skipAttempt w wallet txid content).any Attempt.succeeded
    · simp only [hpickup, hskip, Bool.false_eq_true, if_false, if_true]
      rw [← skipAttempt_any w wallet txid content, if_pos hskip, List.findSome?_append,
        findSome_of_failed hpickup, skipAttempt_ends hskip]
      rfl
    · simp only [hpickup, hskip, Bool.false_eq_true, if_false]
      rw [← skipAttempt_any w wallet txid content, if_neg hskip, List.findSome?_append,
        List.findSome?_append, findSome_of_failed hpickup, findSome_of_failed hskip,
        findSome_mailAttempt]
      rfl

/-- The delivery among the effects of a witness request is the attempt that succeeds. -/
theorem chequeDelivery_eq (w : Outside) (p : Sealing) (tx : Transaction) (cheque : Bytes) :
    chequeDelivery w tx cheque =
      (deliverCheque w p (receiverPlan w tx) tx cheque).findSome? Attempt.delivery := by
  unfold chequeDelivery deliverCheque
  split
  · rfl
  · cases hplan : planReceiver (receiverPlan w tx) with
    | none => rfl
    | some receiver =>
      cases hmail : w.chequeEmail tx cheque receiver with
      | none => simp [hmail]
      | some mail =>
        simp only [Option.bind_some, hmail]
        rw [dispatchCheque_delivery]
        cases hp : receiverPlan w tx with
        | deposit domain inner =>
          by_cases hwrite : w.writePickup domain
          · simp [pickupAttempt, Attempt.delivery, hwrite]
          · cases (w.skipList.any (tx.receiverWalletId ∈ ·) && w.writeSkipped) <;>
              simp [pickupAttempt, Attempt.delivery, hwrite]
        | email receiver =>
          cases (w.skipList.any (tx.receiverWalletId ∈ ·) && w.writeSkipped) <;> rfl
        | refuse =>
          rw [hp] at hplan
          cases hplan

/-! ## One route -/

theorem planReceiver_eq_some_iff (plan : Plan) (receiver : Bytes) :
    planReceiver plan = some receiver ↔ plan.DeliversTo receiver := by
  cases plan <;> simp [planReceiver, Plan.DeliversTo]

/-- Nothing is tried, or the attempts are those with a mail that was built. -/
theorem deliverCheque_cases (w : Outside) (p : Sealing) (plan : Plan) (tx : Transaction)
    (cheque : Bytes) :
    deliverCheque w p plan tx cheque = [] ∨ ∃ receiver txid content,
      deliverCheque w p plan tx cheque =
        dispatchCheque w plan tx.receiverWalletId receiver txid content := by
  unfold deliverCheque
  split_ifs
  · exact Or.inl rfl
  · split
    · exact Or.inl rfl
    · split
      · exact Or.inl rfl
      · exact Or.inr ⟨_, _, _, rfl⟩

/-- At most one carrier takes the cheque.  Nothing is tried for a plan that refuses or for a burn,
and the skip list is not consulted once the cheque is deposited.  In every other case where the mail
was built, a carrier takes the cheque or the mail to the receiver of the plan was tried and has
failed. -/
theorem cheque_one_route (w : Outside) (p : Sealing) (plan : Plan) (tx : Transaction)
    (cheque : Bytes) :
    ((deliverCheque w p plan tx cheque).filter Attempt.succeeded).length ≤ 1 ∧
    (plan = .refuse ∨ tx.receiverWalletId = w.burnAddress → deliverCheque w p plan tx cheque = []) ∧
    (∀ domain file content, .pickup domain file content true ∈ deliverCheque w p plan tx cheque →
      .consult ∉ deliverCheque w p plan tx cheque) ∧
    ∀ receiver mail, plan.DeliversTo receiver → tx.receiverWalletId ≠ w.burnAddress →
      w.chequeEmail tx cheque receiver = some mail →
      (∃ a ∈ deliverCheque w p plan tx cheque, a.succeeded) ∨
        .mail receiver (p.tryEncrypt receiver mail).1 false ∈ deliverCheque w p plan tx cheque := by
  refine ⟨?_, ?_, fun domain file content => ?_, fun receiver mail hplan hburn hmail => ?_⟩
  · rcases deliverCheque_cases w p plan tx cheque with h | ⟨receiver, txid, content, h⟩
    · rw [h]
      exact Nat.zero_le 1
    · rw [h]
      obtain ⟨last, hends⟩ := dispatchCheque_ends w plan tx.receiverWalletId receiver txid content
      exact hends.filter_length
  · rintro (rfl | hburn)
    · simp [deliverCheque, planReceiver]
    · rw [deliverCheque, if_pos hburn]
  · rcases deliverCheque_cases w p plan tx cheque with h | ⟨receiver, txid, sent, h⟩
    · rw [h]
      exact fun hmem => absurd hmem List.not_mem_nil
    · rw [h]
      exact consult_notMem
  · rw [deliverCheque, if_neg hburn, (planReceiver_eq_some_iff plan receiver).2 hplan]
    simp only [hmail]
    obtain ⟨last, hends⟩ := dispatchCheque_ends w plan tx.receiverWalletId receiver
      (p.txidHex cheque) (p.tryEncrypt receiver mail).1
    exact hends.delivered

end Antie.ChequeRoute
