import AxiomCarriers.Lib.Bytes
import AxiomCarriers.Lib.Separator

/-!
# Care-of addressing

Where a mail for the receiver of a transaction goes: `plan_receiver_delivery` reads the receiver's
address, checks it against its fingerprint, and decides between mail, a pickup directory and
nothing.  `plan_vouched` says that the fingerprint is checked for the very address that the plan
delivers to.
-/

namespace Antie.CareOf

open Bytes Separator

/-- `CareOf`. -/
structure Address where
  inner : Bytes
  pickup : Bytes
  fingerprint : Bytes
  deriving DecidableEq

/-- `parse_care_of`: `<inner>@<pickup>/<fingerprint>`, where the inner address has the first @. -/
def parseCareOf (addr : Bytes) : Option Address :=
  if 47 ∉ addr then none
  else
    let addressed := (addr.rdropWhile (· ≠ 47)).dropLast
    let fingerprint := addr.rtakeWhile (· ≠ 47)
    match addressed.dropWhile (· ≠ 64) with
    | [] => none
    | _ :: rest =>
      if 64 ∉ rest then none
      else
        let pickup := (rest.dropWhile (· ≠ 64)).tail
        if fingerprint = [] ∨ pickup = [] then none
        else some ⟨addressed.takeWhile (· ≠ 64) ++ 64 :: rest.takeWhile (· ≠ 64), pickup,
          fingerprint⟩

/-- The parts of a care-of address spell it, and its inner address is one user at one domain. -/
theorem parseCareOf_spells {addr : Bytes} {co : Address} (h : parseCareOf addr = some co) :
    ∃ u d, 64 ∉ u ∧ 64 ∉ d ∧ co.inner = u ++ 64 :: d ∧ co.pickup ≠ [] ∧ 47 ∉ co.fingerprint ∧
      addr = co.inner ++ 64 :: co.pickup ++ 47 :: co.fingerprint := by
  rcases last_cases 47 addr with hno | ⟨w, fingerprint, hf, rfl⟩
  · rw [parseCareOf, if_pos hno] at h
    cases h
  · rw [parseCareOf, if_neg (by simp)] at h
    simp only [rdropWhile_append hf, rtakeWhile_append hf, List.dropLast_concat] at h
    rcases first_cases 64 w with hno | ⟨u, rest, hu, rfl⟩
    · rw [dropWhile_eq_nil hno] at h
      cases h
    · simp only [dropWhile_append hu, takeWhile_append hu] at h
      rcases first_cases 64 rest with hno | ⟨d, pickup, hd, rfl⟩
      · rw [if_pos hno] at h
        cases h
      · rw [if_neg (by simp)] at h
        simp only [dropWhile_append hd, takeWhile_append hd, List.tail_cons] at h
        split_ifs at h with hempty
        obtain rfl := Option.some.inj h
        rw [not_or] at hempty
        exact ⟨u, d, hu, hd, rfl, hempty.2, hf, by simp⟩

def pickupDomain (pickup : Bytes) : Bytes := (pickup.rtakeWhile (· ≠ 64)).map lower

def domainIsDepositable (domain : Bytes) : Bool :=
  domain ≠ [] && !decide ([46, 46] <:+: domain) && domain.all fun b =>
    (97 ≤ b && b ≤ 122) || (65 ≤ b && b ≤ 90) || (48 ≤ b && b ≤ 57) || b ∈ ascii ".-[]:"

/-- `DeliveryPlan`. -/
inductive Plan
  | email (receiver : Bytes)
  | deposit (domain inner : Bytes)
  | refuse
  deriving DecidableEq

/-- `plan_receiver_delivery`, over Core's `validate_wallet_id`. -/
def planReceiverDelivery (validWalletId : Bytes → Bool) (receiverAddress : Option Bytes)
    (receiverWalletId : Bytes) (pickupSupported : Bool) : Plan :=
  match receiverAddress.filter (47 ∈ ·) with
  | none =>
    if 47 ∈ receiverWalletId then .email (receiverWalletId.rdropWhile (· ≠ 47)).dropLast
    else .refuse
  | some addr =>
    match parseCareOf addr with
    | some co =>
      if ¬ validWalletId (co.inner ++ 47 :: co.fingerprint) then .refuse
      else if pickupSupported ∧ domainIsDepositable (pickupDomain co.pickup) then
        .deposit (pickupDomain co.pickup) co.inner
      else .email co.inner
    | none =>
      if ¬ validWalletId addr then .refuse
      else .email (addr.rdropWhile (· ≠ 47)).dropLast

/-- Nothing is deposited where the operator has not set up a pickup directory, and only under the
name of a host. -/
theorem planReceiverDelivery_deposit {valid : Bytes → Bool} {addr : Option Bytes} {wallet : Bytes}
    {supported : Bool} {domain inner : Bytes}
    (h : planReceiverDelivery valid addr wallet supported = .deposit domain inner) :
    supported ∧ domainIsDepositable domain := by
  unfold planReceiverDelivery at h
  split at h
  · split_ifs at h
  · split at h
    · split_ifs at h with hvalid hs
      obtain ⟨rfl, -⟩ := Plan.deposit.inj h
      exact hs
    · split_ifs at h

/-- A deposit is for a care-of address, in the directory of its pickup. -/
theorem planReceiverDelivery_address {valid : Bytes → Bool} {addr : Option Bytes} {wallet : Bytes}
    {supported : Bool} {domain inner : Bytes}
    (h : planReceiverDelivery valid addr wallet supported = .deposit domain inner) :
    ∃ co : Address, addr = some (co.inner ++ 64 :: co.pickup ++ 47 :: co.fingerprint) ∧
      47 ∉ co.fingerprint ∧ domain = pickupDomain co.pickup := by
  unfold planReceiverDelivery at h
  split at h
  · split_ifs at h
  next a ha =>
    split at h
    next co hco =>
      split_ifs at h
      obtain ⟨rfl, -⟩ := Plan.deposit.inj h
      obtain ⟨-, -, -, -, -, -, hf, rfl⟩ := parseCareOf_spells hco
      exact ⟨co, (Option.filter_eq_some_iff.1 ha).1, hf, rfl⟩
    · split_ifs at h

/-! ## The address that a fingerprint vouches for -/

/-- The text before the last slash of an address, cut at its second @ when there is a fingerprint
and something follows that @. -/
def vouched (addressed fingerprint : Bytes) : Bytes :=
  match addressed.splitOn 64 with
  | user :: domain :: part :: parts =>
    if fingerprint ≠ [] ∧ [64].intercalate (part :: parts) ≠ [] then user ++ 64 :: domain
    else addressed
  | _ => addressed

/-- The plan delivers to this address, by mail or into a pickup directory. -/
def Plan.DeliversTo (p : Plan) (receiver : Bytes) : Prop :=
  p = .email receiver ∨ ∃ domain, p = .deposit domain receiver

/-- A care-of address has the vouched address as its inner one; any other is vouched for as a
whole. -/
theorem parseCareOf_vouched {fingerprint : Bytes} (hf : 47 ∉ fingerprint) (addressed : Bytes) :
    (parseCareOf (addressed ++ 47 :: fingerprint) = none ∧
      vouched addressed fingerprint = addressed) ∨
    ∃ pickup, parseCareOf (addressed ++ 47 :: fingerprint) =
      some ⟨vouched addressed fingerprint, pickup, fingerprint⟩ := by
  rw [parseCareOf, if_neg (by simp)]
  simp only [rdropWhile_append hf, rtakeWhile_append hf, List.dropLast_concat]
  rcases first_cases 64 addressed with hno | ⟨user, rest, hu, rfl⟩
  · left
    rw [dropWhile_eq_nil hno, vouched, List.splitOn_eq_singleton hno]
    exact ⟨rfl, rfl⟩
  · simp only [dropWhile_append hu, takeWhile_append hu, vouched,
      List.splitOn_append_cons_self_of_not_mem hu]
    rcases first_cases 64 rest with hno | ⟨domain, pickup, hd, rfl⟩
    · left
      rw [if_pos hno, List.splitOn_eq_singleton hno]
      exact ⟨rfl, rfl⟩
    · rw [if_neg (by simp)]
      simp only [dropWhile_append hd, takeWhile_append hd, List.tail_cons,
        List.splitOn_append_cons_self_of_not_mem hd]
      obtain ⟨part, parts, hparts⟩ := List.exists_cons_of_ne_nil (List.splitOn_ne_nil 64 pickup)
      rw [hparts]
      simp only
      rw [← hparts, List.intercalate_splitOn]
      by_cases hempty : fingerprint = [] ∨ pickup = []
      · left
        rw [if_pos hempty, if_neg (by rwa [← not_or, not_not])]
        exact ⟨rfl, rfl⟩
      · right
        rw [if_neg hempty, if_pos (not_or.1 hempty)]
        exact ⟨pickup, rfl⟩

/-- The plan for an address with a slash: it delivers to the vouched address if the fingerprint is
valid for it, and nowhere else. -/
theorem planReceiverDelivery_vouched {fingerprint : Bytes} (hf : 47 ∉ fingerprint)
    (valid : Bytes → Bool) (addressed wallet : Bytes) (supported : Bool) :
    if valid (vouched addressed fingerprint ++ 47 :: fingerprint) then
      (planReceiverDelivery valid (some (addressed ++ 47 :: fingerprint)) wallet
        supported).DeliversTo (vouched addressed fingerprint)
    else planReceiverDelivery valid (some (addressed ++ 47 :: fingerprint)) wallet supported =
      .refuse := by
  have hslash : (some (addressed ++ 47 :: fingerprint)).filter (47 ∈ ·) =
      some (addressed ++ 47 :: fingerprint) := by simp
  rw [planReceiverDelivery, hslash]
  simp only
  rcases parseCareOf_vouched hf addressed with ⟨hnone, hall⟩ | ⟨pickup, hsome⟩
  · rw [hnone, hall, rdropWhile_append hf, List.dropLast_concat]
    by_cases hvalid : valid (addressed ++ 47 :: fingerprint) <;> simp [hvalid, Plan.DeliversTo]
  · rw [hsome]
    by_cases hvalid : valid (vouched addressed fingerprint ++ 47 :: fingerprint)
    · simp only [hvalid, not_true_eq_false, if_false, if_true]
      split
      · exact Or.inr ⟨_, rfl⟩
      · exact Or.inl rfl
    · simp [hvalid]

/-- Without an address that has a slash, the wallet id says where the plan delivers. -/
theorem planReceiverDelivery_wallet {addr : Option Bytes} (haddr : ∀ a ∈ addr, 47 ∉ a)
    (valid : Bytes → Bool) (wallet : Bytes) (supported : Bool) :
    planReceiverDelivery valid addr wallet supported =
      (lastCut 47 wallet).elim .refuse fun cut => .email cut.1 := by
  have hnone : addr.filter (47 ∈ ·) = none := by
    cases addr with
    | none => rfl
    | some a => simpa using haddr a rfl
  rw [planReceiverDelivery, hnone]
  rcases last_cases 47 wallet with hno | ⟨email, hex, hhex, rfl⟩
  · rw [lastCut_eq_none hno, if_neg hno]
    rfl
  · rw [lastCut_append hhex, if_pos (by simp), rdropWhile_append hhex, List.dropLast_concat]
    rfl

theorem Plan.DeliversTo.unique {p : Plan} {a b : Bytes} (ha : p.DeliversTo a)
    (hb : p.DeliversTo b) :
    a = b := by
  rcases ha with rfl | ⟨domain, rfl⟩ <;> rcases hb with h | ⟨domain', h⟩ <;> cases h <;> rfl

/-- A plan that delivers is not a refusal. -/
theorem Plan.DeliversTo.ne_refuse {p : Plan} {a : Bytes} (ha : p.DeliversTo a) : p ≠ .refuse := by
  rintro rfl
  rcases ha with h | ⟨domain, h⟩ <;> cases h

/-- The pickup flag changes neither whether a plan refuses nor where it delivers to. -/
theorem planReceiverDelivery_flag (valid : Bytes → Bool) (addr : Option Bytes) (wallet : Bytes)
    (supported supported' : Bool) :
    (planReceiverDelivery valid addr wallet supported = .refuse ↔
      planReceiverDelivery valid addr wallet supported' = .refuse) ∧
    ∀ receiver, (planReceiverDelivery valid addr wallet supported).DeliversTo receiver ↔
      (planReceiverDelivery valid addr wallet supported').DeliversTo receiver := by
  by_cases haddr : ∀ a ∈ addr, 47 ∉ a
  · rw [planReceiverDelivery_wallet haddr, planReceiverDelivery_wallet haddr]
    exact ⟨Iff.rfl, fun _ => Iff.rfl⟩
  · simp only [not_forall, not_not] at haddr
    obtain ⟨a, rfl, hslash⟩ := haddr
    obtain ⟨addressed, fingerprint, hf, rfl⟩ := (last_cases 47 a).resolve_left (not_not.2 hslash)
    have h := planReceiverDelivery_vouched hf valid addressed wallet supported
    have h' := planReceiverDelivery_vouched hf valid addressed wallet supported'
    split at h
    next hvalid =>
      rw [if_pos hvalid] at h'
      refine ⟨iff_of_false h.ne_refuse h'.ne_refuse, fun receiver => ⟨fun hr => ?_, fun hr => ?_⟩⟩
      · rwa [← h.unique hr]
      · rwa [← h'.unique hr]
    next hvalid =>
      rw [if_neg hvalid] at h'
      rw [h, h']
      exact ⟨Iff.rfl, fun _ => Iff.rfl⟩

/-- For every receiver address, wallet id and pickup flag: with a slash in the address the plan
delivers, to the vouched address, exactly if that is valid with the fingerprint; otherwise it mails
to the wallet id up to its last slash, if there is one.  Neither the refusal nor the address depends
on the flag. -/
theorem plan_vouched (valid : Bytes → Bool) (wallet : Bytes) (supported : Bool) :
    (∀ addressed fingerprint, 47 ∉ fingerprint →
      if valid (vouched addressed fingerprint ++ 47 :: fingerprint) then
        (planReceiverDelivery valid (some (addressed ++ 47 :: fingerprint)) wallet
          supported).DeliversTo (vouched addressed fingerprint)
      else planReceiverDelivery valid (some (addressed ++ 47 :: fingerprint)) wallet supported =
        .refuse) ∧
    (∀ addr : Option Bytes, (∀ a ∈ addr, 47 ∉ a) →
      planReceiverDelivery valid addr wallet supported =
        (lastCut 47 wallet).elim .refuse fun cut => .email cut.1) ∧
    ∀ addr supported',
      (planReceiverDelivery valid addr wallet supported = .refuse ↔
        planReceiverDelivery valid addr wallet supported' = .refuse) ∧
      ∀ receiver, (planReceiverDelivery valid addr wallet supported).DeliversTo receiver ↔
        (planReceiverDelivery valid addr wallet supported').DeliversTo receiver :=
  ⟨fun addressed _ hf => planReceiverDelivery_vouched hf valid addressed wallet supported,
    fun _ haddr => planReceiverDelivery_wallet haddr valid wallet supported,
    fun addr supported' => planReceiverDelivery_flag valid addr wallet supported supported'⟩

end Antie.CareOf
