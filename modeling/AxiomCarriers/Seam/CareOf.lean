import AxiomCarriers.Antie.CareOf
import AxiomCarriers.Antie.Outbound
import AxiomCarriers.Fatmama.Addresses

/-!
# One care-of address, three readers

`parse_care_of` takes what is before the second @ for the address of the wallet.  `outbox_for` takes
away what is behind the last @ before the first slash, and `parse_delivery_address` what is behind
the last @ of all.  `careOf_read_iff` says for which care-of addresses the three name the same one.
-/

namespace Seam

open Bytes Separator Antie.CareOf Antie.Outbound Fatmama

/-- A care-of address without its fingerprint. -/
def delivery (addr : Bytes) : Bytes := (addr.rdropWhile (· ≠ 47)).dropLast

/-- What is documented of `strip` and `lower` on an address: they neither take an @ away nor make
one, a text with an @ goes to lower case on either side of it, and a text that is stripped of
something is another one in lower case. -/
structure ReadsAddresses (py : Str) : Prop where
  count_strip : ∀ w, (py.strip w).count 64 = w.count 64
  count_lower : ∀ w, (py.lower w).count 64 = w.count 64
  lower_append : ∀ a b, py.lower (a ++ 64 :: b) = py.lower a ++ 64 :: py.lower b
  lower_eq_nil : ∀ w, py.lower w = [] → w = []
  lower_lower : ∀ w, py.lower (py.lower w) = py.lower w
  strip_lower : ∀ w, py.strip (py.lower w) = py.lower (py.strip w)
  stripped_of_lower : ∀ w, py.lower (py.strip w) = py.lower w → py.strip w = w

/-- The domain before the last @ of a pickup. -/
def domainBefore (pickup : Bytes) : Option Bytes :=
  (lastAt pickup).map fun x => ((lastAt x.1).map (·.2)).getD x.1

/-- The user has no slash; the domain has one, or the pickup's first @s name no other domain; and
where the inner address is one of the cluster, the pickup is a host and nothing is stripped away. -/
def ReadAlike (py : Str) (domains : List Bytes) (co : Antie.CareOf.Address) : Prop :=
  47 ∉ co.inner.takeWhile (· ≠ 64) ∧
  (47 ∈ co.inner ∨ ∀ e ∈ domainBefore (co.pickup.takeWhile (· ≠ 47)),
    e.map lower = (co.inner.rtakeWhile (· ≠ 64)).map lower) ∧
  (isClusterRecipient py domains co.inner → 64 ∉ co.pickup ∧ py.strip co.inner = co.inner)

/-! ## The routing table -/

theorem namedDomain_careOf {d : Bytes} (hd : 64 ∉ d) (u pickup : Bytes) :
    namedDomain ((u ++ 64 :: d) ++ 64 :: pickup) = some ((domainBefore pickup).getD d) := by
  rcases last_cases 64 pickup with hno | ⟨v, w, hw, rfl⟩
  · simp only [namedDomain, domainBefore, lastAt, lastCut_append hno, lastCut_append hd,
      lastCut_eq_none hno, Option.map_some, Option.map_none, Option.getD_some, Option.getD_none]
  · have hcut : lastAt ((u ++ 64 :: d) ++ 64 :: (v ++ 64 :: w)) =
        some ((u ++ 64 :: d) ++ 64 :: v, w) := by
      rw [← List.cons_append, ← List.append_assoc]
      exact lastCut_append hw _
    simp only [namedDomain, domainBefore, hcut, lastAt, lastCut_append hw, Option.map_some,
      Option.getD_some]
    rcases last_cases 64 v with hv | ⟨v, e, he, rfl⟩
    · simp only [lastCut_append hv, lastCut_eq_none hv, Option.map_some, Option.map_none,
        Option.getD_some, Option.getD_none]
    · have hcut' : lastCut 64 ((u ++ 64 :: d) ++ 64 :: (v ++ 64 :: e)) =
          some ((u ++ 64 :: d) ++ 64 :: v, e) := by
        rw [← List.cons_append, ← List.append_assoc]
        exact lastCut_append he _
      simp only [hcut', lastCut_append he, Option.map_some, Option.getD_some]

theorem lookup_one_iff (d e : Bytes) :
    lookup [⟨d, []⟩] (e.map lower) = lookup [⟨d, []⟩] (d.map lower) ↔ e.map lower = d.map lower := by
  refine ⟨fun h => ?_, fun h => by rw [h]⟩
  simp only [lookup, List.find?_cons, map_lower_lower, decide_true, List.find?_nil] at h
  by_contra hne
  simp [Ne.symm hne] at h

/-- With an empty table nothing is read of the recipient. -/
theorem outboxFor_nil (a b : Bytes) : outboxFor [] a = outboxFor [] b := rfl

theorem takeWhile_at (y : Bytes) : (64 :: y).takeWhile (· ≠ 47) = 64 :: y.takeWhile (· ≠ 47) :=
  List.takeWhile_cons_of_pos (by decide)

theorem takeWhile_tail (pickup tail : Bytes) :
    (pickup ++ 47 :: tail).takeWhile (· ≠ 47) = pickup.takeWhile (· ≠ 47) := by
  rcases first_cases 47 pickup with hno | ⟨a, r, ha, rfl⟩
  · rw [takeWhile_append hno, takeWhile_eq_self hno]
  · rw [takeWhile_append ha, List.append_assoc, List.cons_append, takeWhile_append ha]

theorem namedDomain_inner {u d : Bytes} (hu : 64 ∉ u) (hd : 64 ∉ d) :
    namedDomain (u ++ 64 :: d.takeWhile (· ≠ 47)) = some (d.takeWhile (· ≠ 47)) := by
  have hmem : 64 ∉ d.takeWhile (· ≠ 47) := fun hm => hd ((List.takeWhile_prefix _).subset hm)
  simp only [namedDomain, lastAt, lastCut_append hmem, lastCut_eq_none hu, Option.map_some,
    Option.map_none, Option.getD_none]

/-- With a slash in the user no @ is left before the slash, and the refusal names the recipient. -/
theorem outboxFor_slashed {u : Bytes} (hu : 64 ∉ u) (hus : 47 ∈ u) {route : List Route}
    (hroute : route ≠ []) (rest : Bytes) :
    outboxFor route (u ++ rest) = .error (.noAt (u ++ rest)) := by
  have hmem : 64 ∉ u.takeWhile (· ≠ 47) := fun hm => hu ((List.takeWhile_prefix _).subset hm)
  rw [outboxFor_eq hroute, takeWhile_append_of_mem hus]
  simp only [namedDomain, lastAt, lastCut_eq_none hmem, Option.map_none]

theorem outboxFor_inner {u d : Bytes} (hu : 64 ∉ u) (hd : 64 ∉ d) (hus : 47 ∉ u)
    {route : List Route} (hroute : route ≠ []) :
    outboxFor route (u ++ 64 :: d) = lookup route ((d.takeWhile (· ≠ 47)).map lower) := by
  rw [outboxFor_eq hroute, takeWhile_append_of_notMem hus, takeWhile_at, namedDomain_inner hu hd]

/-- With a slash in the domain the pickup is not looked at. -/
theorem outboxFor_slashed_domain {u d : Bytes} (hu : 64 ∉ u) (hd : 64 ∉ d) (hus : 47 ∉ u)
    (hds : 47 ∈ d) {route : List Route} (hroute : route ≠ []) (rest : Bytes) :
    outboxFor route (u ++ 64 :: d ++ rest) = outboxFor route (u ++ 64 :: d) := by
  have hmem : 47 ∈ u ++ 64 :: d := by simp [hds]
  have hnamed : namedDomain ((u ++ 64 :: d).takeWhile (· ≠ 47)) = some (d.takeWhile (· ≠ 47)) := by
    rw [takeWhile_append_of_notMem hus, takeWhile_at, namedDomain_inner hu hd]
  rw [outboxFor_eq hroute, outboxFor_eq hroute, takeWhile_append_of_mem hmem, hnamed]

theorem outboxFor_outer {u d : Bytes} (hd : 64 ∉ d) (hus : 47 ∉ u) (hds : 47 ∉ d)
    {route : List Route} (hroute : route ≠ []) (pickup tail : Bytes) :
    outboxFor route (u ++ 64 :: d ++ 64 :: pickup ++ 47 :: tail) =
      lookup route (((domainBefore (pickup.takeWhile (· ≠ 47))).getD d).map lower) := by
  have hmem : 47 ∉ u ++ 64 :: d := by simp [hus, hds]
  rw [outboxFor_eq hroute, List.append_assoc, List.cons_append, takeWhile_append_of_notMem hmem,
    takeWhile_at, takeWhile_tail, namedDomain_careOf hd]

theorem outboxFor_careOf_iff {u d : Bytes} (hu : 64 ∉ u) (hd : 64 ∉ d) (pickup tail : Bytes) :
    (∀ route, outboxFor route (u ++ 64 :: d ++ 64 :: pickup ++ 47 :: tail) =
        outboxFor route (u ++ 64 :: d)) ↔
      47 ∉ u ∧ (47 ∈ d ∨
        ∀ e ∈ domainBefore (pickup.takeWhile (· ≠ 47)), e.map lower = d.map lower) := by
  by_cases hus : 47 ∈ u
  · refine iff_of_false (fun h => ?_) fun h => h.1 hus
    have hone := h [⟨[], []⟩]
    rw [List.append_assoc, List.append_assoc, outboxFor_slashed hu hus (by simp),
      outboxFor_slashed hu hus (by simp)] at hone
    have hlen := congrArg List.length (Rejection.noAt.inj (Except.error.inj hone))
    simp at hlen
  by_cases hds : 47 ∈ d
  · refine iff_of_true (fun route => ?_) ⟨hus, Or.inl hds⟩
    by_cases hroute : route = []
    · rw [hroute, outboxFor_nil]
    · rw [List.append_assoc _ (64 :: pickup), outboxFor_slashed_domain hu hd hus hds hroute]
  have hself : d.takeWhile (· ≠ 47) = d := takeWhile_eq_self hds
  have hiff : (∀ route, outboxFor route (u ++ 64 :: d ++ 64 :: pickup ++ 47 :: tail) =
      outboxFor route (u ++ 64 :: d)) ↔
      ((domainBefore (pickup.takeWhile (· ≠ 47))).getD d).map lower = d.map lower := by
    refine ⟨fun h => ?_, fun h route => ?_⟩
    · have hone := h [⟨d, []⟩]
      rw [outboxFor_outer hd hus hds (by simp), outboxFor_inner hu hd hus (by simp), hself] at hone
      exact (lookup_one_iff d _).1 hone
    · by_cases hroute : route = []
      · rw [hroute, outboxFor_nil]
      · rw [outboxFor_outer hd hus hds hroute, outboxFor_inner hu hd hus hroute, hself, h]
  rw [hiff]
  cases domainBefore (pickup.takeWhile (· ≠ 47)) <;> simp [hus, hds]

/-! ## The server -/

variable {py : Str} {domains : List Bytes}

/-- The lower-case spelling of a cluster address is one. -/
theorem isClusterRecipient_lower (hpy : ReadsAddresses py) {u d : Bytes} (hd : 64 ∉ d)
    (h : isClusterRecipient py domains (u ++ 64 :: d)) :
    isClusterRecipient py domains (py.lower (u ++ 64 :: d)) := by
  obtain ⟨hu, hdom⟩ := (isClusterRecipient_append hd).1 h
  have hd' : 64 ∉ py.lower d := by
    rw [← List.count_eq_zero, hpy.count_lower, List.count_eq_zero]
    exact hd
  have hnorm : py.norm (py.lower d) = py.norm d := by
    rw [Str.norm, hpy.strip_lower, hpy.lower_lower]
    rfl
  rw [hpy.lower_append, isClusterRecipient_append hd', hnorm]
  exact ⟨fun he => hu (hpy.lower_eq_nil u he), hdom⟩

/-- What the server finds is nothing, or what is before the last @. -/
theorem parseDeliveryAddress_cases (py : Str) (domains : List Bytes) (addr : Bytes) :
    (parseDeliveryAddress py domains addr).1 = [] ∨
      (parseDeliveryAddress py domains addr).1 = py.norm (rpartition addr).1 := by
  by_cases hfound : isClusterRecipient py domains (py.norm (rpartition addr).1)
  · simp only [parseDeliveryAddress, hfound]
    split_ifs <;> simp
  · simp only [parseDeliveryAddress, hfound]
    split_ifs <;> simp

theorem parseDeliveryAddress_careOf_iff (hpy : ReadsAddresses py) {u d : Bytes} (hu : 64 ∉ u)
    (hd : 64 ∉ d) (hcluster : isClusterRecipient py domains (u ++ 64 :: d)) (pickup : Bytes) :
    (parseDeliveryAddress py domains (u ++ 64 :: d ++ 64 :: pickup)).1 = py.lower (u ++ 64 :: d) ↔
      64 ∉ pickup ∧ py.strip (u ++ 64 :: d) = u ++ 64 :: d := by
  have hcount : (py.lower (u ++ 64 :: d)).count 64 = 1 := by
    rw [hpy.count_lower, List.count_append, List.count_cons_self, List.count_eq_zero.2 hu,
      List.count_eq_zero.2 hd]
  refine ⟨fun h => ?_, fun h => ?_⟩
  · have hnorm : py.norm (rpartition (u ++ 64 :: d ++ 64 :: pickup)).1 = py.lower (u ++ 64 :: d) := by
      rcases parseDeliveryAddress_cases py domains _ with hnil | hfound
      · rw [← h, hnil] at hcount
        simp at hcount
      · exact hfound.symm.trans h
    rcases last_cases 64 pickup with hno | ⟨v, w, hw, rfl⟩
    · rw [rpartition_append hno] at hnorm
      exact ⟨hno, hpy.stripped_of_lower _ hnorm⟩
    · rw [← List.cons_append, ← List.append_assoc, rpartition_append hw, Str.norm] at hnorm
      rw [← hnorm, hpy.count_lower, hpy.count_strip] at hcount
      simp at hcount
      omega
  · obtain ⟨hno, hstrip⟩ := h
    have hnorm : py.norm (u ++ 64 :: d) = py.lower (u ++ 64 :: d) := by rw [Str.norm, hstrip]
    have hlower := isClusterRecipient_lower hpy hd hcluster
    rw [parseDeliveryAddress, if_neg (by simp)]
    simp only [rpartition_append hno, hstrip, hnorm]
    rw [if_neg (by simp), if_neg (not_not.2 hlower)]

/-! ## All three -/

/-- The three readers name the address that is cared for at exactly these care-of addresses. -/
theorem careOf_read_iff (hpy : ReadsAddresses py) {addr : Bytes} {co : Antie.CareOf.Address}
    (hco : parseCareOf addr = some co) :
    ((∀ route, outboxFor route addr = outboxFor route co.inner) ∧
      (isClusterRecipient py domains co.inner →
        (parseDeliveryAddress py domains (delivery addr)).1 = py.lower co.inner)) ↔
      ReadAlike py domains co := by
  obtain ⟨u, d, hu, hd, hinner, hpickup, hfp, rfl⟩ := parseCareOf_spells hco
  obtain ⟨inner, pickup, fingerprint⟩ := co
  obtain rfl : inner = u ++ 64 :: d := hinner
  have hdelivery : delivery (u ++ 64 :: d ++ 64 :: pickup ++ 47 :: fingerprint) =
      u ++ 64 :: d ++ 64 :: pickup := by
    rw [delivery, rdropWhile_append hfp, List.dropLast_concat]
  have hserver : (isClusterRecipient py domains (u ++ 64 :: d) →
      (parseDeliveryAddress py domains (u ++ 64 :: d ++ 64 :: pickup)).1 = py.lower (u ++ 64 :: d)) ↔
      (isClusterRecipient py domains (u ++ 64 :: d) →
        64 ∉ pickup ∧ py.strip (u ++ 64 :: d) = u ++ 64 :: d) :=
    imp_congr_right fun hcluster => parseDeliveryAddress_careOf_iff hpy hu hd hcluster pickup
  rw [ReadAlike, hdelivery, outboxFor_careOf_iff hu hd, hserver]
  have hslash : (47 : UInt8) ≠ 64 := by decide
  simp only [takeWhile_append hu, rtakeWhile_append hd, List.mem_append, List.mem_cons, hslash,
    false_or, and_assoc]
  refine and_congr_right fun hus => ?_
  rw [or_iff_right hus]

/-! ## ASCII texts -/

theorem count_dropWhile_isWs (w : Bytes) : (w.dropWhile isWs).count 64 = w.count 64 := by
  have hws : (w.takeWhile isWs).count 64 = 0 :=
    List.count_eq_zero.2 fun h => absurd (List.mem_takeWhile_imp h) (by decide)
  have hcut := congrArg (List.count 64) (List.takeWhile_append_dropWhile (p := isWs) (l := w))
  rw [List.count_append, hws, Nat.zero_add] at hcut
  exact hcut

theorem asciiStr_readsAddresses : ReadsAddresses asciiStr where
  count_strip w := by
    show ((w.dropWhile isWs).rdropWhile isWs).count 64 = w.count 64
    rw [List.rdropWhile, List.count_reverse, count_dropWhile_isWs, List.count_reverse,
      count_dropWhile_isWs]
  count_lower w := by
    show (w.map lower).count 64 = w.count 64
    simp only [List.count, List.countP_map]
    exact List.countP_congr fun b _ => by simpa using lower_eq_iff (by decide)
  lower_append a b := List.map_append
  lower_eq_nil w h := List.map_eq_nil_iff.1 h
  lower_lower w := map_lower_lower w
  strip_lower w := asciiStrip_map_lower w
  stripped_of_lower w h := by
    have hsub : (asciiStrip w).Sublist w :=
      (List.rdropWhile_prefix _ _).sublist.trans (List.dropWhile_suffix _).sublist
    apply hsub.eq_of_length
    have hlen := congrArg List.length h
    exact (List.length_map lower).symm.trans (hlen.trans (List.length_map lower))

/-- A pickup that is a host is read alike. -/
theorem careOf_read_host :
    parseCareOf (ascii "a@axiom@node.example.com/ff") =
      some ⟨ascii "a@axiom", ascii "node.example.com", ascii "ff"⟩ ∧
    outboxFor [⟨ascii "axiom", ascii "/maildir/local"⟩] (ascii "a@axiom@node.example.com/ff") =
      outboxFor [⟨ascii "axiom", ascii "/maildir/local"⟩] (ascii "a@axiom") ∧
    (parseDeliveryAddress asciiStr [ascii "axiom"] (delivery (ascii "a@axiom@node.example.com/ff"))).1 =
      asciiStr.lower (ascii "a@axiom") :=
  have hparse : parseCareOf (ascii "a@axiom@node.example.com/ff") =
      some ⟨ascii "a@axiom", ascii "node.example.com", ascii "ff"⟩ := by decide
  have halike : ReadAlike asciiStr [ascii "axiom"]
      ⟨ascii "a@axiom", ascii "node.example.com", ascii "ff"⟩ :=
    ⟨by decide, Or.inr (by decide), fun _ => by decide⟩
  have hread := (careOf_read_iff asciiStr_readsAddresses hparse).2 halike
  ⟨hparse, hread.1 _, hread.2 (by decide)⟩

/-- A pickup that is a mailbox is not: its user is taken for the domain. -/
theorem careOf_read_mailbox :
    parseCareOf (ascii "a@axiom@user@fastlane.com/ff") =
      some ⟨ascii "a@axiom", ascii "user@fastlane.com", ascii "ff"⟩ ∧
    outboxFor [⟨ascii "axiom", ascii "/maildir/local"⟩] (ascii "a@axiom@user@fastlane.com/ff") ≠
      outboxFor [⟨ascii "axiom", ascii "/maildir/local"⟩] (ascii "a@axiom") ∧
    isClusterRecipient asciiStr [ascii "axiom"] (ascii "a@axiom") ∧
    (parseDeliveryAddress asciiStr [ascii "axiom"]
      (delivery (ascii "a@axiom@user@fastlane.com/ff"))).1 ≠ asciiStr.lower (ascii "a@axiom") :=
  ⟨by decide, by decide, by decide, by decide⟩

end Seam
