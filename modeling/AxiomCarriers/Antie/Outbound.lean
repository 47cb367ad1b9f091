import AxiomCarriers.Lib.Bytes
import AxiomCarriers.Lib.Separator

/-!
# Outbound routing

Which way a mail leaves ANTIE is decided twice: `outbox_for` looks the domain of the recipient up in
the routing table, `recipient_is_local` compares it with the domains of the cluster.  The first
looks before the first slash, takes the address inside a delivery address and ignores case; the
second looks behind the last @ of the whole text.  `outbox_local_iff` says for which recipients the
two agree.
-/

namespace Antie.Outbound

open Bytes Separator

/-- A row of the routing table. -/
structure Route where
  domain : Bytes
  outbox : Bytes
  deriving DecidableEq

/-- Why a recipient is rejected. -/
inductive Rejection
  /-- `outbound: recipient {recipient:?} has no '@' — cannot route, rejecting rather than
  dropping` -/
  | noAt (recipient : Bytes)
  /-- `outbound: no route for domain {domain:?} — REJECTING this message. […]` -/
  | noRoute (domain : Bytes)
  deriving DecidableEq

/-- The text before and behind `rfind('@')`. -/
abbrev lastAt (s : Bytes) : Option (Bytes × Bytes) := lastCut 64 s

/-- The loop of `outbox_for` over the table. -/
def lookup (route : List Route) (domain : Bytes) : Except Rejection (Option Bytes) :=
  match route.find? fun r => r.domain.map lower = domain.map lower with
  | some r => .ok (some r.outbox)
  | none => .error (.noRoute domain)

/-- `outbox_for`; `none` when the table is not in use. -/
def outboxFor (route : List Route) (recipient : Bytes) : Except Rejection (Option Bytes) :=
  if route = [] then .ok none
  else
    let addressed := recipient.takeWhile (· ≠ 47)
    let inner := ((lastAt addressed).map (·.1)).getD addressed
    let routeOn := if 64 ∈ inner then inner else addressed
    match lastAt routeOn with
    | none => .error (.noAt recipient)
    | some (_, behind) => lookup route ((behind.takeWhile (· ≠ 47)).map lower)

/-- The domains of the cluster. -/
def clusterDomains : List Bytes := [ascii "axiom", ascii "axiom.internal"]

/-- `recipient_is_local`. -/
def recipientIsLocal (recipient : Bytes) : Bool :=
  match lastAt recipient with
  | none => false
  | some (_, behind) => behind.takeWhile (· ≠ 47) ∈ clusterDomains

/-! ## The domain that is looked up -/

/-- The domain that an address before its first slash names: the one of the address inside it, if it
is a delivery address. -/
def namedDomain (addressed : Bytes) : Option Bytes :=
  (lastAt addressed).map fun x => ((lastAt x.1).map (·.2)).getD x.2

theorem outboxFor_eq {route : List Route} (h : route ≠ []) (recipient : Bytes) :
    outboxFor route recipient = match namedDomain (recipient.takeWhile (· ≠ 47)) with
      | none => .error (.noAt recipient)
      | some domain => lookup route (domain.map lower) := by
  have hslash := notMem_takeWhile 47 recipient
  rw [outboxFor, if_neg h]
  generalize recipient.takeWhile (· ≠ 47) = addressed at hslash
  rcases last_cases 64 addressed with hno | ⟨u, d, hd, rfl⟩
  · simp only [namedDomain, lastAt, lastCut_eq_none hno, Option.map_none, Option.getD_none, if_neg hno]
  · have hlast : lastAt (u ++ 64 :: d) = some (u, d) := lastCut_append hd u
    simp only [namedDomain, hlast, Option.map_some, Option.getD_some]
    rcases last_cases 64 u with hu | ⟨v, e, he, rfl⟩
    · have hslash' : 47 ∉ d := fun hm => hslash (by simp [hm])
      simp only [if_neg hu, hlast, lastAt, lastCut_eq_none hu, Option.map_none, Option.getD_none,
        takeWhile_eq_self hslash']
    · have hslash' : 47 ∉ e := fun hm => hslash (by simp [hm])
      have hmem : 64 ∈ v ++ 64 :: e := by simp
      simp only [if_pos hmem, lastAt, lastCut_append he, Option.map_some, Option.getD_some,
        takeWhile_eq_self hslash']

/-! ## The two decisions -/

/-- The table of the cluster. -/
def clusterTable (outbox : Bytes) : List Route := clusterDomains.map fun d => ⟨d, outbox⟩

/-- The two decisions about a recipient agree: there is no @; or one @, before any slash, and the
domain is of the cluster as it is written, or in no case; or there are several, and the domain of
the inner address is of the cluster, in any case, where the last one is as it is written; or there
is one behind the first slash, and the domain behind the last is of the cluster where the named one
is. -/
def Agreeing (recipient : Bytes) : Prop :=
  match lastAt (recipient.takeWhile (· ≠ 47)), lastAt (recipient.dropWhile (· ≠ 47)) with
  | none, none => True
  | none, some (_, tail) => tail.takeWhile (· ≠ 47) ∉ clusterDomains
  | some (before, domain), none =>
    match lastAt before with
    | none => domain.map lower ∈ clusterDomains → domain ∈ clusterDomains
    | some (_, inner) => inner.map lower ∈ clusterDomains ↔ domain ∈ clusterDomains
  | some (before, domain), some (_, tail) =>
    (((lastAt before).map (·.2)).getD domain).map lower ∈ clusterDomains ↔
      tail.takeWhile (· ≠ 47) ∈ clusterDomains

theorem map_lower_lower (d : Bytes) : (d.map lower).map lower = d.map lower := by
  rw [List.map_map]
  exact List.map_congr_left fun b _ => lower_lower b

theorem lookup_clusterTable (outbox domain : Bytes) :
    lookup (clusterTable outbox) (domain.map lower) = .ok (some outbox) ↔
      domain.map lower ∈ clusterDomains := by
  have haxiom : (ascii "axiom").map lower = ascii "axiom" := by decide
  have hinternal : (ascii "axiom.internal").map lower = ascii "axiom.internal" := by decide
  simp only [lookup, clusterTable, clusterDomains, List.map_cons, List.map_nil, List.find?_cons,
    haxiom, hinternal, map_lower_lower, List.find?_nil, List.mem_cons, List.not_mem_nil, or_false]
  by_cases h₁ : ascii "axiom" = domain.map lower
  · simp [h₁]
  · by_cases h₂ : ascii "axiom.internal" = domain.map lower <;> simp [h₁, h₂, Ne.symm h₁, eq_comm]

theorem outboxFor_clusterTable (outbox recipient : Bytes) :
    outboxFor (clusterTable outbox) recipient = .ok (some outbox) ↔
      ∃ d ∈ namedDomain (recipient.takeWhile (· ≠ 47)), d.map lower ∈ clusterDomains := by
  rw [outboxFor_eq (by simp [clusterTable, clusterDomains])]
  cases namedDomain (recipient.takeWhile (· ≠ 47)) with
  | none => simp
  | some d => simp [lookup_clusterTable]

/-- The last domain of the text: behind the first slash, if there is an @, or else before it. -/
theorem recipientIsLocal_eq (recipient : Bytes) :
    recipientIsLocal recipient =
      match lastAt (recipient.dropWhile (· ≠ 47)), lastAt (recipient.takeWhile (· ≠ 47)) with
      | some (_, tail), _ => decide (tail.takeWhile (· ≠ 47) ∈ clusterDomains)
      | none, some (_, domain) => decide (domain ∈ clusterDomains)
      | none, none => false := by
  have hslash := notMem_takeWhile 47 recipient
  have htail : recipient.dropWhile (· ≠ 47) = [] ∨ ∃ r, recipient.dropWhile (· ≠ 47) = 47 :: r := by
    rcases first_cases 47 recipient with h | ⟨a, r, ha, rfl⟩
    · exact Or.inl (dropWhile_eq_nil h)
    · exact Or.inr ⟨r, dropWhile_append ha r⟩
  have hcut : lastAt recipient =
      lastAt (recipient.takeWhile (· ≠ 47) ++ recipient.dropWhile (· ≠ 47)) := by
    rw [List.takeWhile_append_dropWhile]
  rw [recipientIsLocal, hcut]
  generalize recipient.takeWhile (· ≠ 47) = addressed at hslash
  generalize recipient.dropWhile (· ≠ 47) = tail at htail
  rcases last_cases 64 tail with hno | ⟨v, e, he, rfl⟩
  · rcases last_cases 64 addressed with hno' | ⟨u, d, hd, rfl⟩
    · have hnot : 64 ∉ addressed ++ tail := by simp [hno, hno']
      simp only [lastAt, lastCut_eq_none hnot, lastCut_eq_none hno, lastCut_eq_none hno']
    · have hnot : 64 ∉ d ++ tail := by simp [hno, hd]
      have hd' : 47 ∉ d := fun hm => hslash (by simp [hm])
      have htake : (d ++ tail).takeWhile (· ≠ 47) = d := by
        rcases htail with rfl | ⟨r, rfl⟩
        · rw [List.append_nil, takeWhile_eq_self hd']
        · exact takeWhile_append hd' r
      rw [List.append_assoc, List.cons_append, lastAt, lastCut_append hnot, lastAt,
        lastCut_eq_none hno, lastAt, lastCut_append hd]
      simp only [htake]
  · rw [lastAt, lastCut_append_right (by simp) addressed, lastAt, lastCut_append he]
    rfl

theorem map_lower_mem {d : Bytes} (h : d ∈ clusterDomains) : d.map lower ∈ clusterDomains := by
  revert d
  decide

/-- The routing table and the local test decide alike on exactly these recipients. -/
theorem outbox_local_iff (outbox recipient : Bytes) :
    (outboxFor (clusterTable outbox) recipient = .ok (some outbox) ↔ recipientIsLocal recipient) ↔
      Agreeing recipient := by
  rw [outboxFor_clusterTable, recipientIsLocal_eq, Agreeing, namedDomain]
  rcases lastAt (recipient.takeWhile (· ≠ 47)) with _ | ⟨before, domain⟩
  · rcases lastAt (recipient.dropWhile (· ≠ 47)) with _ | ⟨_, tail⟩ <;> simp
  · rcases lastAt (recipient.dropWhile (· ≠ 47)) with _ | ⟨_, tail⟩
    · rcases hb : lastAt before with _ | ⟨_, inner⟩
      · have hlower : domain ∈ clusterDomains → domain.map lower ∈ clusterDomains := map_lower_mem
        simp only [Option.map_some, Option.mem_some_iff, exists_eq_left', hb, Option.map_none,
          Option.getD_none, decide_eq_true_eq]
        exact ⟨Iff.mp, fun h => ⟨h, hlower⟩⟩
      · simp [hb]
    · rcases hb : lastAt before with _ | ⟨_, inner⟩ <;> simp [hb]

/-- Case is ignored by the table and not by the test. -/
theorem outbox_local_upper :
    outboxFor (clusterTable (ascii "/maildir/local")) (ascii "a@AXIOM") =
      .ok (some (ascii "/maildir/local")) ∧ ¬ recipientIsLocal (ascii "a@AXIOM") := by
  decide

end Antie.Outbound
