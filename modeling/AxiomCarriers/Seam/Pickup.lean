import AxiomCarriers.Antie.CareOf
import AxiomCarriers.Seam.Deposits

/-!
# Where a pickup deposit lands

`deposit_atomic` joins the domain of a plan to the pickup base, and `_collect_pickup` looks into
`new` of every directory below the base.  A domain that passes `domain_is_depositable` names such a
directory unless it is `.`, which names the base itself: the mail is then put into `new` of the
base, where nothing collects it (`deposit_lands_iff`).
-/

namespace Seam.Pickup

open Bytes Separator Antie.CareOf
open Fatmama (Path)
open Fatmama.Collector (Setup belongs)
open Deposits (hexEncode)

/-! ## Paths -/

/-- The name of an entry of a directory. -/
def IsName (c : Bytes) : Prop := c ≠ [] ∧ 47 ∉ c ∧ c ≠ ascii "." ∧ c ≠ ascii ".."

def component (dir : Path) (c : Bytes) : Path :=
  if c = [] ∨ c = ascii "." then dir else if c = ascii ".." then dir.dropLast else dir ++ [c]

/-- Where `dir.join(p)` leads; a path with a leading slash starts at the root. -/
def join (dir : Path) (p : Bytes) : Path :=
  (p.splitOn 47).foldl component (if p.head? = some 47 then [] else dir)

theorem join_name {c : Bytes} (h : IsName c) (dir : Path) : join dir c = dir ++ [c] := by
  obtain ⟨hne, hslash, hdot, hdots⟩ := h
  have hhead : c.head? ≠ some 47 := fun he => hslash (List.mem_of_mem_head? he)
  rw [join, if_neg hhead, List.splitOn_eq_singleton hslash, List.foldl_cons, List.foldl_nil,
    component, if_neg (not_or.2 ⟨hne, hdot⟩), if_neg hdots]

/-- The file of `deposit_atomic` while it is written. -/
def tmpFile (base : Path) (domain file : Bytes) : Path :=
  join (join (join base domain) (ascii "tmp")) file

/-- The file of `deposit_atomic` in the end. -/
def newFile (base : Path) (domain file : Bytes) : Path :=
  join (join (join base domain) (ascii "new")) file

/-! ## Domains -/

theorem isName_iff_of_depositable {domain : Bytes} (h : domainIsDepositable domain) :
    IsName domain ↔ domain ≠ ascii "." := by
  simp only [domainIsDepositable, Bool.and_eq_true, decide_eq_true_eq, Bool.not_eq_true',
    decide_eq_false_iff_not] at h
  obtain ⟨⟨hne, hdots⟩, hall⟩ := h
  have hslash : 47 ∉ domain := fun hmem => absurd (List.all_eq_true.1 hall 47 hmem) (by decide)
  have hparent : domain ≠ ascii ".." := by
    rintro rfl
    exact hdots List.infix_rfl
  exact ⟨fun hname => hname.2.2.1, fun hdot => ⟨hne, hslash, hdot, hparent⟩⟩

/-- A list without the separator is the last part exactly of the lists that end in it. -/
theorem suffix_cons_iff {c : UInt8} {u v w : Bytes} (hv : c ∉ v) (hw : c ∉ w) :
    c :: w <:+ u ++ c :: v ↔ v = w := by
  constructor
  · rintro ⟨u', hu'⟩
    have hcut := lastCut_append hw u'
    rw [hu', lastCut_append hv, Option.some.injEq, Prod.mk.injEq] at hcut
    exact hcut.2
  · rintro rfl
    exact List.suffix_append u _

theorem map_lower_eq_dot_iff (w : Bytes) : w.map lower = ascii "." ↔ w = ascii "." := by
  show w.map lower = [46] ↔ w = [46]
  rw [List.map_eq_singleton_iff]
  constructor
  · rintro ⟨b, rfl, hb⟩
    rw [(lower_eq_iff (by decide)).1 hb]
  · rintro rfl
    exact ⟨46, rfl, by decide⟩

/-- The domain of a pickup is `.` exactly if the address before it and the pickup end in `@.`. -/
theorem pickupDomain_eq_dot_iff (inner pickup : Bytes) :
    pickupDomain pickup = ascii "." ↔ ascii "@." <:+ inner ++ 64 :: pickup := by
  have hdot : 64 ∉ ascii "." := by decide
  rw [pickupDomain, map_lower_eq_dot_iff]
  show _ ↔ 64 :: ascii "." <:+ _
  rcases last_cases 64 pickup with hno | ⟨user, host, hhost, rfl⟩
  · rw [rtakeWhile_eq_self hno]
    exact (suffix_cons_iff hno hdot).symm
  · rw [rtakeWhile_append hhost, ← List.cons_append, ← List.append_assoc]
    exact (suffix_cons_iff hhost hdot).symm

/-! ## Deposits -/

/-- The mails that are deposited. -/
inductive Artifact
  | cheque
  | scarConsent

def Artifact.fileName (txid : Bytes) : Artifact → Bytes
  | .cheque => Deposits.chequeName txid
  | .scarConsent => hexEncode txid ++ ascii ".scar_consent.eml"

/-- The domain is the name of a directory below the base, the deposit is written there, and its file
comes to lie where the pickup collector looks. -/
def Lands (base : Path) (domain file : Bytes) : Prop :=
  IsName domain ∧ tmpFile base domain file = base ++ [domain, ascii "tmp", file] ∧
    newFile base domain file = base ++ [domain, ascii "new", file] ∧
    ∀ c : Setup, c.pickupBase = some base → belongs c .pickup (newFile base domain file)

theorem notMem_hexEncode (txid : Bytes) : 47 ∉ hexEncode txid := by
  intro h
  obtain ⟨x, -, hx⟩ := List.mem_flatMap.1 h
  exact absurd (Tot.isHex_digits hx) (by decide)

theorem isName_fileName (txid : Bytes) (a : Artifact) : IsName (a.fileName txid) := by
  have hname : ∀ suffix, 47 ∉ suffix → 2 < suffix.length → IsName (hexEncode txid ++ suffix) := by
    intro suffix hslash hlength
    have hne : ∀ w : Bytes, w.length ≤ 2 → hexEncode txid ++ suffix ≠ w := by
      rintro w hw rfl
      rw [List.length_append] at hw
      omega
    exact ⟨hne [] (by decide), by simp [notMem_hexEncode, hslash], hne _ (by decide),
      hne _ (by decide)⟩
  cases a with
  | cheque => exact hname _ (by decide) (by decide)
  | scarConsent => exact hname _ (by decide) (by decide)

theorem lands_of_isName {base : Path} {domain file : Bytes} (hdomain : IsName domain)
    (hfile : IsName file) : Lands base domain file := by
  have hnew : newFile base domain file = base ++ [domain, ascii "new", file] := by
    have hsub : IsName (ascii "new") := by unfold IsName; decide
    rw [newFile, join_name hdomain, join_name hsub, join_name hfile]
    simp
  have htmp : tmpFile base domain file = base ++ [domain, ascii "tmp", file] := by
    have hsub : IsName (ascii "tmp") := by unfold IsName; decide
    rw [tmpFile, join_name hdomain, join_name hsub, join_name hfile]
    simp
  refine ⟨hdomain, htmp, hnew, fun c hc => ?_⟩
  have hdrop : (base ++ [domain, ascii "new", file]).dropLast = base ++ [domain, ascii "new"] :=
    List.dropLast_append_cons
  rw [hnew, belongs, hc]
  simp [hdrop]

/-- A deposit lands where the collector looks exactly if the receiver's address does not end in `@.`
before its last slash. -/
theorem deposit_lands_iff {valid : Bytes → Bool} {addr : Option Bytes} {wallet : Bytes}
    {supported : Bool} {domain inner : Bytes}
    (h : planReceiverDelivery valid addr wallet supported = .deposit domain inner)
    (base : Path) (txid : Bytes) (a : Artifact) :
    Lands base domain (a.fileName txid) ↔
      ∀ addressed fingerprint, addr.bind (lastCut 47) = some (addressed, fingerprint) →
        ¬ ascii "@." <:+ addressed := by
  obtain ⟨co, rfl, hf, hdomain⟩ := planReceiverDelivery_address h
  have hname := isName_iff_of_depositable (planReceiverDelivery_deposit h).2
  have hcut : (some (co.inner ++ 64 :: co.pickup ++ 47 :: co.fingerprint)).bind (lastCut 47) =
      some (co.inner ++ 64 :: co.pickup, co.fingerprint) := lastCut_append hf _
  have hdot := pickupDomain_eq_dot_iff co.inner co.pickup
  rw [← hdomain] at hdot
  constructor
  · rintro hlands addressed fingerprint haddr
    rw [hcut, Option.some.injEq, Prod.mk.injEq] at haddr
    rw [← haddr.1, ← hdot]
    exact hname.1 hlands.1
  · intro haddr
    exact lands_of_isName (hname.2 (hdot.not.2 (haddr _ _ hcut))) (isName_fileName txid a)

theorem deposit_lands_host :
    Lands [ascii "pickup"] (ascii "node.example.com") (Artifact.cheque.fileName [1, 2]) := by
  have hplan : planReceiverDelivery (fun _ => true)
      (some (ascii "alice@axiom.internal@Node.example.com/a3f7b232")) [] true =
      .deposit (ascii "node.example.com") (ascii "alice@axiom.internal") := by decide +kernel
  refine (deposit_lands_iff hplan [ascii "pickup"] [1, 2] .cheque).2
    fun addressed fingerprint haddr => ?_
  have hcut : lastCut 47 (ascii "alice@axiom.internal@Node.example.com/a3f7b232") =
      some (ascii "alice@axiom.internal@Node.example.com", ascii "a3f7b232") := by decide +kernel
  obtain ⟨rfl, rfl⟩ := Prod.mk.inj (Option.some.inj (hcut.symm.trans haddr))
  decide

/-- The pickup `.` is written into `new` of the base itself. -/
theorem deposit_beside :
    ¬ ∀ (valid : Bytes → Bool) (addr : Option Bytes) (wallet : Bytes) (supported : Bool)
      (domain inner : Bytes) (base : Path) (txid : Bytes) (a : Artifact),
      planReceiverDelivery valid addr wallet supported = .deposit domain inner →
      Lands base domain (a.fileName txid) := by
  intro h
  have hlands := h (fun _ => true) (some (ascii "alice@axiom.internal@./a3f7b232")) [] true
    (ascii ".") (ascii "alice@axiom.internal") [ascii "pickup"] [1, 2] .cheque (by decide +kernel)
  exact hlands.1.2.2.1 rfl

end Seam.Pickup
