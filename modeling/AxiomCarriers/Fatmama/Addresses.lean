import AxiomCarriers.Lib.Separator
import AxiomCarriers.Lib.Text
import Mathlib.Data.List.DropRight

/-!
# The addresses of FATMAMA

Which addresses the server takes mail for, how it reads the delivery address of another site, and
the slug that names the mailbox of an address.  Python's operations on text are a parameter; texts
are in UTF-8.
-/

namespace Fatmama

open Bytes

abbrev Address := Bytes

/-- Operations of Python's `str`.  Taking a stripped text to lower case leaves nothing to strip and
nothing to take to lower case. -/
structure Str where
  strip : Bytes → Bytes
  lower : Bytes → Bytes
  upper : Bytes → Bytes
  split : Bytes → List Bytes
  lower_stripped : ∀ w, strip w = w → lower (strip (lower w)) = lower w

/-- `strip().lower()`. -/
def Str.norm (py : Str) (t : Bytes) : Bytes := py.lower (py.strip t)

/-- `strip` with a set of characters. -/
def stripChars (chars : Bytes) (t : Bytes) : Bytes :=
  (t.dropWhile (· ∈ chars)).rdropWhile (· ∈ chars)

/-- `rpartition("@")` of a text with an @. -/
def rpartition (addr : Address) : Bytes × Bytes :=
  ((addr.rdropWhile (· ≠ 64)).dropLast, addr.rtakeWhile (· ≠ 64))

/-- `is_cluster_recipient`: the domains are the cluster's and the listed test domains. -/
def isClusterRecipient (py : Str) (domains : List Bytes) (addr : Address) : Bool :=
  64 ∈ addr && (rpartition addr).1 ≠ [] && py.norm (rpartition addr).2 ∈ domains

theorem rpartition_append {b : Bytes} (h : 64 ∉ b) (a : Bytes) :
    rpartition (a ++ 64 :: b) = (a, b) := by
  rw [rpartition, Separator.rdropWhile_append h, Separator.rtakeWhile_append h,
    List.dropLast_concat]

theorem isClusterRecipient_append {py : Str} {domains : List Bytes} {u d : Bytes} (hd : 64 ∉ d) :
    isClusterRecipient py domains (u ++ 64 :: d) ↔ u ≠ [] ∧ py.norm d ∈ domains := by
  simp [isClusterRecipient, rpartition_append hd]

def canonicalHost (py : Str) (host : Bytes) : Bytes :=
  let h := (py.norm host).rdropWhile (· = 46)
  let h := if h.head? = some 91 ∧ h.getLast? = some 93 then h.tail.dropLast else h
  if ascii "ipv6:" <+: h then h.drop 5 else h

/-- `parse_delivery_address`: the address inside a delivery address, and its host. -/
def parseDeliveryAddress (py : Str) (domains : List Bytes) (addr : Address) : Address × Bytes :=
  if 64 ∉ addr then ([], [])
  else
    let inner := py.norm (rpartition addr).1
    if 64 ∉ py.strip (rpartition addr).1 then ([], [])
    else if ¬ isClusterRecipient py domains inner then ([], [])
    else (inner, canonicalHost py (rpartition addr).2)

def unwrapDeliveryAddress (py : Str) (domains mine : List Bytes) (addr : Address) : Address :=
  let (inner, host) := parseDeliveryAddress py domains addr
  if inner = [] ∨ host ∉ mine then [] else inner

/-! ## Slugs -/

/-- A character that the slug keeps. -/
def isSlugChar (b : UInt8) : Bool := (97 ≤ b && b ≤ 122) || (48 ≤ b && b ≤ 57)

/-- `re.sub(r"[^a-z0-9]+", "-", addr)`; the flag says that a run of other characters goes on. -/
def squash : Bool → Bytes → Bytes
  | _, [] => []
  | within, b :: r =>
    if isSlugChar b then b :: squash false r
    else if within then squash true r
    else 45 :: squash true r

def slug (addr : Address) : Bytes :=
  let s := stripChars [45] (squash false addr)
  if s = [] then ascii "anon" else s

/-! ## ASCII texts -/

/-- `strip` on ASCII texts. -/
def asciiStrip (t : Bytes) : Bytes := (t.dropWhile isWs).rdropWhile isWs

theorem asciiStrip_map_lower (t : Bytes) :
    asciiStrip (t.map Bytes.lower) = (asciiStrip t).map Bytes.lower := by
  have h : isWs ∘ Bytes.lower = isWs := funext isWs_lower
  simp only [asciiStrip, List.rdropWhile, List.dropWhile_map, ← List.map_reverse, h]

/-- A word at the front of a line is not stripped away. -/
theorem asciiStrip_append {w : Bytes} (hw : w ≠ []) (hws : ∀ b ∈ w, ¬ isWs b) (r : Bytes) :
    asciiStrip (w ++ r) = w ++ r.rdropWhile isWs := by
  obtain ⟨v, c, rfl⟩ := (List.eq_nil_or_concat w).resolve_left hw
  have hstart : (v ++ c :: r).dropWhile isWs = v ++ c :: r := by
    cases v with
    | nil => exact List.dropWhile_cons_of_neg (hws c (by simp))
    | cons b v => exact List.dropWhile_cons_of_neg (hws b (by simp))
  rw [List.concat_eq_append, List.append_assoc, List.singleton_append, asciiStrip, hstart,
    Text.rdropWhile_append_stop (hws c (by simp)), List.append_assoc, List.singleton_append]

theorem asciiStrip_cons {b : UInt8} (hb : isWs b) (w : Bytes) : asciiStrip (b :: w) = asciiStrip w := by
  rw [asciiStrip, List.dropWhile_cons_of_pos hb]
  rfl

theorem asciiStrip_concat {b : UInt8} (hb : isWs b) (w : Bytes) :
    asciiStrip (w ++ [b]) = asciiStrip w := by
  by_cases hw : ∀ x ∈ w, isWs x
  · have hall : ∀ x ∈ w ++ [b], isWs x := by simpa [or_imp, forall_and] using ⟨hw, hb⟩
    rw [asciiStrip, asciiStrip, List.dropWhile_eq_nil_iff.2 hall, List.dropWhile_eq_nil_iff.2 hw]
  · have hne : w.dropWhile isWs ≠ [] := fun h => hw (List.dropWhile_eq_nil_iff.1 h)
    have hdrop : (w ++ [b]).dropWhile isWs = w.dropWhile isWs ++ [b] := by
      rw [List.dropWhile_append, if_neg (by simpa using hne)]
    rw [asciiStrip, hdrop, List.rdropWhile_concat_pos _ _ _ hb]
    rfl

theorem asciiStrip_ws_append {a : Bytes} (ha : ∀ x ∈ a, isWs x) (w : Bytes) :
    asciiStrip (a ++ w) = asciiStrip w := by
  induction a with
  | nil => rfl
  | cons x a ih =>
    rw [List.forall_mem_cons] at ha
    rw [List.cons_append, asciiStrip_cons ha.1, ih ha.2]

theorem asciiStrip_append_ws {b : Bytes} (hb : ∀ x ∈ b, isWs x) (w : Bytes) :
    asciiStrip (w ++ b) = asciiStrip w := by
  induction b using List.reverseRecOn with
  | nil => rw [List.append_nil]
  | append_singleton b x ih =>
    rw [← List.append_assoc, asciiStrip_concat (hb x (by simp)),
      ih fun y hy => hb y (List.mem_append_left _ hy)]

/-- A text is what is stripped of it, between white space. -/
theorem exists_asciiStrip (w : Bytes) :
    ∃ a b, (∀ x ∈ a, isWs x) ∧ (∀ x ∈ b, isWs x) ∧ w = a ++ asciiStrip w ++ b := by
  refine ⟨w.takeWhile isWs, (w.dropWhile isWs).rtakeWhile isWs, fun _ => List.mem_takeWhile_imp,
    fun _ => List.mem_rtakeWhile_imp, ?_⟩
  rw [asciiStrip, List.append_assoc, List.rdropWhile_append_rtakeWhile,
    List.takeWhile_append_dropWhile]

theorem asciiStrip_asciiStrip (w : Bytes) : asciiStrip (asciiStrip w) = asciiStrip w := by
  obtain ⟨a, b, ha, hb, h⟩ := exists_asciiStrip w
  conv_rhs => rw [h]
  rw [asciiStrip_append_ws hb, asciiStrip_ws_append ha]

theorem asciiStrip_subset (w : Bytes) : asciiStrip w ⊆ w := fun _ h =>
  (List.dropWhile_suffix isWs).subset ((List.rdropWhile_prefix isWs _).subset h)

theorem mem_asciiStrip {b : UInt8} (hb : ¬ isWs b) {w : Bytes} : b ∈ asciiStrip w ↔ b ∈ w := by
  refine ⟨fun h => asciiStrip_subset w h, fun h => ?_⟩
  obtain ⟨u, v, rfl⟩ := List.append_of_mem h
  rw [asciiStrip, Text.dropWhile_append_stop hb, Text.rdropWhile_append_stop hb]
  simp

/-- Python's `str` on ASCII texts. -/
def asciiStr : Str where
  strip := asciiStrip
  lower t := t.map Bytes.lower
  upper t := t.map fun b => if 97 ≤ b ∧ b ≤ 122 then b - 32 else b
  split t := (t.splitOnP isWs).filter (· ≠ [])
  lower_stripped w hw := by
    rw [asciiStrip_map_lower, hw, List.map_map]
    exact congrArg (List.map · w) (funext lower_lower)

end Fatmama
