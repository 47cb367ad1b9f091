import Mathlib.Data.List.Infix
import Mathlib.Tactic.Common

/-!
# Byte strings and their lines

A byte string is a list of bytes.  `lines` cuts it after every LF, keeping the terminators, and
`lines_induction` is the induction that follows this cut: a byte string is empty, a last line
without LF, or a line with its LF and a rest.
-/

abbrev Bytes := List UInt8

namespace Bytes

instance : LawfulBEq Bytes := inferInstance

/-- What holds of every byte of a text is decided over the text, not over all the bytes there
are. -/
instance (p : UInt8 → Prop) [DecidablePred p] (w : Bytes) : Decidable (∀ b ∈ w, p b) :=
  List.decidableBAll p w

/-- The bytes of an ASCII text. -/
def ascii (s : String) : Bytes := s.toList.map fun c => c.toNat.toUInt8

def utf8 (s : String) : Bytes := s.toUTF8.data.toList

abbrev LF : UInt8 := 10

abbrev CR : UInt8 := 13

/-- The end of a line on the wire. -/
abbrev crlf : Bytes := [CR, LF]

/-- `to_ascii_lowercase` on one byte. -/
def lower (b : UInt8) : UInt8 := if 65 ≤ b ∧ b ≤ 90 then b + 32 else b

/-- ASCII white space: tab, LF, VT, FF, CR and space. -/
def isWs (b : UInt8) : Bool := b = 32 || (9 ≤ b && b ≤ 13)

theorem lower_lt {b : UInt8} : lower b < 128 ↔ b < 128 := by
  unfold lower
  split_ifs with h
  · simp only [UInt8.le_iff_toNat_le, UInt8.lt_iff_toNat_lt, UInt8.toNat_add] at h ⊢
    simp only [UInt8.reduceToNat] at h ⊢
    omega
  · exact Iff.rfl

/-- What is below the letters comes from itself alone. -/
theorem lower_eq_iff {b c : UInt8} (hb : b < 65) : lower c = b ↔ c = b := by
  unfold lower
  split_ifs with h
  · have hne : c ≠ b := fun he => absurd (UInt8.lt_of_le_of_lt h.1 (he ▸ hb)) (UInt8.lt_irrefl 65)
    refine iff_of_false (fun he => ?_) hne
    rw [← he] at hb
    simp only [UInt8.le_iff_toNat_le, UInt8.lt_iff_toNat_lt, UInt8.toNat_add] at h hb
    simp only [UInt8.reduceToNat] at h hb
    omega
  · exact Iff.rfl

theorem isWs_lt {b : UInt8} (h : isWs b) : b < 128 := by
  simp only [isWs, Bool.or_eq_true, decide_eq_true_eq, Bool.and_eq_true] at h
  rcases h with rfl | ⟨-, h⟩
  · decide
  · exact UInt8.lt_of_le_of_lt h (by decide)

theorem isWs_lower (b : UInt8) : isWs (lower b) = isWs b := by
  have h : ∀ c : BitVec 8, isWs (lower (UInt8.ofBitVec c)) = isWs (UInt8.ofBitVec c) := by
    decide
  exact h b.toBitVec

theorem lower_lower (b : UInt8) : lower (lower b) = lower b := by
  have h : ∀ c : BitVec 8, lower (lower (UInt8.ofBitVec c)) =
      lower (UInt8.ofBitVec c) := by
    decide
  exact h b.toBitVec

/-! ## Lines -/

/-- The lines of a byte string with their terminators: a cut after every LF. -/
def lines : Bytes → List Bytes
  | [] => []
  | b :: bs =>
    if b = LF then [b] :: lines bs
    else match lines bs with
      | [] => [[b]]
      | l :: ls => (b :: l) :: ls

@[simp] theorem lines_nil : lines [] = [] := rfl

theorem lines_last {x : Bytes} (hx : x ≠ []) (h : LF ∉ x) : lines x = [x] := by
  induction x with
  | nil => exact absurd rfl hx
  | cons b bs ih =>
    simp only [List.mem_cons, not_or] at h
    rw [lines, if_neg (Ne.symm h.1)]
    cases bs with
    | nil => rfl
    | cons c cs => rw [ih (List.cons_ne_nil _ _) h.2]

theorem lines_line {x : Bytes} (h : LF ∉ x) (r : Bytes) :
    lines (x ++ LF :: r) = (x ++ [LF]) :: lines r := by
  induction x with
  | nil => simp [lines]
  | cons b bs ih =>
    simp only [List.mem_cons, not_or] at h
    rw [List.cons_append, lines, if_neg (Ne.symm h.1), ih h.2]
    rfl

theorem lines_crlf {x : Bytes} (h : LF ∉ x) (r : Bytes) :
    lines (x ++ crlf ++ r) = (x ++ crlf) :: lines r := by
  have hlf : LF ∉ x ++ [CR] := fun hm => (List.mem_append.1 hm).elim h (by decide)
  have hleft : x ++ crlf ++ r = x ++ [CR] ++ LF :: r := by simp
  have hline : x ++ crlf = x ++ [CR] ++ [LF] := by simp
  rw [hleft, lines_line hlf, hline]

/-- Induction over the lines of a byte string. -/
theorem lines_induction {P : Bytes → Prop} (nil : P [])
    (last : ∀ x, x ≠ [] → LF ∉ x → P x) (line : ∀ x r, LF ∉ x → P r → P (x ++ LF :: r))
    (b : Bytes) : P b := by
  induction hn : b.length using Nat.strongRecOn generalizing b with
  | ind n ih =>
    by_cases hb : LF ∈ b
    · obtain ⟨x, r, rfl, hx⟩ := List.eq_append_cons_of_mem hb
      rw [List.length_append, List.length_cons] at hn
      exact line x r hx (ih r.length (by omega) r rfl)
    · by_cases h : b = []
      · rw [h]
        exact nil
      · exact last b h hb

theorem prefix_append_cases {α : Type*} {p x y : List α} (h : p <+: x ++ y) :
    p <+: x ∨ ∃ d, d ≠ [] ∧ p = x ++ d ∧ d <+: y := by
  obtain ⟨r, hr⟩ := h
  rcases List.append_eq_append_iff.1 hr with ⟨a, rfl, -⟩ | ⟨d, rfl, rfl⟩
  · exact Or.inl (List.prefix_append p a)
  · by_cases hd : d = []
    · exact Or.inl (by simp [hd])
    · exact Or.inr ⟨d, hd, rfl, List.prefix_append d r⟩

theorem flatten_lines (b : Bytes) : (lines b).flatten = b := by
  induction b using lines_induction with
  | nil => rfl
  | last x hx h => simp [lines_last hx h]
  | line x r h ih => simp [lines_line h, ih]

theorem lines_append {x : Bytes} (hx : x = [] ∨ [LF] <:+ x) (y : Bytes) :
    lines (x ++ y) = lines x ++ lines y := by
  induction x using lines_induction with
  | nil => rfl
  | last x hne h => exact absurd ((hx.resolve_left hne).subset (List.mem_singleton.2 rfl)) h
  | line x r h ih =>
    have hr : r = [] ∨ [LF] <:+ r := by
      refine or_iff_not_imp_left.2 fun hne => ?_
      refine List.suffix_of_suffix_length_le (hx.resolve_left (by simp))
        ((List.suffix_cons LF r).trans (List.suffix_append x _)) ?_
      exact List.length_pos_of_ne_nil hne
    rw [List.append_assoc, List.cons_append, lines_line h, lines_line h, ih hr, List.cons_append]

theorem ne_nil_of_mem_lines {b l : Bytes} (h : l ∈ lines b) : l ≠ [] := by
  induction b using lines_induction with
  | nil => simp at h
  | last x hx hlf =>
    rw [lines_last hx hlf, List.mem_singleton] at h
    exact h ▸ hx
  | line x r hlf ih =>
    rw [lines_line hlf] at h
    rcases List.mem_cons.1 h with rfl | h
    · simp
    · exact ih h

/-! ## Separators -/

/-- The bytes before and behind the first occurrence of a separator. -/
def cut (sep : Bytes) : Bytes → Option (Bytes × Bytes)
  | [] => none
  | b :: r =>
    if sep <+: b :: r then some ([], (b :: r).drop sep.length)
    else (cut sep r).map fun p => (b :: p.1, p.2)

theorem cut_eq {sep s a r : Bytes} (h : cut sep s = some (a, r)) : s = a ++ (sep ++ r) := by
  induction s generalizing a with
  | nil => simp [cut] at h
  | cons b s ih =>
    rw [cut] at h
    split_ifs at h with hp
    · obtain ⟨t, ht⟩ := hp
      obtain ⟨rfl, rfl⟩ := Prod.mk.inj (Option.some.inj h)
      rw [← ht, List.drop_left]
      rfl
    · obtain ⟨p, hp, he⟩ := Option.map_eq_some_iff.1 h
      obtain ⟨rfl, rfl⟩ := Prod.mk.inj he
      rw [ih hp, List.cons_append]

theorem cut_byte {c : UInt8} {x : Bytes} (h : c ∉ x) (r : Bytes) :
    cut [c] (x ++ c :: r) = some (x, r) := by
  induction x with
  | nil => simp [cut]
  | cons b x ih =>
    rw [List.mem_cons, not_or] at h
    simp [cut, List.cons_prefix_cons, h.1, ih h.2]

/-- A separator is cut at the first place where it stands. -/
theorem cut_eq_some_iff {sep b a r : Bytes} (hsep : sep ≠ []) : cut sep b = some (a, r) ↔
    b = a ++ (sep ++ r) ∧ ∀ i < a.length, ¬ sep <+: b.drop i := by
  induction b generalizing a with
  | nil =>
    refine iff_of_false (by simp [cut]) fun h => ?_
    simp [hsep] at h
  | cons c b ih =>
    rw [cut]
    split_ifs with hp
    · constructor
      · intro h
        obtain ⟨rfl, rfl⟩ := Prod.mk.inj (Option.some.inj h)
        exact ⟨(List.prefix_iff_eq_append.1 hp).symm, fun i hi => absurd hi (Nat.not_lt_zero i)⟩
      · rintro ⟨heq, hfirst⟩
        cases a with
        | nil => rw [heq, List.nil_append, List.drop_left]
        | cons d a => exact absurd hp (hfirst 0 (Nat.succ_pos _))
    · rw [Option.map_eq_some_iff]
      constructor
      · rintro ⟨⟨a', r'⟩, hcut, he⟩
        obtain ⟨rfl, rfl⟩ := Prod.mk.inj he
        obtain ⟨heq, hfirst⟩ := ih.1 hcut
        refine ⟨congrArg (c :: ·) heq, fun i hi => ?_⟩
        cases i with
        | zero => exact hp
        | succ i => exact hfirst i (Nat.lt_of_succ_lt_succ hi)
      · rintro ⟨heq, hfirst⟩
        cases a with
        | nil => exact absurd ⟨r, heq.symm⟩ hp
        | cons d a =>
          obtain ⟨rfl, htail⟩ := List.cons.inj heq
          exact ⟨(a, r), ih.2 ⟨htail, fun i hi => hfirst (i + 1) (Nat.succ_lt_succ hi)⟩, rfl⟩

theorem cut_eq_none_iff {sep b : Bytes} (hsep : sep ≠ []) :
    cut sep b = none ↔ ∀ i, ¬ sep <+: b.drop i := by
  induction b with
  | nil => simp [cut, hsep]
  | cons c b ih =>
    rw [cut]
    split_ifs with hp
    · exact iff_of_false (by simp) fun h => h 0 hp
    · rw [Option.map_eq_none_iff, ih]
      constructor
      · intro h i
        cases i with
        | zero => exact hp
        | succ i => exact h i
      · exact fun h i => h (i + 1)

/-- What comes behind does not move the first separator. -/
theorem cut_append {sep b a r : Bytes} (hsep : sep ≠ []) (h : cut sep b = some (a, r)) (x : Bytes) :
    cut sep (b ++ x) = some (a, r ++ x) := by
  obtain ⟨heq, hfirst⟩ := (cut_eq_some_iff hsep).1 h
  refine (cut_eq_some_iff hsep).2 ⟨by simp [heq], fun i hi hp => hfirst i hi ?_⟩
  have hlen := congrArg List.length heq
  simp only [List.length_append] at hlen
  rw [List.drop_append_of_le_length (by omega)] at hp
  refine List.prefix_of_prefix_length_le hp (List.prefix_append (b.drop i) x) ?_
  rw [List.length_drop]
  omega

/-- The pieces between the occurrences of CR LF. -/
def splitCrlf : Bytes → List Bytes
  | [] => [[]]
  | b :: r =>
    if crlf <+: b :: r then [] :: splitCrlf r.tail
    else match splitCrlf r with
      | [] => [[b]]
      | l :: ls => (b :: l) :: ls
  termination_by s => s.length

end Bytes
